import Mathlib
import SignedNames.Proofs.Interleaving

/-!
# What all runs preserve

Whatever the order in which calls are served, every index belongs to a list of linked and stored
chunks, one for each swap that landed under its key, and every append knows whether its own swap is
among them. An append that works from an index that is not the latest cannot land, since the chunks
under the head that it compares with are fixed by that head.
-/
namespace SignedNames

variable {σ : Type}

namespace System

def Idle (s : System σ) (task : Nat) : Prop := ∀ e ∈ s.events, e.task = task → ¬ e.ChangesRecord

end System

/-- The landing is that of a chunk, whose links were those to be appended. -/
structure Landing.Commits (s : System σ) (l : Landing) (c : Chunk) : Prop where
  head : l.index.head = c.cid
  batch : ∃ w, s.batch? l.task = some w ∧ w.key = l.key ∧ w.links = c.links

/-- What is true of an append in a phase. The chunks that it works on top of have been the newest
ones under its key. -/
def Phase.Holds (k : Contents) (chains : Address × String → List Chunk) (s : System σ) (task : Nat)
    (w : Batch) : Phase → Prop
  | .start => s.Idle task
  | .seen cs => cs <:+ chains w.key ∧ s.Idle task
  | .stored cs =>
    cs <:+ chains w.key ∧ k.blob? (w.chunk cs).cid = some (w.chunk cs).bytes ∧ s.Idle task
  | .landed cs =>
    w.chunk cs :: cs <:+ chains w.key ∧ s.landingsBy task = [⟨task, w.key, w.index cs⟩]

/-- A task is in some phase, or leaves bytes and indexes alone. -/
structure Accounted (k : Contents) (chains : Address × String → List Chunk) (s : System σ)
    (task : Nat) (t : Task) : Prop where
  quiet : t.call.batch? = none → t.rest.Asks Request.Quiet ∧ s.landingsBy task = []
  follows : ∀ w, t.call.batch? = some w → w.Fits ∧ ∃ phase : Phase,
    Follows w t.call.Fails (fun cs => t.call.Lands (w.chunk cs :: cs)) phase t.rest ∧
      phase.Holds k chains s task w

/-- The invariant: a system whose store holds some contents, with the chunks under every key. -/
structure Sound (k : Contents) (chains : Address × String → List Chunk) (s : System σ) : Prop where
  blobs : ∀ cid bs, k.blob? cid = some bs → Cid.ofBytes bs = cid ∧ bs ∈ s.storedBytes
  linked : ∀ key, Lineage.Linked (chains key)
  kept : ∀ key, Lineage.Kept k.blob? (chains key)
  index : ∀ key, k.index? key = Lineage.index? (chains key)
  log : ∀ key, List.Forall₂ (Landing.Commits s) (s.landingsAt key) (chains key).reverse
  tasks : ∀ i t, s.tasks[i]? = some t → Accounted k chains s i t
  events : ∀ e ∈ s.events, e.task < s.tasks.length

lemma Batch.Fits.chunk {w : Batch} (h : w.Fits) (cs : List Chunk) : (w.chunk cs).Fits :=
  ⟨h.length, h.links⟩

namespace Event

lemma landing?_quiet {task : Nat} {r : Request} (h : r.Quiet) (reply : r.Reply) :
    landing? ⟨task, r, reply⟩ = none := by
  cases r <;> first | rfl | exact h.elim

lemma landing?_refused (task : Nat) (r : Request) (e : StoreError) :
    landing? ⟨task, r, .error e⟩ = none := by
  cases r <;> rfl

lemma not_changesRecord_refused (task : Nat) (r : Request) (e : StoreError) :
    ¬ ChangesRecord ⟨task, r, .error e⟩ := by
  cases r <;> exact id

lemma task_landing? {e : Event} {l : Landing} (h : e.landing? = some l) : l.task = e.task := by
  unfold landing? at h
  split at h
  · cases h
    rfl
  · cases h

lemma changesRecord_of_landing? {e : Event} (h : e.landing?.isSome) : e.ChangesRecord := by
  unfold landing? at h
  split at h
  · trivial
  · cases h

end Event

namespace System

variable {s : System σ} {store : σ} {task : Nat} {call : Call} {r : Request} {reply : r.Reply}
  {rest : Program (Except OperationError call.Answer)}

lemma landingsBy_of_idle (h : s.Idle task) : s.landingsBy task = [] := by
  rw [landingsBy, List.filter_eq_nil_iff]
  intro l hl htask
  obtain ⟨e, he, hl⟩ := List.mem_filterMap.1 hl
  have heq : e.task = task := by
    rw [← Event.task_landing? hl]
    exact of_decide_eq_true htask
  exact h e he heq (Event.changesRecord_of_landing? (by simp [hl]))

lemma idle_replied (h : s.Idle task) (hevent : ¬ Event.ChangesRecord ⟨task, r, reply⟩) :
    (s.replied store task call r reply rest).Idle task := by
  intro e he
  rcases List.mem_append.1 he with he | he
  · exact h e he
  · rw [List.mem_singleton] at he
    exact fun _ => he ▸ hevent

lemma idle_replied_of_ne {i : Nat} (hi : task ≠ i) (h : s.Idle i) :
    (s.replied store task call r reply rest).Idle i := by
  intro e he
  rcases List.mem_append.1 he with he | he
  · exact h e he
  · rw [List.mem_singleton] at he
    subst he
    exact fun htask => absurd htask hi

lemma landingsBy_replied_of_ne {i : Nat} (hi : task ≠ i) :
    (s.replied store task call r reply rest).landingsBy i = s.landingsBy i := by
  rw [landingsBy, landings_replied, List.filter_append]
  cases h : Event.landing? ⟨task, r, reply⟩ with
  | none => simp [landingsBy]
  | some l =>
    have htask : l.task ≠ i := by
      rw [Event.task_landing? h]
      exact hi
    simp [landingsBy, htask]

lemma landings_replied_of_none (h : Event.landing? ⟨task, r, reply⟩ = none) :
    (s.replied store task call r reply rest).landings = s.landings := by
  rw [landings_replied, h]
  exact List.append_nil _

lemma landingsBy_replied_of_none (h : Event.landing? ⟨task, r, reply⟩ = none) (i : Nat) :
    (s.replied store task call r reply rest).landingsBy i = s.landingsBy i := by
  rw [landingsBy, landings_replied_of_none h, landingsBy]

end System

/-- Bytes stay, and chunks are only put in front. -/
structure Grown (k k' : Contents) (chains chains' : Address × String → List Chunk) : Prop where
  blobs : ∀ cid bs, k.blob? cid = some bs → k'.blob? cid = some bs
  chains : ∀ key, chains key <:+ chains' key

namespace Grown

variable {k k' k'' : Contents} {chains chains' chains'' : Address × String → List Chunk}

theorem refl (k : Contents) (chains : Address × String → List Chunk) : Grown k k chains chains :=
  ⟨fun _ _ h => h, fun _ => List.suffix_refl _⟩

theorem trans (h : Grown k k' chains chains') (h' : Grown k' k'' chains' chains'') :
    Grown k k'' chains chains'' :=
  ⟨fun cid bs hbs => h'.blobs cid bs (h.blobs cid bs hbs),
    fun key => (h.chains key).trans (h'.chains key)⟩

theorem kept (h : Grown k k' chains chains') {cs : List Chunk} (hkept : Lineage.Kept k.blob? cs) :
    Lineage.Kept k'.blob? cs := fun c hc => ⟨(hkept c hc).1, h.blobs _ _ (hkept c hc).2⟩

end Grown

section

variable {k k' : Contents} {chains chains' : Address × String → List Chunk} {s s' : System σ}

lemma Phase.Holds.mono {i : Nat} {w : Batch} {phase : Phase} (h : phase.Holds k chains s i w)
    (grown : Grown k k' chains chains') (hidle : s.Idle i → s'.Idle i)
    (hlandings : s'.landingsBy i = s.landingsBy i) : phase.Holds k' chains' s' i w := by
  cases phase with
  | start => exact hidle h
  | seen cs => exact ⟨h.1.trans (grown.chains _), hidle h.2⟩
  | stored cs => exact ⟨h.1.trans (grown.chains _), grown.blobs _ _ h.2.1, hidle h.2.2⟩
  | landed cs => exact ⟨h.1.trans (grown.chains _), hlandings.trans h.2⟩

lemma Accounted.mono {i : Nat} {t : Task} (h : Accounted k chains s i t)
    (grown : Grown k k' chains chains') (hidle : s.Idle i → s'.Idle i)
    (hlandings : s'.landingsBy i = s.landingsBy i) : Accounted k' chains' s' i t where
  quiet hnone := ⟨(h.quiet hnone).1, hlandings.trans (h.quiet hnone).2⟩
  follows w hw := by
    obtain ⟨hfits, phase, hfollows, hholds⟩ := h.follows w hw
    exact ⟨hfits, phase, hfollows, hholds.mono grown hidle hlandings⟩

lemma Accounted.of_phase {i : Nat} {t : Task} {w : Batch} (hw : t.call.batch? = some w)
    (fits : w.Fits) {phase : Phase}
    (hfollows : Follows w t.call.Fails (fun cs => t.call.Lands (w.chunk cs :: cs)) phase t.rest)
    (hholds : phase.Holds k chains s i w) : Accounted k chains s i t where
  quiet hnone := by
    rw [hw] at hnone
    cases hnone
  follows w' hw' := by
    cases hw.symm.trans hw'
    exact ⟨fits, phase, hfollows, hholds⟩

end

namespace Sound

variable {k k' : Contents} {chains chains' : Address × String → List Chunk} {s : System σ}
  {store : σ} {task : Nat} {call : Call} {r : Request} {reply : r.Reply}
  {old rest : Program (Except OperationError call.Answer)}

lemma accounted_replied (h : Sound k chains s) (turn : s.tasks[task]? = some ⟨call, old⟩)
    (grown : Grown k k' chains chains')
    (own : Accounted k' chains' (s.replied store task call r reply rest) task ⟨call, rest⟩) (i : Nat)
    (t : Task) (ht : (s.replied store task call r reply rest).tasks[i]? = some t) :
    Accounted k' chains' (s.replied store task call r reply rest) i t := by
  by_cases hi : task = i
  · subst hi
    have hlt : task < s.tasks.length := (List.getElem?_eq_some_iff.1 turn).1
    have hset : t = ⟨call, rest⟩ := by simpa [System.replied, hlt] using ht.symm
    exact hset ▸ own
  · have hold : s.tasks[i]? = some t := by simpa [System.replied, hi] using ht
    exact (h.tasks i t hold).mono grown (System.idle_replied_of_ne hi)
      (System.landingsBy_replied_of_ne hi)

lemma events_replied (h : Sound k chains s) (turn : s.tasks[task]? = some ⟨call, old⟩) :
    ∀ e ∈ (s.replied store task call r reply rest).events,
      e.task < (s.replied store task call r reply rest).tasks.length := by
  have hlt : task < s.tasks.length := (List.getElem?_eq_some_iff.1 turn).1
  intro e he
  have hlength : (s.replied store task call r reply rest).tasks.length = s.tasks.length :=
    List.length_set
  rw [hlength]
  rcases List.mem_append.1 he with he | he
  · exact h.events e he
  · rw [List.mem_singleton] at he
    exact he ▸ hlt

lemma commits_replied (turn : s.tasks[task]? = some ⟨call, old⟩) {l : Landing} {c : Chunk}
    (h : l.Commits s c) : l.Commits (s.replied store task call r reply rest) c where
  head := h.head
  batch := by
    rw [System.batch?_replied turn]
    exact h.batch

theorem replied (h : Sound k chains s) (turn : s.tasks[task]? = some ⟨call, old⟩)
    (hlanding : Event.landing? ⟨task, r, reply⟩ = none)
    (grown : Grown k k' chains chains) (hindex : k'.index? = k.index?)
    (hnew : ∀ cid bs, k'.blob? cid = some bs → k.blob? cid = some bs ∨
      Cid.ofBytes bs = cid ∧ Event.stored? ⟨task, r, reply⟩ = some bs)
    (own : Accounted k' chains (s.replied store task call r reply rest) task ⟨call, rest⟩) :
    Sound k' chains (s.replied store task call r reply rest) where
  blobs := by
    intro cid bs hbs
    rw [System.storedBytes_replied]
    rcases hnew cid bs hbs with hbs | ⟨hcid, hbs⟩
    · obtain ⟨hcid, hmem⟩ := h.blobs cid bs hbs
      exact ⟨hcid, List.mem_append_left _ hmem⟩
    · exact ⟨hcid, List.mem_append_right _ (by simp [hbs])⟩
  linked := h.linked
  kept key := grown.kept (h.kept key)
  index key := hindex ▸ h.index key
  log key := by
    rw [System.landingsAt, System.landings_replied_of_none hlanding]
    exact (h.log key).imp fun _ _ hc => commits_replied turn hc
  tasks := h.accounted_replied turn grown own
  events := h.events_replied turn

def extended (chains : Address × String → List Chunk) (key : Address × String) (c : Chunk) :
    Address × String → List Chunk :=
  fun other => if key = other then c :: chains other else chains other

@[simp] theorem extended_self (chains : Address × String → List Chunk) (key : Address × String)
    (c : Chunk) : extended chains key c key = c :: chains key := if_pos rfl

theorem extended_of_ne (chains : Address × String → List Chunk) {key other : Address × String}
    (h : key ≠ other) (c : Chunk) : extended chains key c other = chains other := if_neg h

lemma grown_extended (k : Contents) (chains : Address × String → List Chunk)
    (key : Address × String) (i : NameIndex) (c : Chunk) :
    Grown k (k.setIndex key i) chains (extended chains key c) := by
  refine ⟨fun _ _ h => h, ?_⟩
  intro other
  by_cases hkey : key = other
  · subst hkey
    rw [extended_self]
    exact List.suffix_cons ..
  · rw [extended_of_ne chains hkey]

lemma log_landed (h : Sound k chains s) (turn : s.tasks[task]? = some ⟨call, old⟩) {w : Batch}
    (hw : call.batch? = some w) {expected : Option Cid} {i : NameIndex} {c : Chunk}
    (hhead : i.head = c.cid) (hlinks : w.links = c.links) (key : Address × String) :
    List.Forall₂
      (Landing.Commits (s.replied store task call
        (.swapIndex w.owner w.namespaceName expected i) (.ok .swapped) rest))
      ((s.replied store task call
        (.swapIndex w.owner w.namespaceName expected i) (.ok .swapped) rest).landingsAt key)
      (extended chains w.key c key).reverse := by
  set s' := s.replied store task call (.swapIndex w.owner w.namespaceName expected i)
    (.ok .swapped) rest with hs'
  have hlandings : s'.landings = s.landings ++ [⟨task, w.key, i⟩] := System.landings_replied
  have hlog : List.Forall₂ (Landing.Commits s') (s.landingsAt key) (chains key).reverse :=
    (h.log key).imp fun _ _ hcommits => commits_replied turn hcommits
  have hbatch : s'.batch? task = some w := by
    rw [hs', System.batch?_replied turn, System.batch?, turn]
    exact hw
  rw [System.landingsAt, hlandings, List.filter_append]
  change List.Forall₂ _ (s.landingsAt key ++ _) _
  by_cases hkey : w.key = key
  · have hcommits : Landing.Commits s' ⟨task, w.key, i⟩ c := ⟨hhead, w, hbatch, rfl, hlinks⟩
    subst hkey
    rw [extended_self, List.reverse_cons]
    refine List.rel_append hlog ?_
    simpa using hcommits
  · rw [extended_of_ne chains hkey]
    simpa [hkey] using hlog

theorem landed (h : Sound k chains s) {w : Batch}
    {next : Except StoreError (Swap NameIndex) → Program (Except OperationError call.Answer)}
    {expected : Option Cid}
    (turn : s.tasks[task]? =
      some ⟨call, .ask (.swapIndex w.owner w.namespaceName expected (w.index (chains w.key))) next⟩)
    (hw : call.batch? = some w) (fits : w.Fits) (hidle : s.Idle task)
    (hstored : k.blob? (w.chunk (chains w.key)).cid = some (w.chunk (chains w.key)).bytes)
    (hfollows : Follows w call.Fails (fun cs => call.Lands (w.chunk cs :: cs))
      (.landed (chains w.key)) (next (.ok .swapped))) :
    Sound (k.setIndex w.key (w.index (chains w.key)))
      (extended chains w.key (w.chunk (chains w.key)))
      (s.replied store task call (.swapIndex w.owner w.namespaceName expected
        (w.index (chains w.key))) (.ok .swapped) (next (.ok .swapped))) := by
  set c := w.chunk (chains w.key) with hc
  set s' := s.replied store task call (.swapIndex w.owner w.namespaceName expected
    (w.index (chains w.key))) (.ok .swapped) (next (.ok .swapped)) with hs'
  have hby : s'.landingsBy task = [⟨task, w.key, w.index (chains w.key)⟩] := by
    have hnone : s.landingsBy task = [] := System.landingsBy_of_idle hidle
    rw [System.landingsBy, hs', System.landings_replied, List.filter_append]
    change s.landingsBy task ++ _ = _
    simp [hnone, Event.landing?, Batch.key]
  have hown : Accounted (k.setIndex w.key (w.index (chains w.key))) (extended chains w.key c) s'
      task ⟨call, next (.ok .swapped)⟩ := by
    refine .of_phase hw fits hfollows ⟨?_, hby⟩
    rw [extended_self]
  refine ⟨?_, ?_, ?_, ?_, h.log_landed turn hw rfl rfl,
    h.accounted_replied turn (grown_extended ..) hown, h.events_replied turn⟩
  · intro cid bs hbs
    obtain ⟨hcid, hmem⟩ := h.blobs cid bs hbs
    refine ⟨hcid, ?_⟩
    rw [hs', System.storedBytes_replied]
    exact List.mem_append_left _ hmem
  · intro key
    by_cases hkey : w.key = key
    · subst hkey
      rw [extended_self]
      exact ⟨rfl, h.linked _⟩
    · rw [extended_of_ne chains hkey]
      exact h.linked key
  · intro key
    by_cases hkey : w.key = key
    · subst hkey
      rw [extended_self]
      exact List.forall_mem_cons.2 ⟨⟨fits.chunk _, hstored⟩, h.kept _⟩
    · rw [extended_of_ne chains hkey]
      exact h.kept key
  · intro key
    by_cases hkey : w.key = key
    · subst hkey
      rw [extended_self]
      exact if_pos rfl
    · rw [extended_of_ne chains hkey]
      exact (if_neg hkey).trans (h.index key)

lemma idle_length (h : Sound k chains s) : s.Idle s.tasks.length :=
  fun e he htask => absurd (h.events e he) (by omega)

theorem called (h : Sound k chains s) {c : Call} (fits : ∀ w, c.batch? = some w → w.Fits) :
    Sound k chains (s.called c) where
  blobs := h.blobs
  linked := h.linked
  kept := h.kept
  index := h.index
  log key := (h.log key).imp fun _ _ hcommits => ⟨hcommits.head, by
    obtain ⟨w, hw, hbatch⟩ := hcommits.batch
    exact ⟨w, System.batch?_called hw c, hbatch⟩⟩
  tasks i t ht := by
    change (s.tasks ++ [_])[i]? = some t at ht
    rw [List.getElem?_append] at ht
    split at ht
    · exact (h.tasks i t ht).mono (.refl k chains) id rfl
    · have hlt := (List.getElem?_eq_some_iff.1 ht).1
      rw [List.length_singleton] at hlt
      have heq : i = s.tasks.length := by omega
      subst heq
      rw [Nat.sub_self] at ht
      cases ht
      exact ⟨fun hnone => ⟨Call.quiet hnone, System.landingsBy_of_idle h.idle_length⟩,
        fun w hw => ⟨fits w hw, .start, Call.follows hw, h.idle_length⟩⟩
  events e he := by
    have hlt := h.events e he
    simp only [System.called, List.length_append, List.length_singleton]
    omega

lemma refused_own {next : r.Reply → Program (Except OperationError call.Answer)} {e : StoreError}
    (h : Accounted k chains s task ⟨call, .ask r next⟩) :
    Accounted k chains (s.replied store task call r (.error e) (next (.error e))) task
      ⟨call, next (.error e)⟩ := by
  have hby : (s.replied store task call r (.error e) (next (.error e))).landingsBy task =
      s.landingsBy task :=
    System.landingsBy_replied_of_none (Event.landing?_refused task r e) task
  constructor
  · intro hnone
    obtain ⟨hasks, hnone⟩ := h.quiet hnone
    exact ⟨hasks.2 _, hby.trans hnone⟩
  · intro w hw
    obtain ⟨fits, phase, hfollows, hholds⟩ := h.follows w hw
    exact ⟨fits, phase, hfollows.refused e, hholds.mono (.refl k chains)
      (System.idle_replied · (Event.not_changesRecord_refused task r e)) hby⟩

theorem refused {next : r.Reply → Program (Except OperationError call.Answer)}
    (h : Sound k chains s) (turn : s.tasks[task]? = some ⟨call, .ask r next⟩) (e : StoreError) :
    Sound k chains (s.replied store task call r (.error e) (next (.error e))) :=
  h.replied turn (Event.landing?_refused task r e) (.refl k chains) rfl (fun _ _ => .inl)
    (refused_own (h.tasks task _ turn))

lemma blob?_put_new (h : Sound k chains s) (bs : Bytes)
    (hfree : ∀ old ∈ s.storedBytes, Cid.ofBytes old = Cid.ofBytes bs → old = bs) :
    (k.put bs).blob? (Cid.ofBytes bs) = some bs := by
  rw [Contents.blob?_put_self]
  cases hk : k.blob? (Cid.ofBytes bs) with
  | none => rfl
  | some old =>
    obtain ⟨hcid, hmem⟩ := h.blobs _ _ hk
    rw [hfree old hmem hcid]
    rfl

lemma served_quiet {next : r.Reply → Program (Except OperationError call.Answer)}
    (h : Sound k chains s) (turn : s.tasks[task]? = some ⟨call, .ask r next⟩) (hr : r.Quiet)
    (own : Accounted k chains (s.replied store task call r reply (next reply)) task
      ⟨call, next reply⟩) : Sound k chains (s.replied store task call r reply (next reply)) :=
  h.replied turn (Event.landing?_quiet hr reply) (.refl k chains) rfl (fun _ _ => .inl) own

end Sound

def Extends (rep : σ → Contents → Prop) (k : Contents) (chains : Address × String → List Chunk)
    (t : System σ) : Prop :=
  ∃ k' chains', rep t.store k' ∧ Grown k k' chains chains' ∧ Sound k' chains' t

section

variable {b : Backend σ} {rep : σ → Contents → Prop} {k : Contents}
  {chains : Address × String → List Chunk} {s t : System σ}

section

variable {store : σ} {task : Nat} {call : Call} {w : Batch} {cs : List Chunk}

lemma System.CollisionFree.eq_of_stored {bs : Bytes} {cid : Cid}
    {rest : Program (Except OperationError call.Answer)}
    (hfree : (s.replied store task call (.put bs) (.ok cid) rest).CollisionFree) :
    ∀ old ∈ s.storedBytes, Cid.ofBytes old = Cid.ofBytes bs → old = bs := by
  intro old hold hcid
  refine hfree old ?_ bs ?_ hcid
  · rw [System.storedBytes_replied]
    exact List.mem_append_left _ hold
  · rw [System.storedBytes_replied]
    exact List.mem_append_right _ (List.mem_singleton_self _)

lemma Sound.put_stored (h : Sound k chains s)
    {next : Except StoreError Cid → Program (Except OperationError call.Answer)}
    (turn : s.tasks[task]? = some ⟨call, .ask (.put (w.chunk cs).bytes) next⟩)
    (hstore : rep store (k.put (w.chunk cs).bytes))
    (hfree : (s.replied store task call (.put (w.chunk cs).bytes) (.ok (w.chunk cs).cid)
      (next (.ok (w.chunk cs).cid))).CollisionFree)
    (hbatch : call.batch? = some w) (fits : w.Fits) (hholds : (Phase.seen cs).Holds k chains s task w)
    (stored : Follows w call.Fails (fun cs => call.Lands (w.chunk cs :: cs)) (.stored cs)
      (next (.ok (w.chunk cs).cid))) :
    Extends rep k chains (s.replied store task call (.put (w.chunk cs).bytes)
      (.ok (w.chunk cs).cid) (next (.ok (w.chunk cs).cid))) := by
  have hblob := h.blob?_put_new (w.chunk cs).bytes hfree.eq_of_stored
  have grown : Grown k (k.put (w.chunk cs).bytes) chains chains :=
    ⟨fun _ _ hbs => Contents.blob?_put_of_blob? hbs _, fun _ => List.suffix_refl _⟩
  refine ⟨_, chains, hstore, grown, h.replied turn rfl grown (k.put_index? _) ?_ ?_⟩
  · intro cid bs hbs
    rcases Contents.blob?_put_eq_some hbs with hbs | ⟨hcid, rfl⟩
    · exact .inl hbs
    · exact .inr ⟨hcid, rfl⟩
  · exact .of_phase hbatch fits stored ⟨hholds.1, hblob, System.idle_replied hholds.2 id⟩

/-- The head that a swap expects fixes the chunks under it, so what lands is on top of the latest
chunks. -/
lemma Sound.swap_landed (h : Sound k chains s)
    {next : Except StoreError (Swap NameIndex) → Program (Except OperationError call.Answer)}
    (turn : s.tasks[task]? =
      some ⟨call, .ask (.swapIndex w.owner w.namespaceName (Lineage.tip cs) (w.index cs)) next⟩)
    (hhit : (k.index? w.key).map (·.head) = Lineage.tip cs)
    (hstore : rep store (k.setIndex w.key (w.index cs)))
    (hbatch : call.batch? = some w) (fits : w.Fits)
    (hholds : (Phase.stored cs).Holds k chains s task w)
    (swapped : Follows w call.Fails (fun cs => call.Lands (w.chunk cs :: cs)) (.landed cs)
      (next (.ok .swapped))) :
    Extends rep k chains (s.replied store task call
      (.swapIndex w.owner w.namespaceName (Lineage.tip cs) (w.index cs)) (.ok .swapped)
      (next (.ok .swapped))) := by
  obtain ⟨hsuffix, hblob, hidle⟩ := hholds
  have hcs : cs = chains w.key := by
    rw [h.index, Lineage.map_head_index?] at hhit
    exact Lineage.eq_of_tip_eq ((h.linked _).of_suffix hsuffix) (h.linked _)
      ((h.kept _).of_suffix hsuffix) (h.kept _) hhit.symm
  subst hcs
  exact ⟨_, _, hstore, Sound.grown_extended .., h.landed turn hbatch fits hidle hblob swapped⟩

end

theorem Sound.served (keeps : b.Keeps rep) (hrep : rep s.store k) (h : Sound k chains s)
    {task : Nat} {call : Call} {r : Request}
    {next : r.Reply → Program (Except OperationError call.Answer)}
    (turn : s.tasks[task]? = some ⟨call, .ask r next⟩)
    (hfree : (s.replied (b r s.store).2 task call r (b r s.store).1
      (next (b r s.store).1)).CollisionFree) :
    Extends rep k chains (s.replied (b r s.store).2 task call r (b r s.store).1
      (next (b r s.store).1)) := by
  have haccounted := h.tasks task _ turn
  cases hbatch : call.batch? with
  | none =>
    obtain ⟨⟨hr, hasks⟩, hnone⟩ := haccounted.quiet hbatch
    refine ⟨k, chains, keeps.quiet hrep r hr, .refl k chains, h.served_quiet turn hr ?_⟩
    constructor
    · intro _
      refine ⟨hasks _, ?_⟩
      rw [System.landingsBy_replied_of_none (Event.landing?_quiet hr _)]
      exact hnone
    · intro w hw
      rw [hbatch] at hw
      cases hw
  | some w =>
    -- an append makes one request in each phase, and the reply decides about the next one
    obtain ⟨fits, phase, hfollows, hholds⟩ := haccounted.follows w hbatch
    cases hfollows with
    | load seen refused =>
      rw [keeps.loadIndex hrep w.owner w.namespaceName, h.index]
      refine ⟨k, chains, hrep, .refl k chains, h.served_quiet turn trivial ?_⟩
      exact .of_phase hbatch fits (seen _)
        ⟨List.suffix_refl _, System.idle_replied hholds id⟩
    | @put cs _ stored refused =>
      obtain ⟨hreply, hstore⟩ := keeps.put hrep (w.chunk cs).bytes
      rw [hreply] at hfree ⊢
      exact h.put_stored turn hstore hfree hbatch fits hholds stored
    | @swap cs _ swapped lost refused =>
      by_cases hhit : (k.index? w.key).map (·.head) = Lineage.tip cs
      · have hswap : k.swap w.key (Lineage.tip cs) (w.index cs) =
            (.swapped, k.setIndex w.key (w.index cs)) := if_pos hhit
        obtain ⟨hreply, hstore⟩ := keeps.swapIndex hrep w.owner w.namespaceName _
          (w.index_normal cs) hswap
        rw [hreply]
        exact h.swap_landed turn hhit hstore hbatch fits hholds swapped
      · have hswap : k.swap w.key (Lineage.tip cs) (w.index cs) =
            (.conflict (Lineage.index? (chains w.key)), k) := by
          rw [Contents.swap, if_neg hhit, h.index]
        obtain ⟨hreply, hstore⟩ := keeps.swapIndex hrep w.owner w.namespaceName _
          (w.index_normal cs) hswap
        rw [hreply]
        refine ⟨k, chains, hstore, .refl k chains,
          h.replied turn rfl (.refl k chains) rfl (fun _ _ => .inl) ?_⟩
        exact .of_phase hbatch fits (lost _)
          ⟨List.suffix_refl _, System.idle_replied hholds.2.2 id⟩
    | landed quiet ends =>
      obtain ⟨hr, hasks⟩ := quiet
      refine ⟨k, chains, keeps.quiet hrep r hr, .refl k chains, h.served_quiet turn hr
        (.of_phase hbatch fits (.landed (hasks _) (ends _)) ⟨hholds.1, ?_⟩)⟩
      rw [System.landingsBy_replied_of_none (Event.landing?_quiet hr _)]
      exact hholds.2

theorem Sound.step (keeps : b.Keeps rep) (hrep : rep s.store k) (h : Sound k chains s)
    (hstep : System.Step b s t) (hfree : t.CollisionFree) : Extends rep k chains t := by
  cases hstep with
  | «begin» c fits => exact ⟨k, chains, hrep, .refl k chains, h.called fits⟩
  | serve turn => exact h.served keeps hrep turn hfree
  | refuse turn e => exact ⟨k, chains, hrep, .refl k chains, h.refused turn e⟩

/-- What every step preserves of a sound system, given how its contents have grown, a run preserves. -/
theorem Sound.run_preserves {P : (Address × String → List Chunk) → System σ → Prop}
    (keeps : b.Keeps rep)
    (step : ∀ {k k' chains chains' s t}, rep s.store k → Sound k chains s → P chains s →
      System.Step b s t → Grown k k' chains chains' → P chains' t)
    (hrep : rep s.store k) (h : Sound k chains s) (hP : P chains s) (hrun : System.Run b s t)
    (hfree : t.CollisionFree) :
    ∃ k' chains', rep t.store k' ∧ Grown k k' chains chains' ∧ Sound k' chains' t ∧
      P chains' t := by
  induction hrun with
  | refl => exact ⟨k, chains, hrep, .refl k chains, h, hP⟩
  | tail _ hstep ih =>
    obtain ⟨k₁, chains₁, hrep₁, hgrown₁, h₁, hP₁⟩ := ih (hfree.of_step hstep)
    obtain ⟨k₂, chains₂, hrep₂, hgrown₂, h₂⟩ := h₁.step keeps hrep₁ hstep hfree
    exact ⟨k₂, chains₂, hrep₂, hgrown₁.trans hgrown₂, h₂, step hrep₁ h₁ hP₁ hstep hgrown₂⟩

theorem Sound.run (keeps : b.Keeps rep) (hrep : rep s.store k) (h : Sound k chains s)
    (hrun : System.Run b s t) (hfree : t.CollisionFree) : Extends rep k chains t := by
  obtain ⟨k', chains', hrep', hgrown, h', -⟩ := h.run_preserves (P := fun _ _ => True) keeps
    (fun _ _ _ _ _ => trivial) hrep trivial hrun hfree
  exact ⟨k', chains', hrep', hgrown, h'⟩

theorem Sound.start (store : σ) : Sound .empty (fun _ => []) (System.start store) := by
  refine ⟨?_, fun _ => trivial, fun _ => ?_, fun _ => rfl, fun _ => .nil, ?_, ?_⟩
  · intro cid bs hbs
    cases hbs
  · exact List.forall_mem_nil _
  · intro i t ht
    cases ht
  · exact List.forall_mem_nil _

lemma Sound.committed_eq (h : Sound k chains s) (key : Address × String) :
    s.committed key = (chains key).reverse.map (·.links) := by
  have hlog := h.log key
  rw [System.committed]
  generalize s.landingsAt key = landings at hlog
  generalize (chains key).reverse = chunks at hlog
  induction hlog with
  | nil => rfl
  | cons hcommits _ ih =>
    obtain ⟨w, hw, -, hlinks⟩ := hcommits.batch
    rw [List.filterMap_cons, hw, List.map_cons, ← hlinks, ih]
    rfl

lemma Sound.links_eq (h : Sound k chains s) (key : Address × String) :
    Lineage.links (chains key) = (s.committed key).flatten.reverse := by
  rw [h.committed_eq, Lineage.links, List.flatMap_def, List.reverse_flatten, List.map_reverse,
    List.map_reverse, List.reverse_reverse, List.map_map]
  rfl

lemma Sound.length_landingsAt (h : Sound k chains s) (key : Address × String) :
    (s.landingsAt key).length = (chains key).length := by
  rw [(h.log key).length_eq, List.length_reverse]

end
end SignedNames
