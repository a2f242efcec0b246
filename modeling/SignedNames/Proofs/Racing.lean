import Mathlib
import SignedNames.Proofs.IndexedChains
import SignedNames.Proofs.ProfileLog

/-!
# Appends that race

An append loses a swap only to another append that has landed under the same key since it was told
of the index that it works from, and it is told of the newest index when it loses. So a lost swap
is never spurious, and each one is paid for by another append that has landed meanwhile.
-/
namespace SignedNames

namespace Event

/-- What a task was told about an index. -/
def observed? : Event → Option (Option NameIndex)
  | ⟨_, .loadIndex .., .ok found⟩ => some found
  | ⟨_, .swapIndex .., .ok (.conflict current)⟩ => some current
  | _ => none

def swapsIndex : Event → Bool
  | ⟨_, .swapIndex .., _⟩ => true
  | _ => false

lemma landing?_of_observed? {e : Event} {found : Option NameIndex}
    (h : e.observed? = some found) : e.landing? = none := by
  unfold observed? at h
  split at h
  · rfl
  · rfl
  · cases h

lemma swapsIndex_quiet {r : Request} (h : r.Quiet) (task : Nat) (reply : r.Reply) :
    swapsIndex ⟨task, r, reply⟩ = false := by
  cases r <;> first | rfl | exact h.elim

end Event

namespace Log

def landingsAt (log : List Event) (key : Address × String) : List Landing :=
  (log.filterMap Event.landing?).filter fun l => l.key = key

def landingsOfOthers (log : List Event) (key : Address × String) (task : Nat) : List Landing :=
  (landingsAt log key).filter fun l => l.task ≠ task

def swapsBy (log : List Event) (task : Nat) : List Event := (byTask log task).filter (·.swapsIndex)

/-- What happened from the first request of a task on. -/
def since (log : List Event) (task : Nat) : List Event := log.dropWhile fun e => e.task ≠ task

/-- What happened between the first and the last request of a task. -/
def during (log : List Event) (task : Nat) : List Event :=
  (since log task).rdropWhile fun e => e.task ≠ task

section

variable {log earlier later : List Event} {e : Event} {key : Address × String} {task : Nat}

lemma landingsAt_append (log log' : List Event) (key : Address × String) :
    landingsAt (log ++ log') key = landingsAt log key ++ landingsAt log' key := by
  rw [landingsAt, List.filterMap_append, List.filter_append, landingsAt, landingsAt]

lemma landingsOfOthers_append (log log' : List Event) (key : Address × String) (task : Nat) :
    landingsOfOthers (log ++ log') key task =
      landingsOfOthers log key task ++ landingsOfOthers log' key task := by
  rw [landingsOfOthers, landingsAt_append, List.filter_append, landingsOfOthers, landingsOfOthers]

lemma landingsAt_cons_of_none (h : e.landing? = none) (log : List Event)
    (key : Address × String) : landingsAt (e :: log) key = landingsAt log key := by
  rw [landingsAt, List.filterMap_cons_none h, landingsAt]

lemma landingsOfOthers_eq (h : ∀ e ∈ log, e.task = task → e.landing? = none)
    (key : Address × String) : landingsOfOthers log key task = landingsAt log key := by
  refine List.filter_eq_self.2 fun l hl => decide_eq_true fun htask => ?_
  obtain ⟨e, he, hlanding⟩ := List.mem_filterMap.1 (List.mem_filter.1 hl).1
  have hnone := h e he ((Event.task_landing? hlanding).symm.trans htask)
  rw [hnone] at hlanding
  cases hlanding

lemma swapsBy_append_of_ne (h : e.task ≠ task) : swapsBy (log ++ [e]) task = swapsBy log task := by
  rw [swapsBy, byTask_append_of_ne h, swapsBy]

lemma swapsBy_append_of_not (h : e.swapsIndex = false) (task : Nat) :
    swapsBy (log ++ [e]) task = swapsBy log task := by
  by_cases htask : e.task = task
  · subst htask
    rw [swapsBy, byTask_append_self, List.filter_append, swapsBy]
    simp [h]
  · exact swapsBy_append_of_ne htask

lemma length_swapsBy_append (h : e.swapsIndex = true) :
    (swapsBy (log ++ [e]) e.task).length = (swapsBy log e.task).length + 1 := by
  rw [swapsBy, byTask_append_self, List.filter_append, swapsBy]
  simp [h]

lemma swapsBy_eq_nil (h : ∀ e ∈ log, e.task ≠ task) : swapsBy log task = [] := by
  have hnone : byTask log task = [] :=
    List.filter_eq_nil_iff.2 fun e he htask => h e he (of_decide_eq_true htask)
  rw [swapsBy, hnone, List.filter_nil]

lemma since_append_cons (h : e.task = task) :
    since (earlier ++ e :: later) task = since earlier task ++ e :: later := by
  induction earlier with
  | nil => simp [since, h]
  | cons first earlier ih =>
    by_cases hfirst : first.task = task
    · simp [since, hfirst]
    · simpa [since, hfirst] using ih

lemma prefix_during (h : e.task = task) :
    since earlier task <+: during (earlier ++ e :: later) task := by
  rw [during, since_append_cons h, List.rdropWhile, List.reverse_append, List.reverse_cons,
    List.append_assoc, List.singleton_append]
  have hsince : since (later.reverse ++ e :: (since earlier task).reverse) task =
      since later.reverse task ++ e :: (since earlier task).reverse := since_append_cons h
  rw [since] at hsince
  rw [hsince, List.reverse_append, List.reverse_cons, List.reverse_reverse, List.append_assoc]
  exact List.prefix_append ..

lemma length_landingsOfOthers_le (h : earlier <+: log) :
    (landingsOfOthers earlier key task).length ≤ (landingsOfOthers log key task).length := by
  obtain ⟨later, rfl⟩ := h
  rw [landingsOfOthers_append, List.length_append]
  exact Nat.le_add_right ..

end

/-- Others have landed this often under the key between two requests of the task. -/
def Waited (log : List Event) (key : Address × String) (task n : Nat) : Prop :=
  ∃ earlier e later, log = earlier ++ e :: later ∧ e.task = task ∧
    n ≤ (landingsOfOthers (since earlier task) key task).length

/-- The task was last told of the index that belongs to some chunks, all that had landed by then,
and had lost no more swaps than others had landed. -/
def Told (log : List Event) (key : Address × String) (task lost : Nat) (cs : List Chunk) : Prop :=
  ∃ earlier seen later, log = earlier ++ seen :: later ∧ seen.task = task ∧
    seen.observed? = some (Lineage.index? cs) ∧
    (∀ e ∈ later, e.task = task → e.observed? = none) ∧
    cs.length = (landingsAt earlier key).length ∧
    lost ≤ (landingsOfOthers (since earlier task) key task).length

/-- Every swap that was executed has lost exactly if others have landed under its key since the task
was told of the index that it works from. -/
def LosesFairly (log : List Event) (task : Nat) : Prop :=
  ∀ before after owner namespaceName expected next outcome,
    log = before ++ ⟨task, .swapIndex owner namespaceName expected next, .ok outcome⟩ :: after →
      ∃ earlier seen between found, before = earlier ++ seen :: between ∧ seen.task = task ∧
        seen.observed? = some found ∧ expected = found.map (·.head) ∧
        (∀ e ∈ between, e.task = task → e.observed? = none) ∧
        ((∃ current, outcome = .conflict current) ↔
          landingsOfOthers between (owner, Text.lower namespaceName) task ≠ [])

section

variable {log : List Event} {e : Event} {key : Address × String} {task n lost : Nat}
  {cs : List Chunk}

lemma Waited.append (h : Waited log key task n) (e : Event) : Waited (log ++ [e]) key task n := by
  obtain ⟨earlier, ev, later, rfl, htask, hn⟩ := h
  exact ⟨earlier, ev, later ++ [e], by rw [List.append_assoc, List.cons_append], htask, hn⟩

lemma Waited.le_during (h : Waited log key task n) :
    n ≤ (landingsOfOthers (during log task) key task).length := by
  obtain ⟨earlier, e, later, rfl, htask, hn⟩ := h
  exact hn.trans (length_landingsOfOthers_le (prefix_during htask))

lemma Told.waited (h : Told log key task lost cs) : Waited log key task lost := by
  obtain ⟨earlier, seen, later, hlog, htask, -, -, -, hlost⟩ := h
  exact ⟨earlier, seen, later, hlog, htask, hlost⟩

lemma Told.append (h : Told log key task lost cs)
    (he : e.task = task → e.observed? = none) : Told (log ++ [e]) key task lost cs := by
  obtain ⟨earlier, seen, later, rfl, htask, hseen, hlater, hlength, hlost⟩ := h
  refine ⟨earlier, seen, later ++ [e], by rw [List.append_assoc, List.cons_append], htask, hseen,
    ?_, hlength, hlost⟩
  intro e' he'
  rcases List.mem_append.1 he' with he' | he'
  · exact hlater e' he'
  · rw [List.mem_singleton.1 he']
    exact he

lemma LosesFairly.append_of_not (h : LosesFairly log task)
    (he : ∀ owner namespaceName expected next outcome,
      e ≠ ⟨task, .swapIndex owner namespaceName expected next, .ok outcome⟩) :
    LosesFairly (log ++ [e]) task := by
  intro before after owner namespaceName expected next outcome hlog
  rcases append_singleton_eq hlog with ⟨-, heq, -⟩ | ⟨after', -, hlog⟩
  · exact (he _ _ _ _ _ heq.symm).elim
  · exact h before after' owner namespaceName expected next outcome hlog

lemma LosesFairly.append_swap (h : LosesFairly log task) {owner : Address} {namespaceName : String}
    {next : NameIndex} {outcome : Swap NameIndex} {earlier between : List Event} {seen : Event}
    (hlog : log = earlier ++ seen :: between) (htask : seen.task = task)
    (hseen : seen.observed? = some (Lineage.index? cs))
    (hbetween : ∀ e ∈ between, e.task = task → e.observed? = none)
    (houtcome : (∃ current, outcome = .conflict current) ↔
      landingsOfOthers between (owner, Text.lower namespaceName) task ≠ []) :
    LosesFairly (log ++
      [⟨task, .swapIndex owner namespaceName (Lineage.tip cs) next, .ok outcome⟩]) task := by
  intro before after owner' namespaceName' expected next' outcome' hsplit
  rcases append_singleton_eq hsplit with ⟨rfl, heq, -⟩ | ⟨after', -, hold⟩
  · cases heq
    exact ⟨earlier, seen, between, _, hlog, htask, hseen, (Lineage.map_head_index? cs).symm,
      hbetween, houtcome⟩
  · exact h before after' owner' namespaceName' expected next' outcome' hold

end
end Log

/-- How far an append has got with its current attempt, after some lost swaps. -/
inductive Attempt
  | start
  | seen (lost : Nat) (cs : List Chunk)
  | stored (lost : Nat) (cs : List Chunk)
  | landed (lost : Nat) (cs : List Chunk)
  | failed

/-- The rest of an append that may try for some number of times. -/
inductive Tries (w : Batch) (limit : Nat) :
    Attempt → Program (Except OperationError Receipt) → Prop
  | load {next : Except StoreError (Option NameIndex) → Program (Except OperationError Receipt)}
    (seen : ∀ cs, Tries w limit (.seen 0 cs) (next (.ok (Lineage.index? cs))))
    (refused : ∀ e, Tries w limit .failed (next (.error e))) :
    Tries w limit .start (.ask (.loadIndex w.owner w.namespaceName) next)
  | put {lost : Nat} {cs : List Chunk}
    {next : Except StoreError Cid → Program (Except OperationError Receipt)} (tries : lost < limit)
    (stored : Tries w limit (.stored lost cs) (next (.ok (w.chunk cs).cid)))
    (refused : ∀ e, Tries w limit .failed (next (.error e))) :
    Tries w limit (.seen lost cs) (.ask (.put (w.chunk cs).bytes) next)
  | swap {lost : Nat} {cs : List Chunk}
    {next : Except StoreError (Swap NameIndex) → Program (Except OperationError Receipt)}
    (tries : lost < limit) (swapped : Tries w limit (.landed lost cs) (next (.ok .swapped)))
    (conflict : ∀ now, Tries w limit (.seen (lost + 1) now)
      (next (.ok (.conflict (Lineage.index? now)))))
    (refused : ∀ e, Tries w limit .failed (next (.error e))) :
    Tries w limit (.stored lost cs)
      (.ask (.swapIndex w.owner w.namespaceName (Lineage.tip cs) (w.index cs)) next)
  /-- The last swap has been lost. -/
  | exhausted (cs : List Chunk) :
    Tries w limit (.seen limit cs) (.done (.error (.appendConflicts w.namespaceName limit)))
  | failed {e : OperationError} (other : ∀ namespaceName n, e ≠ .appendConflicts namespaceName n) :
    Tries w limit .failed (.done (.error e))
  | landed {lost : Nat} {cs : List Chunk} {rest : Program (Except OperationError Receipt)}
    (quiet : rest.Asks Request.Quiet)
    (ends : rest.Ends fun outcome => ∃ receipt, outcome = .ok receipt ∧
      receipt.attempts = lost + 1 ∧ receipt.chunk = (w.chunk cs).cid) :
    Tries w limit (.landed lost cs) rest

namespace Publisher

variable (p : Publisher)

lemma appendTimes_tries (w : Batch) (howner : w.owner = p.owner) (attempts : Nat) {lost : Nat}
    (hlost : lost + attempts = p.settings.maxAttempts) (cs : List Chunk) :
    Tries w p.settings.maxAttempts (.seen lost cs)
      (p.appendTimes w.namespaceName w.links attempts (Lineage.index? cs)).program := by
  induction attempts generalizing lost cs with
  | zero =>
    obtain rfl : lost = p.settings.maxAttempts := hlost
    exact .exhausted cs
  | succ attempts ih =>
    rw [appendTimes, Lineage.map_head_index?, Operation.program_putChunk_bind]
    refine .put (by omega) ?_ fun e => .failed (by rintro _ _ ⟨⟩)
    rw [Operation.after_mapError_ok, Operation.program_ask_bind, ← howner]
    refine .swap (by omega) ?_ ?_ fun e => .failed (by rintro _ _ ⟨⟩)
    · refine .landed (Operation.asks_bind ?_ fun synced => trivial) ?_
      · exact (p.syncProfile_quiet _).bind fun outcome => trivial
      · rw [Operation.after_mapError_ok, Operation.program_bind, Operation.program_attempt,
          Program.bind_assoc]
        refine (Program.ends_of_forall (fun _ => trivial) _).bind fun outcome _ => ?_
        exact ⟨_, rfl, by simp only; omega, rfl⟩
    · intro now
      exact ih (by omega) now

lemma append_tries_of_valid (w : Batch) (howner : w.owner = p.owner) (hsome : w.links ≠ [])
    (hvalid : (w.links.forM fun l => l.body.validate) = .ok ()) :
    Tries w p.settings.maxAttempts .start (p.append w.namespaceName w.links).program := by
  rw [append, if_neg (by simpa using hsome)]
  beta_reduce
  rw [Operation.program_bind, Operation.program_check, hvalid, Program.bind_done,
    Operation.after_mapError_ok, Operation.program_ask_bind, ← howner]
  refine .load (fun cs => ?_) fun e => .failed (by rintro _ _ ⟨⟩)
  exact p.appendTimes_tries w howner _ (Nat.zero_add _) cs

lemma append_tries (w : Batch) (howner : w.owner = p.owner) :
    Tries w p.settings.maxAttempts .failed (p.append w.namespaceName w.links).program ∨
      Tries w p.settings.maxAttempts .start (p.append w.namespaceName w.links).program := by
  by_cases hsome : w.links = []
  · rw [append, hsome]
    exact .inl (.failed (by rintro _ _ ⟨⟩))
  · cases hvalid : w.links.forM fun l => l.body.validate with
    | error e =>
      rw [append, if_neg (by simpa using hsome)]
      beta_reduce
      rw [Operation.program_bind, Operation.program_check, hvalid, Program.bind_done]
      exact .inl (.failed (by rintro _ _ ⟨⟩))
    | ok _ => exact .inr (p.append_tries_of_valid w howner hsome hvalid)

end Publisher

/-- An append that has lost all its swaps so far, and works on top of chunks that have been the
newest ones under its key. -/
structure Log.Trying (chains : Address × String → List Chunk) (log : List Event)
    (key : Address × String) (task lost : Nat) (cs : List Chunk) : Prop where
  swaps : (swapsBy log task).length = lost
  suffix : cs <:+ chains key
  idle : ∀ e ∈ log, e.task = task → e.landing? = none
  told : Told log key task lost cs

def Attempt.Holds (chains : Address × String → List Chunk) (log : List Event)
    (key : Address × String) (task limit : Nat) : Attempt → Prop
  | .start => ∀ e ∈ log, e.task ≠ task
  | .seen lost cs => Log.Trying chains log key task lost cs
  | .stored lost cs => Log.Trying chains log key task lost cs
  | .landed lost _ =>
    lost < limit ∧ (Log.swapsBy log task).length = lost + 1 ∧ Log.Waited log key task lost
  | .failed => (Log.swapsBy log task).length ≤ limit

section

variable {chains chains' : Address × String → List Chunk} {log : List Event} {e : Event}
  {key : Address × String} {task limit lost : Nat} {cs : List Chunk} {attempt : Attempt}

lemma Log.Trying.append (h : Log.Trying chains log key task lost cs)
    (hswap : e.task = task → e.swapsIndex = false) (hlanding : e.task = task → e.landing? = none)
    (hobserved : e.task = task → e.observed? = none) :
    Log.Trying chains (log ++ [e]) key task lost cs where
  swaps := by
    by_cases htask : e.task = task
    · rw [Log.swapsBy_append_of_not (hswap htask)]
      exact h.swaps
    · rw [Log.swapsBy_append_of_ne htask]
      exact h.swaps
  suffix := h.suffix
  idle := by
    intro e' he'
    rcases List.mem_append.1 he' with he' | he'
    · exact h.idle e' he'
    · rw [List.mem_singleton.1 he']
      exact hlanding
  told := h.told.append hobserved

lemma Attempt.Holds.append_of_ne (h : attempt.Holds chains log key task limit)
    (hne : e.task ≠ task) : attempt.Holds chains (log ++ [e]) key task limit := by
  cases attempt with
  | start =>
    intro e' he'
    rcases List.mem_append.1 he' with he' | he'
    · exact h e' he'
    · rwa [List.mem_singleton.1 he']
  | seen lost cs => exact Log.Trying.append h hne.elim hne.elim hne.elim
  | stored lost cs => exact Log.Trying.append h hne.elim hne.elim hne.elim
  | landed lost cs =>
    obtain ⟨hlimit, hswaps, hwaited⟩ := h
    exact ⟨hlimit, (Log.swapsBy_append_of_ne hne).symm ▸ hswaps, hwaited.append e⟩
  | failed =>
    have hswaps : (Log.swapsBy log task).length ≤ limit := h
    rwa [← Log.swapsBy_append_of_ne hne] at hswaps

lemma Attempt.Holds.mono (h : attempt.Holds chains log key task limit)
    (grown : chains key <:+ chains' key) : attempt.Holds chains' log key task limit := by
  cases attempt with
  | seen lost cs => exact { h with suffix := h.suffix.trans grown }
  | stored lost cs => exact { h with suffix := h.suffix.trans grown }
  | _ => exact h

lemma Log.Trying.split (h : Log.Trying chains log key task lost cs)
    (hlength : (landingsAt log key).length = (chains key).length) :
    ∃ earlier seen between, log = earlier ++ seen :: between ∧ seen.task = task ∧
      seen.observed? = some (Lineage.index? cs) ∧
      (∀ e ∈ between, e.task = task → e.observed? = none) ∧
      lost ≤ (landingsOfOthers (since earlier task) key task).length ∧
      (cs = chains key ↔ landingsOfOthers between key task = []) := by
  obtain ⟨earlier, seen, between, rfl, htask, hseen, hbetween, hcs, hlost⟩ := h.told
  refine ⟨earlier, seen, between, rfl, htask, hseen, hbetween, hlost, ?_⟩
  have hothers : landingsOfOthers between key task = landingsAt between key :=
    landingsOfOthers_eq (fun e he =>
      h.idle e (List.mem_append_right _ (List.mem_cons_of_mem _ he))) key
  rw [landingsAt_append, landingsAt_cons_of_none (Event.landing?_of_observed? hseen),
    List.length_append] at hlength
  rw [hothers, ← List.length_eq_zero_iff]
  constructor
  · rintro rfl
    omega
  · intro hzero
    exact h.suffix.eq_of_length (by omega)

lemma Tries.refused {w : Batch} {r : Request}
    {next : r.Reply → Program (Except OperationError Receipt)}
    (h : Tries w limit attempt (.ask r next)) (hholds : attempt.Holds chains log w.key task limit)
    (e : StoreError) :
    ∃ attempt' : Attempt, Tries w limit attempt' (next (.error e)) ∧
      attempt'.Holds chains (log ++ [⟨task, r, .error e⟩]) w.key task limit := by
  cases h with
  | load seen refused =>
    refine ⟨.failed, refused e, ?_⟩
    rw [Attempt.Holds, Log.swapsBy_append_of_not rfl, Log.swapsBy_eq_nil hholds]
    exact Nat.zero_le _
  | put tries stored refused =>
    refine ⟨.failed, refused e, ?_⟩
    rw [Attempt.Holds, Log.swapsBy_append_of_not rfl, Log.Trying.swaps hholds]
    exact tries.le
  | swap tries swapped conflict refused =>
    refine ⟨.failed, refused e, ?_⟩
    rw [Attempt.Holds, Log.length_swapsBy_append rfl, Log.Trying.swaps hholds]
    exact tries
  | landed quiet ends =>
    obtain ⟨hlimit, hswaps, hwaited⟩ := hholds
    refine ⟨_, .landed (quiet.2 _) (ends _), hlimit, ?_, hwaited.append _⟩
    rw [Log.swapsBy_append_of_not (Event.swapsIndex_quiet quiet.1 _ _), hswaps]

lemma Log.Trying.retried (h : Log.Trying chains log key task lost cs)
    (hlength : (landingsAt log key).length = (chains key).length) (hne : cs ≠ chains key)
    {owner : Address} {namespaceName : String} {expected : Option Cid} {next : NameIndex} :
    Log.Trying chains (log ++ [⟨task, .swapIndex owner namespaceName expected next,
      .ok (.conflict (Lineage.index? (chains key)))⟩]) key task (lost + 1) (chains key) where
  swaps := by rw [length_swapsBy_append rfl, h.swaps]
  suffix := List.suffix_refl _
  idle := by
    intro e he
    rcases List.mem_append.1 he with he | he
    · exact h.idle e he
    · rw [List.mem_singleton.1 he]
      exact fun _ => rfl
  told := by
    obtain ⟨earlier, seen, between, rfl, htask, hseen, -, hlost, hsame⟩ := h.split hlength
    refine ⟨_, _, [], rfl, rfl, rfl, List.forall_mem_nil _, hlength.symm, ?_⟩
    have hothers := List.length_pos_iff.2 (mt hsame.2 hne)
    rw [since_append_cons htask, landingsOfOthers_append, List.length_append]
    have hseen' : landingsOfOthers (seen :: between) key task =
        landingsOfOthers between key task := by
      rw [landingsOfOthers, landingsAt_cons_of_none (Event.landing?_of_observed? hseen),
        landingsOfOthers]
    rw [hseen']
    omega

end

section

variable {σ : Type} {b : Backend σ} {rep : σ → Contents → Prop} {k : Contents}
  {chains chains' : Address × String → List Chunk} {s t : System σ} {task limit : Nat} {w : Batch}
  {attempt : Attempt}

/-- What an append is told in reply to a swap, and why. -/
lemma Sound.swapped_iff (keeps : b.Keeps rep) (hrep : rep s.store k) (h : Sound k chains s)
    {cs : List Chunk} (hsuffix : cs <:+ chains w.key) :
    (cs = chains w.key ∧ (b (.swapIndex w.owner w.namespaceName (Lineage.tip cs) (w.index cs))
        s.store).1 = .ok .swapped) ∨
      (cs ≠ chains w.key ∧ (b (.swapIndex w.owner w.namespaceName (Lineage.tip cs) (w.index cs))
        s.store).1 = .ok (.conflict (Lineage.index? (chains w.key)))) := by
  have hreply (outcome : Swap NameIndex) (k' : Contents)
      (hswap : k.swap w.key (Lineage.tip cs) (w.index cs) = (outcome, k')) :=
    (keeps.swapIndex hrep w.owner w.namespaceName _ (w.index_normal cs) hswap).1
  have hhead : (k.index? w.key).map (·.head) = Lineage.tip (chains w.key) := by
    rw [h.index, Lineage.map_head_index?]
  by_cases hcs : cs = chains w.key
  · refine .inl ⟨hcs, hreply _ (k.setIndex w.key (w.index cs)) (if_pos ?_)⟩
    rw [hhead, hcs]
  · refine .inr ⟨hcs, hreply _ k ?_⟩
    have hmiss : (k.index? w.key).map (·.head) ≠ Lineage.tip cs := by
      rw [hhead]
      intro htip
      exact hcs (Lineage.eq_of_tip_eq ((h.linked _).of_suffix hsuffix) (h.linked _)
        ((h.kept _).of_suffix hsuffix) (h.kept _) htip.symm)
    rw [Contents.swap, if_neg hmiss, h.index]

lemma Tries.served (keeps : b.Keeps rep) (hrep : rep s.store k) (hsound : Sound k chains s)
    {r : Request} {next : r.Reply → Program (Except OperationError Receipt)}
    (h : Tries w limit attempt (.ask r next))
    (hholds : attempt.Holds chains s.events w.key task limit)
    (hfair : Log.LosesFairly s.events task) :
    ∃ attempt' : Attempt, Tries w limit attempt' (next (b r s.store).1) ∧
      attempt'.Holds chains (s.events ++ [⟨task, r, (b r s.store).1⟩]) w.key task limit ∧
      Log.LosesFairly (s.events ++ [⟨task, r, (b r s.store).1⟩]) task := by
  have hlength := hsound.length_landingsAt w.key
  cases h with
  | load seen refused =>
    rw [keeps.loadIndex hrep w.owner w.namespaceName, hsound.index]
    refine ⟨_, seen (chains w.key), ?_, hfair.append_of_not nofun⟩
    refine ⟨?_, List.suffix_refl _, ?_, s.events, _, [], rfl, rfl, rfl, List.forall_mem_nil _,
      hlength.symm, Nat.zero_le _⟩
    · rw [Log.swapsBy_append_of_not rfl, Log.swapsBy_eq_nil hholds, List.length_nil]
    · intro e he htask
      rcases List.mem_append.1 he with he | he
      · exact absurd htask (hholds e he)
      · rw [List.mem_singleton.1 he]
        rfl
  | @put lost cs _ tries stored refused =>
    rw [(keeps.put hrep (w.chunk cs).bytes).1]
    exact ⟨_, stored, Log.Trying.append hholds (fun _ => rfl) (fun _ => rfl) fun _ => rfl,
      hfair.append_of_not nofun⟩
  | @swap lost cs _ tries swapped conflict refused =>
    -- The swap lands if and only if nothing has landed since the task was told of the index.
    have htrying : Log.Trying chains s.events w.key task lost cs := hholds
    obtain ⟨earlier, seen, between, hlog, htask, hseen, hbetween, -, hsame⟩ :=
      htrying.split hlength
    rcases hsound.swapped_iff keeps hrep htrying.suffix with ⟨hcs, hreply⟩ | ⟨hcs, hreply⟩
    · rw [hreply]
      refine ⟨_, swapped, ⟨tries, ?_, htrying.told.waited.append _⟩,
        hfair.append_swap hlog htask hseen hbetween ⟨nofun, fun hne => absurd (hsame.1 hcs) hne⟩⟩
      rw [Log.length_swapsBy_append rfl, htrying.swaps]
    · rw [hreply]
      exact ⟨_, conflict _, htrying.retried hlength hcs,
        hfair.append_swap hlog htask hseen hbetween ⟨fun _ => mt hsame.2 hcs, fun _ => ⟨_, rfl⟩⟩⟩
  | landed quiet ends =>
    obtain ⟨hlimit, hswaps, hwaited⟩ := hholds
    refine ⟨_, .landed (quiet.2 _) (ends _), ⟨hlimit, ?_, hwaited.append _⟩,
      hfair.append_of_not ?_⟩
    · rw [Log.swapsBy_append_of_not (Event.swapsIndex_quiet quiet.1 _ _), hswaps]
    · intro owner namespaceName expected next' outcome heq
      have hswaps := congrArg Event.swapsIndex heq
      rw [Event.swapsIndex_quiet quiet.1] at hswaps
      cases hswaps

/-- The invariant: every append is in some attempt, and has lost no swap without need. -/
def Raced (chains : Address × String → List Chunk) (s : System σ) : Prop :=
  ∀ task p namespaceName links rest,
    s.tasks[task]? = some ⟨.append p namespaceName links, rest⟩ →
      ∃ attempt : Attempt,
        Tries ⟨p.owner, namespaceName, links⟩ p.settings.maxAttempts attempt rest ∧
        attempt.Holds chains s.events (p.owner, Text.lower namespaceName) task
          p.settings.maxAttempts ∧
        Log.LosesFairly s.events task

lemma Raced.called (h : Raced chains s) (hsound : Sound k chains s) (c : Call) :
    Raced chains (s.called c) := by
  intro i p namespaceName links rest hi
  change (s.tasks ++ [_])[i]? = some _ at hi
  rw [List.getElem?_append] at hi
  split at hi
  · exact h i p namespaceName links rest hi
  · have hlt := (List.getElem?_eq_some_iff.1 hi).1
    rw [List.length_singleton] at hlt
    have heq : i = s.tasks.length := by omega
    subst heq
    rw [Nat.sub_self] at hi
    cases hi
    have hnew : ∀ e ∈ s.events, e.task ≠ s.tasks.length := fun e he => (hsound.events e he).ne
    have hfair : Log.LosesFairly s.events s.tasks.length := by
      intro before after owner name expected next outcome hlog
      exact absurd rfl (hnew _ (hlog ▸ List.mem_append_right _ (List.mem_cons_self ..)))
    rcases p.append_tries ⟨p.owner, namespaceName, links⟩ rfl with hfailed | hstart
    · refine ⟨.failed, hfailed, ?_, hfair⟩
      change (Log.swapsBy s.events s.tasks.length).length ≤ _
      rw [Log.swapsBy_eq_nil hnew]
      exact Nat.zero_le _
    · exact ⟨.start, hstart, hnew, hfair⟩

lemma Raced.replied (h : Raced chains s) {store : σ} {call : Call} {r : Request} {reply : r.Reply}
    {old rest : Program (Except OperationError call.Answer)}
    (turn : s.tasks[task]? = some ⟨call, old⟩)
    (own : ∀ p namespaceName links rest',
      (⟨call, rest⟩ : Task) = ⟨.append p namespaceName links, rest'⟩ →
        ∃ attempt : Attempt,
          Tries ⟨p.owner, namespaceName, links⟩ p.settings.maxAttempts attempt rest' ∧
          attempt.Holds chains (s.events ++ [⟨task, r, reply⟩])
            (p.owner, Text.lower namespaceName) task p.settings.maxAttempts ∧
          Log.LosesFairly (s.events ++ [⟨task, r, reply⟩]) task) :
    Raced chains (s.replied store task call r reply rest) := by
  intro i p namespaceName links rest' hi
  by_cases htask : task = i
  · subst htask
    have hlt : task < s.tasks.length := (List.getElem?_eq_some_iff.1 turn).1
    exact own p namespaceName links rest' (by simpa [System.replied, hlt] using hi)
  · have hold : s.tasks[i]? = some ⟨.append p namespaceName links, rest'⟩ := by
      simpa [System.replied, htask] using hi
    obtain ⟨attempt, htries, hholds, hfair⟩ := h i p namespaceName links rest' hold
    refine ⟨attempt, htries, hholds.append_of_ne htask, hfair.append_of_not ?_⟩
    rintro owner name expected next outcome heq
    exact htask (congrArg Event.task heq)

lemma Raced.mono (h : Raced chains s) (grown : ∀ key, chains key <:+ chains' key) :
    Raced chains' s := by
  intro task p namespaceName links rest turn
  obtain ⟨attempt, htries, hholds, hfair⟩ := h task p namespaceName links rest turn
  exact ⟨attempt, htries, hholds.mono (grown _), hfair⟩

theorem Raced.step (keeps : b.Keeps rep) (hrep : rep s.store k) (hsound : Sound k chains s)
    (h : Raced chains s) (hstep : System.Step b s t) : Raced chains t := by
  cases hstep with
  | «begin» c fits => exact h.called hsound c
  | serve turn =>
    refine h.replied turn fun p namespaceName links rest heq => ?_
    cases heq
    obtain ⟨attempt, htries, hholds, hfair⟩ := h _ _ _ _ _ turn
    exact htries.served keeps hrep hsound hholds hfair
  | refuse turn e =>
    refine h.replied turn fun p namespaceName links rest heq => ?_
    cases heq
    obtain ⟨attempt, htries, hholds, hfair⟩ := h _ _ _ _ _ turn
    obtain ⟨attempt', htries', hholds'⟩ := htries.refused hholds e
    refine ⟨attempt', htries', hholds', hfair.append_of_not ?_⟩
    intro owner name expected next outcome heq
    cases heq

theorem Raced.run (keeps : b.Keeps rep) (hrep : rep s.store k) (hsound : Sound k chains s)
    (h : Raced chains s) (hrun : System.Run b s t) (hfree : t.CollisionFree) :
    ∃ chains', Raced chains' t := by
  obtain ⟨_, chains', -, -, -, hraced⟩ := hsound.run_preserves keeps
    (fun hrep hsound h hstep hgrown => (Raced.step keeps hrep hsound h hstep).mono hgrown.chains)
    hrep h hrun hfree
  exact ⟨chains', hraced⟩

end

/-- How an append has raced with others, by the log of all requests. -/
structure RacedFairly (log : List Event) (task : Nat) (p : Publisher) (namespaceName : String)
    (rest : Program (Except OperationError Receipt)) : Prop where
  fair : Log.LosesFairly log task
  succeeded : ∀ receipt, rest = .done (.ok receipt) →
    receipt.attempts = (Log.swapsBy log task).length ∧ 0 < receipt.attempts ∧
      receipt.attempts - 1 ≤ (Log.landingsOfOthers (Log.during log task)
        (p.owner, Text.lower namespaceName) task).length
  exhausted : ∀ name attempts, rest = .done (.error (.appendConflicts name attempts)) →
    attempts = (Log.swapsBy log task).length ∧ attempts = p.settings.maxAttempts ∧
      attempts ≤ (Log.landingsOfOthers (Log.during log task)
        (p.owner, Text.lower namespaceName) task).length
  bounded : (Log.swapsBy log task).length ≤ p.settings.maxAttempts

theorem Raced.racedFairly {σ : Type} {chains : Address × String → List Chunk} {s : System σ}
    (h : Raced chains s) {task : Nat} {p : Publisher} {namespaceName : String} {links : List Link}
    {rest : Program (Except OperationError Receipt)}
    (turn : s.tasks[task]? = some ⟨.append p namespaceName links, rest⟩) :
    RacedFairly s.events task p namespaceName rest := by
  obtain ⟨attempt, htries, hholds, hfair⟩ := h task p namespaceName links rest turn
  refine ⟨hfair, ?_, ?_, ?_⟩
  · rintro receipt rfl
    cases htries with
    | landed quiet ends =>
      obtain ⟨-, hswaps, hwaited⟩ := hholds
      obtain ⟨_, heq, hattempts, -⟩ := ends
      cases heq
      rw [hswaps, hattempts]
      exact ⟨rfl, Nat.succ_pos _, hwaited.le_during⟩
  · rintro name attempts rfl
    cases htries with
    | exhausted cs =>
      have htrying : Log.Trying _ _ _ _ _ _ := hholds
      exact ⟨htrying.swaps.symm, rfl, htrying.told.waited.le_during⟩
    | failed other => exact absurd rfl (other _ _)
    | landed quiet ends =>
      obtain ⟨_, heq, -⟩ := ends
      cases heq
  · cases attempt with
    | start => exact (Log.swapsBy_eq_nil hholds) ▸ Nat.zero_le _
    | seen lost cs =>
      rw [Log.Trying.swaps hholds]
      cases htries with
      | put tries => exact tries.le
      | exhausted => exact le_rfl
    | stored lost cs =>
      rw [Log.Trying.swaps hholds]
      cases htries with
      | swap tries => exact tries.le
    | landed lost cs => exact hholds.2.1 ▸ hholds.1
    | failed => exact hholds

end SignedNames
