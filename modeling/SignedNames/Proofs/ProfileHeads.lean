import Mathlib
import SignedNames.Proofs.ExactlyOnce
import SignedNames.Proofs.ProfileEdits

/-!
# The heads in profiles

The heads in a profile are on the chunks of its owner's namespaces, and a swap of the profile only
moves them towards the newest ones. The reason is the order in which an edit reads: it looks up a
head only after it got the record that its swap is to replace. As long as that record is in place,
no other edit has landed in between, so the heads that it carries are not behind.
-/
namespace SignedNames

/-- The heads are the newest of some chunks, by namespace. -/
def Points (names : NameMap Cid) (heads : String → List Chunk) : Prop :=
  ∀ key, names.get? key = Lineage.tip (heads key)

/-- Something is true unless a record was replaced since. Revisions only grow. -/
structure UnlessReplaced (base now : Option (Versioned Profile)) (P : Prop) : Prop where
  le : revisionOf base ≤ revisionOf now
  holds : revisionOf base = revisionOf now → P

/-- What has landed for a task in the namespace that it brings up to date is among some chunks. -/
def System.Covers (s : System Memory) (task : Nat) (c : Call) (heads : String → List Chunk) : Prop :=
  ∀ name, c.refreshed = some name → ∀ l ∈ s.landingsBy task, l.key = (c.owner, Text.lower name) →
    l.index.head ∈ (heads (Text.lower name)).map Chunk.cid

def Stage.Holds (chains : Address × String → List Chunk) (heads : Address → String → List Chunk)
    (s : System Memory) (task : Nat) (c : Call) : Stage → Prop
  | .apart => True
  | .loaded base =>
    UnlessReplaced base (s.store.profiles.get? c.owner) (base = s.store.profiles.get? c.owner)
  | .refreshed base names =>
    UnlessReplaced base (s.store.profiles.get? c.owner) <| ∃ next : String → List Chunk,
      Points names next ∧ (∀ key, heads c.owner key <:+ next key ∧ next key <:+ chains (c.owner, key)) ∧
        s.Covers task c next
  | .swapped => s.Covers task c (heads c.owner)

/-- The invariant: the stored profiles point to these chunks. -/
structure Pointed (chains : Address × String → List Chunk) (heads : Address → String → List Chunk)
    (s : System Memory) : Prop where
  behind : ∀ owner key, heads owner key <:+ chains (owner, key)
  points : ∀ owner, Points (profileOf (s.store.profiles.get? owner)).namespaces (heads owner)
  tasks : ∀ i t, s.tasks[i]? = some t → ∃ stage : Stage,
    Edits t.call.owner t.call.refreshed t.call.Reports stage t.rest ∧
      stage.Holds chains heads s i t.call

/-- Chunks are only put in front, and the heads of an owner move when the record is replaced. -/
structure Moved (chains chains' : Address × String → List Chunk)
    (heads heads' : Address → String → List Chunk) (m m' : Memory) : Prop where
  grown : ∀ key, chains key <:+ chains' key
  forward : ∀ owner key, heads owner key <:+ heads' owner key
  records : ∀ owner, m'.profiles.get? owner = m.profiles.get? owner ∧ heads' owner = heads owner ∨
    revisionOf (m.profiles.get? owner) < revisionOf (m'.profiles.get? owner)

lemma Moved.of_profiles {chains chains' : Address × String → List Chunk}
    (heads : Address → String → List Chunk) {m m' : Memory} (grown : ∀ key, chains key <:+ chains' key)
    (h : m'.profiles = m.profiles) : Moved chains chains' heads heads m m' :=
  ⟨grown, fun _ _ => List.suffix_refl _, fun owner => .inl ⟨by rw [h], rfl⟩⟩

lemma UnlessReplaced.of_eq {record : Option (Versioned Profile)} {P : Prop} (h : P) :
    UnlessReplaced record record P := ⟨le_rfl, fun _ => h⟩

section

variable {chains chains' : Address × String → List Chunk}
  {heads heads' : Address → String → List Chunk} {s s' : System Memory}

lemma UnlessReplaced.mono {base now now' : Option (Versioned Profile)} {P P' : Prop}
    (h : UnlessReplaced base now P)
    (hnow : now' = now ∧ (P → P') ∨ revisionOf now < revisionOf now') :
    UnlessReplaced base now' P' := by
  rcases hnow with ⟨rfl, hP⟩ | hlt
  · exact ⟨h.le, fun heq => hP (h.holds heq)⟩
  · have hle := h.le
    exact ⟨by omega, fun heq => by omega⟩

lemma System.Covers.mono {i : Nat} {c : Call} {cs ds : String → List Chunk} (h : s.Covers i c cs)
    (hlandings : s'.landingsBy i = s.landingsBy i) (hsuffix : ∀ key, cs key <:+ ds key) :
    s'.Covers i c ds := by
  intro name hname l hl hkey
  rw [hlandings] at hl
  exact List.map_subset _ (hsuffix _).subset (h name hname l hl hkey)

lemma Stage.Holds.mono {i : Nat} {c : Call} {stage : Stage} (h : stage.Holds chains heads s i c)
    (moved : Moved chains chains' heads heads' s.store s'.store)
    (hlandings : s'.landingsBy i = s.landingsBy i) : stage.Holds chains' heads' s' i c := by
  cases stage with
  | apart => trivial
  | loaded base =>
    refine UnlessReplaced.mono h ?_
    rcases moved.records c.owner with ⟨hrecord, -⟩ | hlt
    · exact .inl ⟨hrecord, fun hbase => hbase.trans hrecord.symm⟩
    · exact .inr hlt
  | refreshed base names =>
    refine UnlessReplaced.mono h ?_
    rcases moved.records c.owner with ⟨hrecord, hheads⟩ | hlt
    · refine .inl ⟨hrecord, ?_⟩
      rintro ⟨next, hpoints, hnext, hcovers⟩
      refine ⟨next, hpoints, fun key => ?_, hcovers.mono hlandings fun _ => List.suffix_refl _⟩
      rw [hheads]
      exact ⟨(hnext key).1, (hnext key).2.trans (moved.grown _)⟩
    · exact .inr hlt
  | swapped => exact System.Covers.mono h hlandings (moved.forward c.owner)

end

lemma Sound.heads_landingsAt {σ : Type} {k : Contents} {chains : Address × String → List Chunk}
    {s : System σ} (h : Sound k chains s) (key : Address × String) :
    (s.landingsAt key).map (·.index.head) = ((chains key).map Chunk.cid).reverse := by
  have hheads := (h.log key).imp fun _ _ hcommits => hcommits.head
  have hmap : List.Forall₂ (· = ·) ((s.landingsAt key).map (·.index.head))
      ((chains key).reverse.map Chunk.cid) := by
    rw [List.forall₂_map_left_iff, List.forall₂_map_right_iff]
    exact hheads
  rw [List.forall₂_eq_eq_eq] at hmap
  rw [hmap, List.map_reverse]

lemma Sound.head_mem {σ : Type} {k : Contents} {chains : Address × String → List Chunk}
    {s : System σ} (h : Sound k chains s) {l : Landing} (hl : l ∈ s.landings) :
    l.index.head ∈ (chains l.key).map Chunk.cid := by
  have hmem : l ∈ s.landingsAt l.key := by simp [System.landingsAt, hl]
  have hhead : l.index.head ∈ (s.landingsAt l.key).map (·.index.head) :=
    List.mem_map_of_mem hmem
  rw [h.heads_landingsAt] at hhead
  exact List.mem_reverse.1 hhead

namespace Pointed

variable {chains chains' : Address × String → List Chunk}
  {heads heads' : Address → String → List Chunk} {s t : System Memory} {store : Memory} {task : Nat}
  {call : Call} {r : Request} {reply : r.Reply}
  {old rest : Program (Except OperationError call.Answer)}

theorem start (store : Memory) (hstore : store.profiles = .empty) :
    Pointed (fun _ => []) (fun _ _ => []) (System.start store) where
  behind _ _ := List.suffix_refl _
  points owner key := by
    simp only [System.start, hstore, Table.get?_empty, profileOf, Option.map_none, Option.getD_none]
    rfl
  tasks i t ht := by cases ht

theorem replied (h : Pointed chains heads s) (turn : s.tasks[task]? = some ⟨call, old⟩)
    (moved : Moved chains chains' heads heads' s.store store)
    (behind : ∀ owner key, heads' owner key <:+ chains' (owner, key))
    (points : ∀ owner, Points (profileOf (store.profiles.get? owner)).namespaces (heads' owner))
    (own : ∃ stage : Stage, Edits call.owner call.refreshed call.Reports stage rest ∧
      stage.Holds chains' heads' (s.replied store task call r reply rest) task call) :
    Pointed chains' heads' (s.replied store task call r reply rest) where
  behind := behind
  points := points
  tasks i t ht := by
    by_cases hi : task = i
    · subst hi
      have hlt : task < s.tasks.length := (List.getElem?_eq_some_iff.1 turn).1
      have hset : t = ⟨call, rest⟩ := by simpa [System.replied, hlt] using ht.symm
      exact hset ▸ own
    · have hold : s.tasks[i]? = some t := by simpa [System.replied, hi] using ht
      obtain ⟨stage, hedits, hholds⟩ := h.tasks i t hold
      exact ⟨stage, hedits, hholds.mono moved (System.landingsBy_replied_of_ne hi)⟩

theorem spared (h : Pointed chains heads s) (turn : s.tasks[task]? = some ⟨call, old⟩)
    (grown : ∀ key, chains key <:+ chains' key) (hprofiles : store.profiles = s.store.profiles)
    (own : ∃ stage : Stage, Edits call.owner call.refreshed call.Reports stage rest ∧
      stage.Holds chains' heads (s.replied store task call r reply rest) task call) :
    Pointed chains' heads (s.replied store task call r reply rest) := by
  refine h.replied turn (.of_profiles heads grown hprofiles) ?_ ?_ own
  · exact fun owner key => (h.behind owner key).trans (grown _)
  · rw [hprofiles]
    exact h.points

theorem called (h : Pointed chains heads s) {c : Call} (spares : c.SparesHeads) :
    Pointed chains heads (s.called c) where
  behind := h.behind
  points := h.points
  tasks i t ht := by
    change (s.tasks ++ [_])[i]? = some t at ht
    rw [List.getElem?_append] at ht
    split at ht
    · exact h.tasks i t ht
    · have hmem := List.mem_of_getElem? ht
      rw [List.mem_singleton] at hmem
      subst hmem
      exact ⟨.apart, Call.edits spares, trivial⟩

theorem grow (h : Pointed chains heads s) (grown : ∀ key, chains key <:+ chains' key) :
    Pointed chains' heads s where
  behind owner key := (h.behind owner key).trans (grown _)
  points := h.points
  tasks i t ht := by
    obtain ⟨stage, hedits, hholds⟩ := h.tasks i t ht
    exact ⟨stage, hedits, hholds.mono (.of_profiles heads grown rfl) rfl⟩

lemma begun_holds (h : Pointed chains heads s) :
    (Stage.begun call.refreshed (s.store.profiles.get? call.owner)).Holds chains heads s task
      call := by
  cases hname : call.refreshed with
  | some name => exact .of_eq rfl
  | none =>
    refine .of_eq ⟨heads call.owner, h.points _, fun key => ⟨List.suffix_refl _, h.behind _ _⟩, ?_⟩
    intro name hsome
    rw [hname] at hsome
    cases hsome

/-- The head that an edit looks up is that of the newest chunk, and the others are as they were in
the record. -/
lemma refreshed_holds (h : Pointed chains heads s) (hsound : Sound s.store.contents chains s)
    {name : String} (hname : call.refreshed = some name) {base : Option (Versioned Profile)}
    (hholds : (Stage.loaded base).Holds chains heads s task call) {names : NameMap Cid}
    (hnames : names = match s.store.index? call.owner name with
      | some i => ((profileOf base).setHead name i.head).namespaces
      | none => (profileOf base).namespaces) :
    (Stage.refreshed base names).Holds chains heads s task call := by
  refine UnlessReplaced.mono hholds (.inl ⟨rfl, ?_⟩)
  rintro rfl
  set key := Text.lower name with hkey
  have hindex : s.store.index? call.owner name = Lineage.index? (chains (call.owner, key)) :=
    hsound.index _
  refine ⟨Function.update (heads call.owner) key (chains (call.owner, key)), ?_, ?_, ?_⟩
  · intro other
    have hpoints := h.points call.owner other
    have hown := h.points call.owner key
    rw [hnames, hindex]
    cases hchain : chains (call.owner, key) with
    | nil =>
      have hnil : heads call.owner key = [] := by
        have hbehind := h.behind call.owner key
        rw [hchain] at hbehind
        exact List.suffix_nil.1 hbehind
      have hsame : Function.update (heads call.owner) key [] = heads call.owner := by
        rw [← hnil, Function.update_eq_self]
      rw [hsame]
      exact hpoints
    | cons c older =>
      change (NameMap.insert _ key c.cid).get? other = _
      rw [NameMap.get?_insert]
      by_cases hother : other = key
      · rw [hother, if_pos rfl, Function.update_self, Lineage.tip_cons]
      · rw [if_neg hother, Function.update_of_ne hother]
        exact hpoints
  · intro other
    by_cases hother : other = key
    · rw [hother, Function.update_self]
      exact ⟨h.behind _ _, List.suffix_refl _⟩
    · rw [Function.update_of_ne hother]
      exact ⟨List.suffix_refl _, h.behind _ _⟩
  · intro name' hname' l hl hl'
    have heq : name' = name := Option.some.inj (hname'.symm.trans hname)
    rw [heq, ← hkey] at hl' ⊢
    have hmem := hsound.head_mem (List.mem_filter.1 hl).1
    rw [hl'] at hmem
    rw [Function.update_self]
    exact hmem

/-- A swap that lands puts those heads in place that its edit carries. -/
theorem swap_landed (h : Pointed chains heads s) (grown : ∀ key, chains key <:+ chains' key)
    {base : Option (Versioned Profile)} {profile : Profile}
    (turn : s.tasks[task]? = some ⟨call, old⟩)
    (hhit : (s.store.profiles.get? call.owner).map (·.revision) = base.map (·.revision))
    (hholds : (Stage.refreshed base profile.namespaces).Holds chains heads s task call)
    (swapped : Edits call.owner call.refreshed call.Reports .swapped rest)
    (hstore : store = { s.store with
      profiles := s.store.profiles.set call.owner
        ⟨profile, Memory.nextRevision (base.map (·.revision))⟩ })
    (hlandings : Event.landing? ⟨task, r, reply⟩ = none) :
    ∃ heads', (∀ owner key, heads owner key <:+ heads' owner key) ∧
      Pointed chains' heads' (s.replied store task call r reply rest) := by
  -- No other edit has landed since the record was loaded, so what it carries is not behind.
  have hrevision : revisionOf base = revisionOf (s.store.profiles.get? call.owner) := by
    rw [revisionOf, revisionOf, hhit]
  obtain ⟨next, hpoints, hnext, hcovers⟩ := hholds.holds hrevision
  have hget (owner : Address) : store.profiles.get? owner =
      if call.owner = owner then some ⟨profile, revisionOf base + 1⟩
      else s.store.profiles.get? owner := by
    rw [hstore]
    exact Table.get?_set ..
  have hforward (owner : Address) (key : String) :
      heads owner key <:+ Function.update heads call.owner next owner key := by
    by_cases howner : owner = call.owner
    · rw [howner, Function.update_self]
      exact (hnext key).1
    · rw [Function.update_of_ne howner]
  refine ⟨Function.update heads call.owner next, hforward, h.replied turn ⟨grown, hforward, ?_⟩ ?_ ?_
    ⟨.swapped, swapped, ?_⟩⟩
  · intro owner
    rw [hget]
    by_cases howner : call.owner = owner
    · subst howner
      right
      rw [if_pos rfl, ← hrevision]
      exact Nat.lt_succ_self _
    · exact .inl ⟨if_neg howner, Function.update_of_ne (Ne.symm howner) ..⟩
  · intro owner key
    by_cases howner : owner = call.owner
    · rw [howner, Function.update_self]
      exact (hnext key).2.trans (grown _)
    · rw [Function.update_of_ne howner]
      exact (h.behind owner key).trans (grown _)
  · intro owner
    rw [hget]
    by_cases howner : call.owner = owner
    · rw [if_pos howner, howner, Function.update_self]
      exact hpoints
    · rw [if_neg howner, Function.update_of_ne (Ne.symm howner)]
      exact h.points owner
  · change System.Covers _ task call (Function.update heads call.owner next call.owner)
    rw [Function.update_self]
    exact hcovers.mono (System.landingsBy_replied_of_none hlandings task) fun _ => List.suffix_refl _

theorem served (h : Pointed chains heads s) (hsound : Sound s.store.contents chains s)
    (grown : ∀ key, chains key <:+ chains' key)
    {next : r.Reply → Program (Except OperationError call.Answer)}
    (turn : s.tasks[task]? = some ⟨call, .ask r next⟩) :
    ∃ heads', (∀ owner key, heads owner key <:+ heads' owner key) ∧
      Pointed chains' heads' (s.replied (Memory.backend r s.store).2 task call r
        (Memory.backend r s.store).1 (next (Memory.backend r s.store).1)) := by
  obtain ⟨stage, hedits, hholds⟩ : ∃ stage : Stage,
      Edits call.owner call.refreshed call.Reports stage (.ask r next) ∧
        stage.Holds chains heads s task call := h.tasks task _ turn
  cases hedits with
  | other spares rest =>
    refine ⟨heads, fun _ _ => List.suffix_refl _, h.spared turn grown ?_ ?_⟩
    · exact Memory.profiles_backend spares s.store
    · exact ⟨.apart, rest _, trivial⟩
  | load begun refused =>
    refine ⟨heads, fun _ _ => List.suffix_refl _, h.spared turn grown rfl ⟨_, begun _, ?_⟩⟩
    exact h.begun_holds.mono (.of_profiles heads grown rfl)
      (System.landingsBy_replied_of_none rfl task)
  | @refresh name base next hname found missing refused =>
    refine ⟨heads, fun _ _ => List.suffix_refl _, h.spared turn grown rfl ?_⟩
    have hrefreshed := h.refreshed_holds hsound hname hholds rfl
    change ∃ stage : Stage, Edits call.owner call.refreshed call.Reports stage
      (next (.ok (s.store.index? call.owner name))) ∧ _
    cases hindex : s.store.index? call.owner name with
    | none =>
      rw [hindex] at hrefreshed
      exact ⟨_, missing, hrefreshed.mono (.of_profiles heads grown rfl)
        (System.landingsBy_replied_of_none rfl task)⟩
    | some i =>
      rw [hindex] at hrefreshed
      exact ⟨_, found i, hrefreshed.mono (.of_profiles heads grown rfl)
        (System.landingsBy_replied_of_none rfl task)⟩
  | @swap base _ profile _ hheads swapped lost refused =>
    subst hheads
    by_cases hhit : (s.store.profiles.get? call.owner).map (·.revision) = base.map (·.revision)
    · have hserved : Memory.backend (.swapProfile call.owner (base.map (·.revision)) profile) s.store =
          (.ok .swapped, { s.store with
            profiles := s.store.profiles.set call.owner
              ⟨profile, Memory.nextRevision (base.map (·.revision))⟩ }) := by
        simp only [Memory.backend, Memory.swapProfile, if_pos hhit]
      rw [hserved]
      exact h.swap_landed grown turn hhit hholds swapped rfl rfl
    · have hserved : Memory.backend (.swapProfile call.owner (base.map (·.revision)) profile) s.store =
          (.ok (.conflict (s.store.profiles.get? call.owner)), s.store) := by
        simp only [Memory.backend, Memory.swapProfile, if_neg hhit]
      rw [hserved]
      refine ⟨heads, fun _ _ => List.suffix_refl _, h.spared turn grown rfl ?_⟩
      exact ⟨.apart, lost _, trivial⟩

theorem step (h : Pointed chains heads s) (hsound : Sound s.store.contents chains s)
    (grown : ∀ key, chains key <:+ chains' key) (hstep : System.Step Memory.backend s t)
    (spares : ∀ state ∈ t.tasks, state.call.SparesHeads) :
    ∃ heads', (∀ owner key, heads owner key <:+ heads' owner key) ∧ Pointed chains' heads' t := by
  cases hstep with
  | «begin» c fits =>
    have hmem : (⟨c, c.operation.program⟩ : Task) ∈ (s.called c).tasks :=
      List.mem_append_right _ (List.mem_singleton_self _)
    exact ⟨heads, fun _ _ => List.suffix_refl _, (h.called (spares _ hmem)).grow grown⟩
  | serve turn => exact h.served hsound grown turn
  | refuse turn e =>
    obtain ⟨stage, hedits, -⟩ := h.tasks _ _ turn
    refine ⟨heads, fun _ _ => List.suffix_refl _, h.spared turn grown rfl ?_⟩
    exact ⟨.apart, hedits.refused e, trivial⟩

end Pointed

section

variable {chains : Address × String → List Chunk} {heads : Address → String → List Chunk}
  {s t : System Memory}

theorem Pointed.run (h : Pointed chains heads s) (hsound : Sound s.store.contents chains s)
    (hrun : System.Run Memory.backend s t) (hfree : t.CollisionFree)
    (spares : ∀ state ∈ t.tasks, state.call.SparesHeads) :
    ∃ chains' heads', Sound t.store.contents chains' t ∧ Pointed chains' heads' t ∧
      ∀ owner key, heads owner key <:+ heads' owner key := by
  -- Only of the last tasks is it known that they spare heads, so the invariant asks for it.
  obtain ⟨_, chains', rfl, -, hsound', hpointed⟩ := hsound.run_preserves
    (P := fun chains s => (∀ state ∈ s.tasks, state.call.SparesHeads) → ∃ heads',
      Pointed chains heads' s ∧ ∀ owner key, heads owner key <:+ heads' owner key)
    Memory.backend_keeps
    (by
      rintro _ _ chains₁ _ s _ rfl hsound₁ hpointed hstep hgrown spares
      obtain ⟨heads₁, h₁, hforward₁⟩ := hpointed (System.forall_call_of_step spares hstep)
      obtain ⟨heads₂, hforward₂, h₂⟩ := h₁.step hsound₁ hgrown.chains hstep spares
      exact ⟨heads₂, h₂, fun owner key => (hforward₁ owner key).trans (hforward₂ owner key)⟩)
    rfl (fun _ => ⟨heads, h, fun _ _ => List.suffix_refl _⟩) hrun hfree
  obtain ⟨heads', h', hforward⟩ := hpointed spares
  exact ⟨chains', heads', hsound', h', hforward⟩

lemma Lineage.exists_suffix_of_mem {cs : List Chunk} {cid : Cid} (h : cid ∈ cs.map Chunk.cid) :
    ∃ older, older <:+ cs ∧ Lineage.tip older = some cid := by
  obtain ⟨c, hc, rfl⟩ := List.mem_map.1 h
  obtain ⟨newer, older, rfl⟩ := List.append_of_mem hc
  exact ⟨c :: older, List.suffix_append newer (c :: older), rfl⟩

lemma Lineage.exists_tip_of_suffix {older newer : List Chunk} {cid : Cid} (h : older <:+ newer)
    (htip : Lineage.tip older = some cid) : ∃ cid', Lineage.tip newer = some cid' := by
  cases newer with
  | nil =>
    rw [List.suffix_nil.1 h] at htip
    cases htip
  | cons c cs => exact ⟨c.cid, rfl⟩

lemma Sound.lower_key {σ : Type} {k : Contents} {s : System σ} (h : Sound k chains s)
    {owner : Address} {key : String} (hchain : chains (owner, key) ≠ []) : Text.lower key = key := by
  have hpos : 0 < (chains (owner, key)).length := List.length_pos_iff.2 hchain
  have hreverse : 0 < (chains (owner, key)).reverse.length := by simpa using hpos
  have hlandings : 0 < (s.landingsAt (owner, key)).length := by
    rw [h.length_landingsAt]
    exact hpos
  obtain ⟨w, -, hw, -⟩ := ((h.log (owner, key)).get hlandings hreverse).batch
  have hmem := (List.mem_filter.1 ((s.landingsAt (owner, key)).get_mem ⟨0, hlandings⟩)).2
  rw [decide_eq_true_eq, ← hw] at hmem
  have hkey : Text.lower w.namespaceName = key := congrArg Prod.snd hmem
  rw [← hkey, Text.lower_lower]

end

/-- On the way back from the newer chunk, the store yields the older one. -/
def Descends {σ : Type} (b : Backend σ) (store : σ) (newer older : Cid) : Prop :=
  ∃ between chunks, Yields b store (some newer) (between ++ chunks) ∧
    Yields b store (some older) chunks

/-- What is true of the profiles of a system and of a later state of it. -/
structure HeadsForward (s t : System Memory) : Prop where
  /-- A head is on the chunks under the index of its namespace. -/
  onChain : ∀ owner record key head, t.store.profiles.get? owner = some record →
    record.value.namespaces.get? key = some head →
      ∃ i, t.store.index? owner key = some i ∧ Descends Memory.backend t.store i.head head
  /-- A head only gives way to a newer one. -/
  forward : ∀ owner record key head, s.store.profiles.get? owner = some record →
    record.value.namespaces.get? key = some head →
      ∃ record' head', t.store.profiles.get? owner = some record' ∧
        record'.value.namespaces.get? key = some head' ∧
        Descends Memory.backend t.store head' head
  /-- Once an append has reported that the profile was brought up to date, it stays so. -/
  synced : ∀ (task : Nat) p namespaceName links receipt,
    s.tasks[task]? = some ⟨.append p namespaceName links, .done (.ok receipt)⟩ →
      receipt.profileSynced = true →
        ∃ record head, t.store.profiles.get? p.owner = some record ∧
          record.value.head? namespaceName = some head ∧
          Descends Memory.backend t.store head receipt.chunk
  /-- If it was the last append to land, the profile and the index have the same head. -/
  latest : ∀ (task : Nat) p namespaceName links receipt l,
    t.tasks[task]? = some ⟨.append p namespaceName links, .done (.ok receipt)⟩ →
      receipt.profileSynced = true →
        (t.landingsAt (p.owner, Text.lower namespaceName)).getLast? = some l → l.task = task →
          ∃ record i, t.store.profiles.get? p.owner = some record ∧
            t.store.index? p.owner namespaceName = some i ∧
            record.value.head? namespaceName = some i.head

section

variable {chains : Address × String → List Chunk} {heads : Address → String → List Chunk}
  {s : System Memory}

lemma Sound.descends (h : Sound s.store.contents chains s) {key : Address × String}
    {newer older : List Chunk} (hnewer : newer <:+ chains key) (holder : older <:+ newer)
    {cid cid' : Cid} (htip : Lineage.tip newer = some cid) (htip' : Lineage.tip older = some cid') :
    Descends Memory.backend s.store cid cid' := by
  have hyields {cs : List Chunk} (hcs : cs <:+ chains key) :
      Yields Memory.backend s.store (Lineage.tip cs) cs :=
    yields_of_kept Memory.backend_keeps rfl ((h.linked key).of_suffix hcs)
      ((h.kept key).of_suffix hcs)
  obtain ⟨between, rfl⟩ := holder
  refine ⟨between, older, ?_, ?_⟩
  · rw [← htip]
    exact hyields hnewer
  · rw [← htip']
    exact hyields ((List.suffix_append between older).trans hnewer)

lemma Sound.exists_index (h : Sound s.store.contents chains s) {key : Address × String} {cid : Cid}
    (htip : Lineage.tip (chains key) = some cid) :
    ∃ i, s.store.contents.index? key = some i ∧ i.head = cid := by
  rw [h.index]
  cases hchain : chains key with
  | nil =>
    rw [hchain] at htip
    cases htip
  | cons c older =>
    rw [hchain] at htip
    exact ⟨_, rfl, Option.some.inj htip⟩

lemma Sound.tip_of_last_landing (h : Sound s.store.contents chains s) {key : Address × String}
    {l : Landing} (hlast : (s.landingsAt key).getLast? = some l) :
    Lineage.tip (chains key) = some l.index.head := by
  have hhead : ((chains key).map Chunk.cid).head? = some l.index.head := by
    rw [← List.getLast?_reverse, ← h.heads_landingsAt, List.getLast?_map, hlast]
    rfl
  cases hchain : chains key with
  | nil =>
    rw [hchain] at hhead
    cases hhead
  | cons c older =>
    rw [hchain] at hhead
    exact hhead

namespace Pointed

lemma exists_record (h : Pointed chains heads s) {owner : Address} {key : String} {head : Cid}
    (htip : Lineage.tip (heads owner key) = some head) :
    ∃ record, s.store.profiles.get? owner = some record ∧
      record.value.namespaces.get? key = some head := by
  have hget := (h.points owner key).trans htip
  cases hrecord : s.store.profiles.get? owner with
  | none =>
    rw [hrecord] at hget
    cases hget
  | some record =>
    rw [hrecord] at hget
    exact ⟨record, rfl, hget⟩

lemma tip_of_record (h : Pointed chains heads s) {owner : Address} {record : Versioned Profile}
    {key : String} {head : Cid} (hrecord : s.store.profiles.get? owner = some record)
    (hhead : record.value.namespaces.get? key = some head) :
    Lineage.tip (heads owner key) = some head := by
  have hpoints := h.points owner key
  rw [hrecord] at hpoints
  exact hpoints.symm.trans hhead

lemma chunk_mem_of_synced (h : Pointed chains heads s) (hsound : Sound s.store.contents chains s)
    {task : Nat} {p : Publisher} {namespaceName : String} {links : List Link} {receipt : Receipt}
    (turn : s.tasks[task]? = some ⟨.append p namespaceName links, .done (.ok receipt)⟩)
    (hsynced : receipt.profileSynced = true) :
    receipt.chunk ∈ (heads p.owner (Text.lower namespaceName)).map Chunk.cid := by
  obtain ⟨stage, hedits, hholds⟩ := h.tasks task _ turn
  obtain ⟨_, -, -, hhead, hlandings⟩ := hsound.landed_of_receipt turn
  cases hedits with
  | done hreports =>
    have hswapped : stage = .swapped := hreports ⟨receipt, rfl, hsynced⟩
    subst hswapped
    have hmem := hholds namespaceName rfl ⟨task, (p.owner, Text.lower namespaceName), receipt.index⟩
      (by rw [hlandings]; exact List.mem_singleton_self _) rfl
    rw [← hhead]
    exact hmem

/-- If the chunk of the append that landed last is among those that the profile points to, the
profile points to the newest one. -/
lemma heads_eq_of_last (h : Pointed chains heads s) (hsound : Sound s.store.contents chains s)
    {owner : Address} {key : String} {cid : Cid} (hmem : cid ∈ (heads owner key).map Chunk.cid)
    (htip : Lineage.tip (chains (owner, key)) = some cid) : heads owner key = chains (owner, key) := by
  obtain ⟨older, holder, holder'⟩ := Lineage.exists_suffix_of_mem hmem
  have hbehind := h.behind owner key
  have hsuffix := holder.trans hbehind
  have heq : older = chains (owner, key) :=
    Lineage.eq_of_tip_eq ((hsound.linked _).of_suffix hsuffix) (hsound.linked _)
      ((hsound.kept _).of_suffix hsuffix) (hsound.kept _) (holder'.trans htip.symm)
  rw [heq] at holder
  exact hbehind.eq_of_length (Nat.le_antisymm hbehind.length_le holder.length_le)

lemma exists_index_of_head (h : Pointed chains heads s) (hsound : Sound s.store.contents chains s)
    {owner : Address} {record : Versioned Profile} {key : String} {head : Cid}
    (hrecord : s.store.profiles.get? owner = some record)
    (hhead : record.value.namespaces.get? key = some head) :
    ∃ i, s.store.index? owner key = some i ∧ Descends Memory.backend s.store i.head head := by
  have htip := h.tip_of_record hrecord hhead
  have hbehind := h.behind owner key
  obtain ⟨cid, hcid⟩ := Lineage.exists_tip_of_suffix hbehind htip
  obtain ⟨i, hi, rfl⟩ := hsound.exists_index hcid
  have hchain : chains (owner, key) ≠ [] := by
    intro hnil
    rw [hnil] at hcid
    cases hcid
  have hkey := hsound.lower_key hchain
  refine ⟨i, ?_, hsound.descends (List.suffix_refl _) hbehind hcid htip⟩
  rw [Memory.index?, hkey]
  exact hi

lemma exists_head_of_suffix (h : Pointed chains heads s) (hsound : Sound s.store.contents chains s)
    {owner : Address} {key : String} {older : List Chunk} (holder : older <:+ heads owner key)
    {cid : Cid} (htip : Lineage.tip older = some cid) :
    ∃ record head, s.store.profiles.get? owner = some record ∧
      record.value.namespaces.get? key = some head ∧
      Descends Memory.backend s.store head cid := by
  obtain ⟨head, htip'⟩ := Lineage.exists_tip_of_suffix holder htip
  obtain ⟨record, hrecord, hhead⟩ := h.exists_record htip'
  exact ⟨record, head, hrecord, hhead, hsound.descends (h.behind owner key) holder htip' htip⟩

/-- The append that landed last has left its own chunk as the head of both records. -/
lemma same_head_of_last (h : Pointed chains heads s) (hsound : Sound s.store.contents chains s)
    {p : Publisher} {namespaceName : String} {links : List Link} {receipt : Receipt} {l : Landing}
    (turn : s.tasks[l.task]? = some ⟨.append p namespaceName links, .done (.ok receipt)⟩)
    (hsynced : receipt.profileSynced = true)
    (hlast : (s.landingsAt (p.owner, Text.lower namespaceName)).getLast? = some l) :
    ∃ record i, s.store.profiles.get? p.owner = some record ∧
      s.store.index? p.owner namespaceName = some i ∧
      record.value.head? namespaceName = some i.head := by
  obtain ⟨_, -, -, hhead, hlandings⟩ := hsound.landed_of_receipt turn
  have hown : l.index = receipt.index := by
    have hl : l ∈ s.landingsBy l.task := by
      have hl' := (List.mem_filter.1 (List.mem_of_getLast? hlast)).1
      simp [System.landingsBy, hl']
    rw [hlandings, List.mem_singleton] at hl
    rw [hl]
  have htip : Lineage.tip (chains (p.owner, Text.lower namespaceName)) = some receipt.chunk := by
    rw [← hhead, ← hown]
    exact hsound.tip_of_last_landing hlast
  have heq := h.heads_eq_of_last hsound (h.chunk_mem_of_synced hsound turn hsynced) htip
  obtain ⟨i, hi, hchunk⟩ := hsound.exists_index htip
  obtain ⟨record, hrecord, hrecord'⟩ := h.exists_record (heq ▸ htip)
  refine ⟨record, i, hrecord, hi, ?_⟩
  rw [hchunk]
  exact hrecord'

end Pointed
end

/-- However calls are interleaved that leave the heads in profiles alone but for bringing them up to
date, and whatever is refused, the heads in profiles follow the indexes and never go back. Requests
that go through a layer of faults are such requests, with calls for rivals besides. -/
theorem profile_heads_forward {s t : System Memory}
    (hs : System.Run Memory.backend (.start .empty) s) (ht : System.Run Memory.backend s t)
    (hfree : t.CollisionFree) (spares : ∀ state ∈ t.tasks, state.call.SparesHeads) :
    HeadsForward s t ∧ t.CoversFaultsByRivals Memory.backend := by
  have sparesBefore : ∀ state ∈ s.tasks, state.call.SparesHeads := by
    clear hfree
    induction ht with
    | refl => exact spares
    | tail _ hstep ih => exact ih (System.forall_call_of_step spares hstep)
  obtain ⟨chains, heads, hsound, hpointed, -⟩ :=
    (Pointed.start .empty rfl).run (Sound.start Memory.empty) hs (hfree.of_run ht) sparesBefore
  obtain ⟨chains', heads', hsound', hpointed', hforward⟩ := hpointed.run hsound ht hfree spares
  refine ⟨⟨?_, ?_, ?_, ?_⟩, System.covers_faults_by_rivals _ t⟩
  · intro owner record key head hrecord hhead
    exact hpointed'.exists_index_of_head hsound' hrecord hhead
  · intro owner record key head hrecord hhead
    have htip := hpointed.tip_of_record hrecord hhead
    exact hpointed'.exists_head_of_suffix hsound' (hforward owner key) htip
  · intro task p namespaceName links receipt turn hsynced
    have hmem := hpointed.chunk_mem_of_synced hsound turn hsynced
    obtain ⟨older, holder, htip⟩ := Lineage.exists_suffix_of_mem hmem
    have holder' := holder.trans (hforward p.owner (Text.lower namespaceName))
    exact hpointed'.exists_head_of_suffix hsound' holder' htip
  · intro task p namespaceName links receipt l turn hsynced hlast htask
    subst htask
    exact hpointed'.same_head_of_last hsound' turn hsynced hlast

lemma endedSystem_spares : ∀ state ∈ endedSystem.tasks, state.call.SparesHeads := by
  refine System.forall_call_schedule _ (System.forall_call_schedule _ ?_ _) _
  exact List.forall_mem_cons.2 ⟨trivial, List.forall_mem_singleton.2 trivial⟩

/-- The head in the profile follows from the first chunk to the second. -/
theorem endedSystem_headsForward :
    System.Run Memory.backend (.start .empty) sampleSystem ∧
      System.Run Memory.backend sampleSystem endedSystem ∧ endedSystem.CollisionFree ∧
      (∀ state ∈ endedSystem.tasks, state.call.SparesHeads) ∧
      (sampleHead? sampleSystem).isSome ∧ (sampleHead? endedSystem).isSome ∧
      sampleHead? sampleSystem ≠ sampleHead? endedSystem ∧
      HeadsForward sampleSystem endedSystem ∧
      endedSystem.CoversFaultsByRivals Memory.backend := by
  obtain ⟨-, -, -, -, hbefore, hafter⟩ := endedSystem_evaluated
  refine ⟨sampleSystem_run, endedSystem_run, endedSystem_collisionFree, endedSystem_spares, ?_, ?_,
    ?_, profile_heads_forward sampleSystem_run endedSystem_run endedSystem_collisionFree
      endedSystem_spares⟩
  · exact Option.isSome_of_eq_some hbefore
  · exact Option.isSome_of_eq_some hafter
  · rw [hbefore, hafter]
    decide +kernel

end SignedNames
