import Mathlib
import SignedNames.Proofs.LatestVersion
import SignedNames.Proofs.ProfileHeads
import SignedNames.Proofs.RivalRaces

/-!
# Heads do not come back

A swap puts a whole index in place, but compares no more than its head. That is enough, since a head
fixes all chunks under it and with them the index: no namespace ever gets back to a head that it has
left, and an index that has the head of one seen before is the one seen before. It does not matter
whether several writers append the same links, as their chunks are on top of different heads.
-/
namespace SignedNames

variable {σ : Type} {b : Backend σ}

/-- What a task was told about the index under a key. -/
structure Sighting where
  key : Address × String
  index : Option NameIndex

/-- A task is told about an index when it asks for it, and when it loses a swap. -/
def Event.sighting? : Event → Option Sighting
  | ⟨_, .loadIndex owner namespaceName, .ok found⟩ => some ⟨(owner, Text.lower namespaceName), found⟩
  | ⟨_, .swapIndex owner namespaceName _ _, .ok (.conflict current)⟩ =>
    some ⟨(owner, Text.lower namespaceName), current⟩
  | _ => none

namespace System

def sightings (s : System σ) : List Sighting := s.events.filterMap Event.sighting?

/-- The heads that the index under a key has had, oldest first. -/
def heads (s : System σ) (key : Address × String) : List Cid :=
  (s.landingsAt key).map (·.index.head)

end System

/-- The head alone tells whether an index that was seen is the stored one. -/
structure Sighting.ToldByHead (b : Backend σ) (s : System σ) (seen : Sighting)
    (namespaceName : String) (stored : Option NameIndex) : Prop where
  same : stored.map (·.head) = seen.index.map (·.head) → stored = seen.index
  /-- A swap that expects the head lands exactly if the whole index is in place. -/
  lands : ∀ next : NameIndex, next.Normal →
    ((b (.swapIndex seen.key.1 namespaceName (seen.index.map (·.head)) next) s.store).1 =
      .ok .swapped ↔ stored = seen.index)

structure HeadsOnce (b : Backend σ) (s : System σ) : Prop where
  /-- The stored index has the last of the heads. -/
  current : ∀ owner namespaceName, ∃ stored,
    b (.loadIndex owner namespaceName) s.store = (.ok stored, s.store) ∧
      stored.map (·.head) = (s.heads (owner, Text.lower namespaceName)).getLast?
  nodup : ∀ key, (s.heads key).Nodup
  told : ∀ seen ∈ s.sightings, ∀ namespaceName, Text.lower namespaceName = seen.key.2 →
    ∀ stored, b (.loadIndex seen.key.1 namespaceName) s.store = (.ok stored, s.store) →
      seen.ToldByHead b s namespaceName stored

/-- From one system to a later one, heads are only added, and where the later one has the head of
the earlier one, nothing has landed in between and the whole index is the same. -/
structure HeadsAdded (b : Backend σ) (s t : System σ) : Prop where
  grow : ∀ key, s.heads key <+: t.heads key
  unmoved : ∀ owner namespaceName before after,
    b (.loadIndex owner namespaceName) s.store = (.ok before, s.store) →
    b (.loadIndex owner namespaceName) t.store = (.ok after, t.store) →
    after.map (·.head) = before.map (·.head) →
      after = before ∧
        t.landingsAt (owner, Text.lower namespaceName) =
          s.landingsAt (owner, Text.lower namespaceName)

/-- What was seen under a key was the index of chunks that have been the newest there. -/
def System.SeesPast (chains : Address × String → List Chunk) (s : System σ) : Prop :=
  ∀ seen ∈ s.sightings, ∃ cs, cs <:+ chains seen.key ∧ seen.index = Lineage.index? cs

lemma Event.sighting?_refused (task : Nat) (r : Request) (e : StoreError) :
    sighting? ⟨task, r, .error e⟩ = none := by
  cases r <;> rfl

variable {rep : σ → Contents → Prop} {k k' : Contents}
  {chains chains' : Address × String → List Chunk} {s t : System σ}

lemma System.SeesPast.grow (h : s.SeesPast chains) (grown : ∀ key, chains key <:+ chains' key) :
    s.SeesPast chains' := by
  intro seen hseen
  obtain ⟨cs, hcs, hindex⟩ := h seen hseen
  exact ⟨cs, hcs.trans (grown _), hindex⟩

lemma System.sightings_replied {store : σ} {task : Nat} {call : Call} {r : Request}
    {reply : r.Reply} {rest : Program (Except OperationError call.Answer)} :
    (s.replied store task call r reply rest).sightings =
      s.sightings ++ (Event.sighting? ⟨task, r, reply⟩).toList := by
  rw [sightings, replied, List.filterMap_append]
  congr 1

lemma Sound.normal_of_turn (h : Sound k chains s) {task : Nat} {call : Call} {owner : Address}
    {namespaceName : String} {expected : Option Cid} {i : NameIndex}
    {next : Except StoreError (Swap NameIndex) → Program (Except OperationError call.Answer)}
    (turn : s.tasks[task]? = some ⟨call, .ask (.swapIndex owner namespaceName expected i) next⟩) :
    i.Normal := by
  have haccounted := h.tasks task _ turn
  cases hbatch : call.batch? with
  | none => exact (haccounted.quiet hbatch).1.1.elim
  | some w =>
    obtain ⟨-, phase, hfollows, -⟩ := haccounted.follows w hbatch
    cases hfollows with
    | swap => exact w.index_normal _
    | landed quiet => exact quiet.1.elim

lemma Sound.sighting_eq (keeps : b.Keeps rep) (hrep : rep s.store k) (h : Sound k chains s)
    {task : Nat} {call : Call} {r : Request}
    {next : r.Reply → Program (Except OperationError call.Answer)}
    (turn : s.tasks[task]? = some ⟨call, .ask r next⟩) {seen : Sighting}
    (hseen : Event.sighting? ⟨task, r, (b r s.store).1⟩ = some seen) :
    seen.index = Lineage.index? (chains seen.key) := by
  rw [← h.index]
  cases r with
  | loadIndex owner namespaceName =>
    rw [keeps.loadIndex hrep] at hseen
    cases hseen
    rfl
  | swapIndex owner namespaceName expected i =>
    cases hswap : k.swap (owner, Text.lower namespaceName) expected i with
    | mk outcome k' =>
      rw [(keeps.swapIndex hrep _ _ _ (h.normal_of_turn turn) hswap).1] at hseen
      rw [Contents.swap] at hswap
      split at hswap <;> cases hswap
      · cases hseen
      · cases hseen
        rfl
  | _ => cases hseen

theorem System.SeesPast.step (keeps : b.Keeps rep) (hrep : rep s.store k) (hsound : Sound k chains s)
    (h : s.SeesPast chains) (hstep : System.Step b s t) (grown : ∀ key, chains key <:+ chains' key) :
    t.SeesPast chains' := by
  have hold := h.grow grown
  cases hstep with
  | «begin» => exact hold
  | serve turn =>
    intro seen hseen
    rw [System.sightings_replied] at hseen
    rcases List.mem_append.1 hseen with hseen | hseen
    · exact hold seen hseen
    · exact ⟨_, grown _, hsound.sighting_eq keeps hrep turn (Option.mem_toList.1 hseen)⟩
  | refuse turn e =>
    intro seen hseen
    rw [System.sightings_replied, Event.sighting?_refused] at hseen
    exact hold seen (by simpa using hseen)

theorem System.SeesPast.run (keeps : b.Keeps rep) (hrep : rep s.store k) (hsound : Sound k chains s)
    (h : s.SeesPast chains) (hrun : System.Run b s t) (hfree : t.CollisionFree) :
    ∃ k' chains', rep t.store k' ∧ Grown k k' chains chains' ∧ Sound k' chains' t ∧
      t.SeesPast chains' :=
  hsound.run_preserves keeps
    (fun hrep hsound h hstep hgrown => h.step keeps hrep hsound hstep hgrown.chains) hrep h hrun hfree

lemma System.prefix_landingsAt (hrun : System.Run b s t) (key : Address × String) :
    s.landingsAt key <+: t.landingsAt key :=
  ((System.prefix_events hrun).filterMap _).filter _

namespace Sound

lemma heads_eq (h : Sound k chains s) (key : Address × String) :
    s.heads key = ((chains key).map Chunk.cid).reverse := h.heads_landingsAt key

lemma nodup_heads (h : Sound k chains s) (key : Address × String) : (s.heads key).Nodup := by
  have hnodup := (Lineage.complete_of_kept (h.linked key) (h.kept key)).nodup
  rw [List.map_map] at hnodup
  rw [h.heads_eq, List.nodup_reverse]
  exact hnodup

lemma getLast?_heads (h : Sound k chains s) (key : Address × String) :
    (s.heads key).getLast? = (k.index? key).map (·.head) := by
  rw [h.heads_eq, h.index, List.getLast?_reverse, List.head?_map, Lineage.map_head_index?]
  cases chains key <;> rfl

/-- Chunks that have been the newest under a key, and have the head that there is now, are all
chunks. -/
lemma eq_of_head_eq (h : Sound k chains s) {key : Address × String} {cs : List Chunk}
    (hcs : cs <:+ chains key) (hhead : Lineage.tip cs = Lineage.tip (chains key)) :
    cs = chains key :=
  Lineage.eq_of_tip_eq ((h.linked key).of_suffix hcs) (h.linked key) ((h.kept key).of_suffix hcs)
    (h.kept key) hhead

lemma toldByHead (keeps : b.Keeps rep) (hrep : rep s.store k) (h : Sound k chains s)
    {seen : Sighting} (hseen : ∃ cs, cs <:+ chains seen.key ∧ seen.index = Lineage.index? cs)
    {namespaceName : String} (hname : Text.lower namespaceName = seen.key.2) :
    seen.ToldByHead b s namespaceName (k.index? seen.key) := by
  obtain ⟨cs, hcs, hindex⟩ := hseen
  -- The head fixes the chunks, and the index is made of them.
  have same (hhead : (k.index? seen.key).map (·.head) = seen.index.map (·.head)) :
      k.index? seen.key = seen.index := by
    rw [hindex, h.index, Lineage.map_head_index?, Lineage.map_head_index?] at hhead
    rw [hindex, h.index, h.eq_of_head_eq hcs hhead.symm]
  refine ⟨same, fun next normal => ?_⟩
  have hkey : (seen.key.1, Text.lower namespaceName) = seen.key := by rw [hname]
  cases hswap : k.swap (seen.key.1, Text.lower namespaceName) (seen.index.map (·.head)) next with
  | mk outcome k' =>
    rw [(keeps.swapIndex hrep _ _ _ normal hswap).1]
    rw [hkey, Contents.swap] at hswap
    split at hswap
    · rename_i hhead
      cases hswap
      exact iff_of_true rfl (same hhead)
    · rename_i hhead
      cases hswap
      refine iff_of_false ?_ fun heq => hhead (congrArg _ heq)
      rintro ⟨⟩

theorem headsOnce (keeps : b.Keeps rep) (hrep : rep s.store k) (h : Sound k chains s)
    (hsees : s.SeesPast chains) : HeadsOnce b s where
  current owner namespaceName :=
    ⟨_, keeps.loadIndex hrep owner namespaceName, (h.getLast?_heads _).symm⟩
  nodup := h.nodup_heads
  told seen hseen namespaceName hname stored hload := by
    rw [keeps.loadIndex hrep, hname] at hload
    obtain rfl : k.index? seen.key = stored := Except.ok.inj (congrArg Prod.fst hload)
    exact h.toldByHead keeps hrep (hsees seen hseen) hname

theorem headsAdded (keeps : b.Keeps rep) (hrep : rep s.store k) (h : Sound k chains s)
    (hrun : System.Run b s t) (hrep' : rep t.store k') (h' : Sound k' chains' t)
    (grown : ∀ key, chains key <:+ chains' key) : HeadsAdded b s t where
  grow key := (System.prefix_landingsAt hrun key).map _
  unmoved owner namespaceName before after hbefore hafter hhead := by
    rw [keeps.loadIndex hrep] at hbefore
    rw [keeps.loadIndex hrep'] at hafter
    obtain rfl := Except.ok.inj (congrArg Prod.fst hbefore)
    obtain rfl := Except.ok.inj (congrArg Prod.fst hafter)
    set key := (owner, Text.lower namespaceName)
    rw [h.index, h'.index, Lineage.map_head_index?, Lineage.map_head_index?] at hhead
    have hchains := h'.eq_of_head_eq (grown key) hhead.symm
    refine ⟨by rw [h.index, h'.index, hchains], ?_⟩
    refine ((System.prefix_landingsAt hrun key).eq_of_length ?_).symm
    rw [h.length_landingsAt, h'.length_landingsAt, hchains]

theorem headsOnce_of_run (keeps : b.Keeps rep) {store : σ} (hstore : rep store .empty)
    (hs : System.Run b (.start store) s) (ht : System.Run b s t) (hfree : t.CollisionFree) :
    HeadsOnce b t ∧ HeadsAdded b s t := by
  have hnothing : (System.start store).SeesPast fun _ => [] := List.forall_mem_nil _
  obtain ⟨k, chains, hrep, -, hsound, hsees⟩ :=
    hnothing.run keeps hstore (Sound.start store) hs (hfree.of_run ht)
  obtain ⟨k', chains', hrep', hgrown, hsound', hsees'⟩ := hsees.run keeps hrep hsound ht hfree
  exact ⟨hsound'.headsOnce keeps hrep' hsees',
    hsound.headsAdded keeps hrep ht hrep' hsound' hgrown.chains⟩

end Sound

/-- Whatever calls are made side by side, and in whatever order their requests are served or
refused, in a store in memory and in one of rows: no head comes back, and comparing heads is as good
as comparing whole indexes. Requests that go through a layer of faults are such requests. -/
theorem heads_once_of_reachable :
    (∀ s t : System Memory, System.Run Memory.backend (.start .empty) s →
      System.Run Memory.backend s t → t.CollisionFree →
        HeadsOnce Memory.backend t ∧ HeadsAdded Memory.backend s t ∧
          t.CoversFaults Memory.backend) ∧
    ∀ s t : System Rows, System.Run Rows.backend (.start .fresh) s →
      System.Run Rows.backend s t → t.CollisionFree →
        HeadsOnce Rows.backend t ∧ HeadsAdded Rows.backend s t ∧ t.CoversFaults Rows.backend := by
  constructor
  · intro s t hs ht hfree
    obtain ⟨honce, hadded⟩ :=
      Sound.headsOnce_of_run Memory.backend_keeps Memory.contents_empty hs ht hfree
    exact ⟨honce, hadded, System.covers_faults _ t⟩
  · intro s t hs ht hfree
    obtain ⟨honce, hadded⟩ :=
      Sound.headsOnce_of_run Rows.backend_keeps Rows.represents_fresh hs ht hfree
    exact ⟨honce, hadded, System.covers_faults _ t⟩

/-- The two appends of the race have stored the same chunk and are about to swap the index. -/
def tiedSystem : System Memory :=
  (((System.start Memory.empty).called sampleCall).called hastyCall).schedule Memory.backend
    [0, 1, 0, 1]

lemma tiedSystem_run : System.Run Memory.backend (.start .empty) tiedSystem :=
  .head (.begin sampleCall sampleCall_fits) (.head (.begin hastyCall hastyCall_fits)
    (System.run_schedule ..))

lemma racingSystem_run_of_tied : System.Run Memory.backend tiedSystem racingSystem := by
  have hsplit : racingSystem = tiedSystem.schedule Memory.backend [0, 1] :=
    System.schedule_append Memory.backend _ [0, 1, 0, 1] [0, 1]
  rw [hsplit]
  exact System.run_schedule ..

lemma last_sighting_racingSystem :
    racingSystem.sightings.getLast?.map (fun seen => (seen.key, seen.index.map (·.head))) =
        some ((samplePublisher.owner, "docs"),
          (racingSystem.heads (samplePublisher.owner, "docs")).getLast?) ∧
      (racingSystem.heads (samplePublisher.owner, "docs")).length = 1 := by
  decide +kernel

/-- The append that has lost its swap was told about the index that is stored. -/
theorem racingSystem_headsOnce :
    System.Run Memory.backend (.start .empty) tiedSystem ∧
      System.Run Memory.backend tiedSystem racingSystem ∧ racingSystem.CollisionFree ∧
      HeadsOnce Memory.backend racingSystem ∧
      HeadsAdded Memory.backend tiedSystem racingSystem ∧
      racingSystem.CoversFaults Memory.backend ∧
      (∃ seen ∈ racingSystem.sightings, seen.index.isSome ∧
        Memory.backend (.loadIndex samplePublisher.owner "dOCS") racingSystem.store =
          (.ok seen.index, racingSystem.store)) ∧
      System.Run Rows.backend (.start .fresh) sampleRows ∧ sampleRows.CollisionFree ∧
      HeadsOnce Rows.backend sampleRows ∧ HeadsAdded Rows.backend sampleRows sampleRows ∧
      sampleRows.CoversFaults Rows.backend := by
  obtain ⟨honce, hadded, hfaults⟩ := heads_once_of_reachable.1 tiedSystem racingSystem
    tiedSystem_run racingSystem_run_of_tied racingSystem_collisionFree
  refine ⟨tiedSystem_run, racingSystem_run_of_tied, racingSystem_collisionFree, honce, hadded,
    hfaults, ?_, sampleRows_run, sampleRows_collisionFree,
    heads_once_of_reachable.2 sampleRows sampleRows sampleRows_run .refl
      sampleRows_collisionFree⟩
  have hname : Text.lower "dOCS" = "docs" := by decide
  obtain ⟨hlost, hlength⟩ := last_sighting_racingSystem
  obtain ⟨stored, hload, hhead⟩ := honce.current samplePublisher.owner "dOCS"
  rw [hname] at hhead
  obtain ⟨⟨key, index⟩, hseen, hpair⟩ := Option.map_eq_some_iff.1 hlost
  obtain ⟨rfl, hindex⟩ := Prod.mk.inj hpair
  have hsame := (honce.told _ (List.mem_of_getLast? hseen) "dOCS" hname stored hload).same
    (hhead.trans hindex.symm)
  refine ⟨_, List.mem_of_getLast? hseen, ?_, hsame ▸ hload⟩
  rw [← Option.isSome_map, hindex, List.getLast?_isSome]
  exact List.ne_nil_of_length_eq_add_one hlength

end SignedNames
