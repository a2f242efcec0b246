import Mathlib
import SignedNames.Proofs.IndexedChains
import SignedNames.Proofs.Reading

/-!
# Appends land exactly once

The chunks of a namespace are those of the swaps that landed, in the order in which they landed. An
append that succeeds owns one of them, an append that fails owns none, and a swap that has landed
cannot be reported as a failure any more.
-/
namespace SignedNames

variable {σ : Type} {b : Backend σ}

structure ExactlyOnce (b : Backend σ) (s : System σ) : Prop where
  /-- The chunks of a namespace, from old to new, are those of its landings. -/
  chunks : ∀ owner namespaceName, ∃ index chunks,
    b (.loadIndex owner namespaceName) s.store = (.ok index, s.store) ∧
      Yields b s.store (index.map (·.head)) chunks ∧
      List.Forall₂ (Landing.Commits s) (s.landingsAt (owner, Text.lower namespaceName))
        chunks.reverse
  /-- An append that succeeded has landed once, with the chunk that its receipt names. -/
  succeeded : ∀ task p namespaceName links receipt,
    s.tasks[task]? = some ⟨.append p namespaceName links, .done (.ok receipt)⟩ →
      s.landingsBy task = [⟨task, (p.owner, Text.lower namespaceName), receipt.index⟩] ∧
        receipt.index.head = receipt.chunk ∧
        ∃ older, (Access.getChunk receipt.chunk).run.run b s.store = (.ok ⟨older, links⟩, s.store)
  /-- An append that failed has not landed, and has changed no index and no profile. -/
  failed : ∀ task p namespaceName links e,
    s.tasks[task]? = some ⟨.append p namespaceName links, .done (.error e)⟩ →
      s.landingsBy task = [] ∧ s.Idle task
  /-- An append that has landed succeeds, whatever is replied to the rest of its requests. -/
  settled : ∀ task p namespaceName links rest,
    s.tasks[task]? = some ⟨.append p namespaceName links, rest⟩ → s.landingsBy task ≠ [] →
      rest.Ends fun outcome => ∃ receipt, outcome = .ok receipt
  /-- The links of a namespace are all that were committed, newest first. -/
  links : ∀ owner namespaceName limit,
    s.landingsAt (owner, Text.lower namespaceName) ≠ [] →
      (s.landingsAt (owner, Text.lower namespaceName)).length ≤ limit →
      (Reader.links limit owner namespaceName).run b s.store =
        (.ok (s.committed (owner, Text.lower namespaceName)).flatten.reverse, s.store)

namespace Sound

variable {rep : σ → Contents → Prop} {k : Contents} {chains : Address × String → List Chunk}
  {s : System σ}

lemma append_phase (h : Sound k chains s) {task : Nat} {p : Publisher} {namespaceName : String}
    {links : List Link} {rest : Program (Except OperationError Receipt)}
    (turn : s.tasks[task]? = some ⟨.append p namespaceName links, rest⟩) :
    ∃ phase : Phase,
      Follows ⟨p.owner, namespaceName, links⟩ Failed
        (fun cs => Publisher.Tells (Batch.chunk ⟨p.owner, namespaceName, links⟩ cs :: cs)) phase
        rest ∧
      phase.Holds k chains s task ⟨p.owner, namespaceName, links⟩ :=
  ((h.tasks task _ turn).follows _ rfl).2

lemma landed_of_receipt (h : Sound k chains s) {task : Nat} {p : Publisher} {namespaceName : String}
    {links : List Link} {receipt : Receipt}
    (turn : s.tasks[task]? = some ⟨.append p namespaceName links, .done (.ok receipt)⟩) :
    ∃ older, (⟨older, links⟩ : Chunk) ∈ chains (p.owner, Text.lower namespaceName) ∧
      Chunk.cid ⟨older, links⟩ = receipt.chunk ∧ receipt.index.head = receipt.chunk ∧
      s.landingsBy task = [⟨task, (p.owner, Text.lower namespaceName), receipt.index⟩] := by
  obtain ⟨phase, hfollows, hholds⟩ := h.append_phase turn
  cases hfollows with
  | fail open' hfailed =>
    obtain ⟨e, he⟩ := hfailed
    cases he
  | @landed cs _ quiet ends =>
    obtain ⟨hsuffix, hlandings⟩ := hholds
    obtain ⟨_, hreceipt, htip, hindex⟩ := ends
    cases hreceipt
    have hindex' : Batch.index ⟨p.owner, namespaceName, links⟩ cs = receipt.index :=
      Option.some.inj hindex
    have hchunk : Chunk.cid ⟨Lineage.tip cs, links⟩ = receipt.chunk := Option.some.inj htip
    refine ⟨Lineage.tip cs, hsuffix.subset (List.mem_cons_self ..), hchunk, ?_, ?_⟩
    · rw [← hindex']
      exact hchunk
    · rw [← hindex']
      exact hlandings

lemma idle_of_error (h : Sound k chains s) {task : Nat} {p : Publisher} {namespaceName : String}
    {links : List Link} {e : OperationError}
    (turn : s.tasks[task]? = some ⟨.append p namespaceName links, .done (.error e)⟩) :
    s.Idle task := by
  obtain ⟨phase, hfollows, hholds⟩ := h.append_phase turn
  cases hfollows with
  | fail open' hfailed =>
    cases phase with
    | start => exact hholds
    | seen cs => exact hholds.2
    | stored cs => exact hholds.2.2
    | landed cs => exact absurd trivial open'
  | landed quiet ends =>
    obtain ⟨receipt, hreceipt, -⟩ := ends
    cases hreceipt

lemma ends_of_landed (h : Sound k chains s) {task : Nat} {p : Publisher} {namespaceName : String}
    {links : List Link} {rest : Program (Except OperationError Receipt)}
    (turn : s.tasks[task]? = some ⟨.append p namespaceName links, rest⟩)
    (hlanded : s.landingsBy task ≠ []) :
    rest.Ends fun outcome => ∃ receipt, outcome = .ok receipt := by
  obtain ⟨phase, hfollows, hholds⟩ := h.append_phase turn
  cases phase with
  | start => exact absurd (System.landingsBy_of_idle hholds) hlanded
  | seen cs => exact absurd (System.landingsBy_of_idle hholds.2) hlanded
  | stored cs => exact absurd (System.landingsBy_of_idle hholds.2.2) hlanded
  | landed cs =>
    cases hfollows with
    | fail open' hfailed => exact absurd trivial open'
    | landed quiet ends => exact ends.mono fun _ ⟨receipt, hreceipt, _⟩ => ⟨receipt, hreceipt⟩

theorem exactlyOnce (keeps : b.Keeps rep) (hrep : rep s.store k) (h : Sound k chains s) :
    ExactlyOnce b s where
  chunks owner namespaceName := by
    refine ⟨_, _, keeps.loadIndex hrep owner namespaceName, ?_, h.log _⟩
    rw [h.index, Lineage.map_head_index?]
    exact yields_of_kept keeps hrep (h.linked _) (h.kept _)
  succeeded task p namespaceName links receipt turn := by
    obtain ⟨older, hmem, hchunk, hhead, hlandings⟩ := h.landed_of_receipt turn
    obtain ⟨fits, hblob⟩ := h.kept _ _ hmem
    refine ⟨hlandings, hhead, older, ?_⟩
    rw [← hchunk]
    exact keeps.getChunk hrep fits hblob
  failed task p namespaceName links e turn := by
    have hidle := h.idle_of_error turn
    exact ⟨System.landingsBy_of_idle hidle, hidle⟩
  settled task p namespaceName links rest turn hlanded := h.ends_of_landed turn hlanded
  links owner namespaceName limit hlanded hlimit := by
    have hne := List.length_pos_iff.2 hlanded
    rw [h.length_landingsAt] at hlimit hne
    rw [← h.links_eq]
    have hsome := (Lineage.isSome_index?_iff _).2 (List.length_pos_iff.1 hne)
    obtain ⟨i, hi⟩ := Option.isSome_iff_exists.1 hsome
    exact (Reader.answers_links (h.shelved _) hi hlimit).run keeps hrep

end Sound

/-- Whatever calls were made side by side, and in whatever order their requests were served or
refused, appends have landed exactly once; and whenever the links of a namespace could be read, they
are at the end of those that can be read later. Requests that go through a layer of faults are such
requests. -/
theorem append_exactly_once {s t : System Memory}
    (hs : System.Run Memory.backend (.start .empty) s) (ht : System.Run Memory.backend s t)
    (hfree : t.CollisionFree) :
    ExactlyOnce Memory.backend t ∧
      (∀ owner namespaceName limit older newer,
        ((Reader.links limit owner namespaceName).run Memory.backend s.store).1 = .ok older →
        ((Reader.links limit owner namespaceName).run Memory.backend t.store).1 = .ok newer →
          older <:+ newer) ∧
      t.CoversFaults Memory.backend := by
  obtain ⟨k, chains, hrep, -, hsound⟩ :=
    (Sound.start Memory.empty).run Memory.backend_keeps Memory.contents_empty hs (hfree.of_run ht)
  obtain ⟨k', chains', hrep', hgrown, hsound'⟩ := hsound.run Memory.backend_keeps hrep ht hfree
  refine ⟨hsound'.exactlyOnce Memory.backend_keeps hrep', ?_, System.covers_faults _ t⟩
  intro owner namespaceName limit older newer holder hnewer
  rw [Reader.links_of_run (hsound.shelved _) Memory.backend_keeps hrep holder,
    Reader.links_of_run (hsound'.shelved _) Memory.backend_keeps hrep' hnewer]
  obtain ⟨newest, hnewest⟩ := hgrown.chains (owner, Text.lower namespaceName)
  rw [← hnewest, Lineage.links, Lineage.links, List.flatMap_append]
  exact List.suffix_append ..

theorem endedSystem_exactlyOnce :
    System.Run Memory.backend (.start .empty) sampleSystem ∧
      System.Run Memory.backend sampleSystem endedSystem ∧ endedSystem.CollisionFree ∧
      (∀ task < 2, (endedSystem.landingsBy task).length = 1) ∧
      endedSystem.committed (samplePublisher.owner, "docs") = [[sampleLink], [laterLink]] ∧
      ExactlyOnce Memory.backend endedSystem ∧
      (∀ owner namespaceName limit older newer,
        ((Reader.links limit owner namespaceName).run Memory.backend sampleSystem.store).1 =
          .ok older →
        ((Reader.links limit owner namespaceName).run Memory.backend endedSystem.store).1 =
          .ok newer → older <:+ newer) ∧
      endedSystem.CoversFaults Memory.backend := by
  obtain ⟨-, -, hcommitted, hlanded, -⟩ := endedSystem_evaluated
  exact ⟨sampleSystem_run, endedSystem_run, endedSystem_collisionFree, hlanded, hcommitted,
    append_exactly_once sampleSystem_run endedSystem_run endedSystem_collisionFree⟩

end SignedNames
