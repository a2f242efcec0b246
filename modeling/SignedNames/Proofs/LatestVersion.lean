import Mathlib
import SignedNames.Proofs.IndexedChains
import SignedNames.Proofs.Reading
import SignedNames.Proofs.Store.Rows

/-!
# The latest version of a name

The index, a walk from the head and the list of all links lead to the same link with a name, the one
that was committed last. What a reader answers is settled when it gets the index, whatever others do
before it has fetched the chunks.
-/
namespace SignedNames

variable {σ : Type} {b : Backend σ}

namespace System

def latest? (s : System σ) (key : Address × String) (name : String) : Option Link :=
  (s.committed key).flatten.reverse.find? fun l => decide (l.HasName name)

end System

/-- A program that is run while other calls go on, from one system to another: its result, and its
requests with the systems in which they were served. -/
inductive Amid {α : Type} (b : Backend σ) :
    Program α → System σ → List (Request × System σ) → α → System σ → Prop
  | done (result : α) (s : System σ) : Amid b (.done result) s [] result s
  | serve {r : Request} {next : r.Reply → Program α} {s t : System σ}
    {served : List (Request × System σ)} {result : α}
    (rest : Amid b (next (b r s.store).1) { s with store := (b r s.store).2 } served result t) :
    Amid b (.ask r next) s ((r, s) :: served) result t
  | others {p : Program α} {s s' t : System σ} {served : List (Request × System σ)} {result : α}
    (step : System.Step b s s') (rest : Amid b p s' served result t) : Amid b p s served result t

/-- Whatever others do meanwhile, the program answers as it would have done by itself when it asked
for the index, which it did first. After that it only fetches bytes. -/
def SettledByIndex {α : Type} (b : Backend σ) (s : System σ) (owner : Address)
    (namespaceName : String) (p : Program α) : Prop :=
  ∀ served result t, Amid b p s served result t → t.CollisionFree →
    ∃ u gets, served = (.loadIndex owner namespaceName, u) :: gets ∧ System.Run b s u ∧
      (∀ e ∈ gets, ∃ cid, e.1 = .get cid) ∧ p.run b u.store = (result, u.store)

structure LooksUpLatest (b : Backend σ) (s : System σ) (owner : Address) (namespaceName : String)
    (head : Cid) : Prop where
  resolve : ∀ name, (Reader.resolve owner namespaceName name).run b s.store =
    (.ok (s.latest? (owner, Text.lower namespaceName) name), s.store)
  /-- A walk may go on for a number of chunks; longer chains are refused as a whole. -/
  walks : ∃ chunks, Yields b s.store (some head) chunks ∧ ∀ limit name,
    (chunks.length ≤ limit →
      (∃ versions, (Reader.history limit owner namespaceName name).run b s.store =
          (.ok versions, s.store) ∧
        versions.head? = s.latest? (owner, Text.lower namespaceName) name) ∧
      ∀ profile : Profile, profile.head? namespaceName = some head →
        (Reader.resolveInProfile limit profile namespaceName name).run b s.store =
          (.ok (s.latest? (owner, Text.lower namespaceName) name), s.store)) ∧
    (limit < chunks.length → (Reader.history limit owner namespaceName name).run b s.store =
      (.error (.corruptChain (.tooLong limit)), s.store))

structure ReadsLatest (b : Backend σ) (s : System σ) : Prop where
  /-- A namespace has an index if something was committed to it, and only then. -/
  indexed : ∀ owner namespaceName, ∃ index,
    b (.loadIndex owner namespaceName) s.store = (.ok index, s.store) ∧
      (index.isSome ↔ s.landingsAt (owner, Text.lower namespaceName) ≠ [])
  agree : ∀ owner namespaceName i,
    b (.loadIndex owner namespaceName) s.store = (.ok (some i), s.store) →
      LooksUpLatest b s owner namespaceName i.head
  resolve : ∀ owner namespaceName name,
    SettledByIndex b s owner namespaceName (Reader.resolve owner namespaceName name).program
  links : ∀ limit owner namespaceName,
    SettledByIndex b s owner namespaceName (Reader.links limit owner namespaceName).program
  history : ∀ limit owner namespaceName name,
    SettledByIndex b s owner namespaceName
      (Reader.history limit owner namespaceName name).program

variable {rep : σ → Contents → Prop} {k : Contents} {chains : Address × String → List Chunk}
  {s t : System σ}

section

variable {α : Type} {p : Program α} {served : List (Request × System σ)} {result : α}

lemma Amid.collisionFree (h : Amid b p s served result t) (hfree : t.CollisionFree) :
    s.CollisionFree := by
  induction h with
  | done => exact hfree
  | serve _ ih => exact ih hfree
  | others step _ ih => exact (ih hfree).of_step step

theorem Amid.alone (b : Backend σ) (p : Program α) (s : System σ) : ∃ served,
    Amid b p s served (p.run b s.store).1 { s with store := (p.run b s.store).2 } := by
  induction p generalizing s with
  | done result => exact ⟨[], .done result s⟩
  | ask r next ih =>
    obtain ⟨served, h⟩ := ih (b r s.store).1 { s with store := (b r s.store).2 }
    exact ⟨(r, s) :: served, .serve h⟩

theorem Amid.after_run (hrun : System.Run b s t) {t' : System σ} (h : Amid b p t served result t') :
    Amid b p s served result t' := by
  induction hrun using Relation.ReflTransGen.head_induction_on with
  | refl => exact h
  | head step _ ih => exact .others step ih

lemma Amid.of_ask {r : Request} {next : r.Reply → Program α}
    (h : Amid b (.ask r next) s served result t) : ∃ u later, served = (r, u) :: later ∧
      System.Run b s u ∧
      Amid b (next (b r u.store).1) { u with store := (b r u.store).2 } later result t := by
  generalize hp : Program.ask r next = p at h
  induction h with
  | done => cases hp
  | serve rest =>
    cases hp
    exact ⟨_, _, rfl, .refl, rest⟩
  | others step _ ih =>
    obtain ⟨u, later, hserved, hrun, hrest⟩ := ih hp
    exact ⟨u, later, hserved, .head step hrun, hrest⟩

lemma Amid.of_bind_done {β : Type} {g : α → β} {final : β}
    (h : Amid b (p.bind fun a => .done (g a)) s served final t) :
    ∃ result, Amid b p s served result t ∧ final = g result := by
  generalize hq : p.bind (fun a => .done (g a)) = q at h
  induction h generalizing p with
  | done =>
    cases p with
    | done a =>
      cases hq
      exact ⟨a, .done a _, rfl⟩
    | ask r next => cases hq
  | serve _ ih =>
    cases p with
    | done a => cases hq
    | ask r next =>
      cases hq
      obtain ⟨result, h, hfinal⟩ := ih rfl
      exact ⟨result, .serve h, hfinal⟩
  | others step _ ih =>
    obtain ⟨result, h, hfinal⟩ := ih hq
    exact ⟨result, .others step h, hfinal⟩

lemma Amid.bind_done {β : Type} (g : α → β) (h : Amid b p s served result t) :
    Amid b (p.bind fun a => .done (g a)) s served (g result) t := by
  induction h with
  | done a s => exact .done (g a) s
  | serve _ ih => exact .serve ih
  | others step _ ih => exact .others step ih

lemma Amid.forall_call {P : Call → Prop} (h : Amid b p s served result t)
    (hcalls : ∀ state ∈ t.tasks, P state.call) : ∀ state ∈ s.tasks, P state.call := by
  induction h with
  | done => exact hcalls
  | serve _ ih => exact ih hcalls
  | others step _ ih => exact System.forall_call_of_step (ih hcalls) step

/-- What has only to fetch stored bytes is settled. -/
theorem Amid.of_reads (keeps : b.Keeps rep) (h : Amid b p s served result t)
    (hrep : rep s.store k) (hsound : Sound k chains s) (hfree : t.CollisionFree) {final : α}
    (hreads : Reads k p final) :
    result = final ∧ ∀ e ∈ served, ∃ cid, e.1 = .get cid := by
  induction h generalizing k chains with
  | done =>
    cases hreads
    exact ⟨rfl, nofun⟩
  | @serve r next s t served result rest ih =>
    cases hreads with
    | @get cid bs _ _ found hnext =>
      have hget := keeps.get hrep cid
      rw [Contents.get_of_blob? found] at hget
      rw [hget] at ih
      obtain ⟨hresult, hserved⟩ := ih hrep hsound hfree hnext
      exact ⟨hresult, List.forall_mem_cons.2 ⟨⟨cid, rfl⟩, hserved⟩⟩
  | others step rest ih =>
    -- Bytes stay whatever others do, so what is still to be fetched can still be fetched.
    obtain ⟨k', chains', hrep', hgrown, hsound'⟩ :=
      hsound.step keeps hrep step (rest.collisionFree hfree)
    exact ih hrep' hsound' hfree (hreads.mono hgrown.blobs)

/-- What asks for an index first is settled by it. -/
theorem Sound.settledByIndex (keeps : b.Keeps rep) (hrep : rep s.store k)
    (hsound : Sound k chains s) {owner : Address} {namespaceName : String}
    (hanswers : ∀ {k cs}, Shelved k (owner, Text.lower namespaceName) cs →
      ∃ final, Answers k owner namespaceName p final) :
    SettledByIndex b s owner namespaceName p := by
  intro served result t h hfree
  induction h generalizing k chains with
  | done =>
    obtain ⟨_, _, hask, _⟩ := hanswers (hsound.shelved _)
    cases hask
  | serve rest =>
    -- This is the request for the index; all that follows is fixed by the reply.
    obtain ⟨final, hfinal⟩ := hanswers (hsound.shelved _)
    have hrun := hfinal.run keeps hrep
    obtain ⟨next, hask, hnext⟩ := hfinal
    cases hask
    rw [keeps.loadIndex hrep] at rest
    obtain ⟨rfl, hgets⟩ := rest.of_reads keeps hrep hsound hfree hnext
    exact ⟨_, _, rfl, .refl, hgets, hrun⟩
  | others step rest ih =>
    obtain ⟨k', chains', hrep', -, hsound'⟩ :=
      hsound.step keeps hrep step (rest.collisionFree hfree)
    obtain ⟨u, gets, hserved, hrun, hgets, hresult⟩ := ih hrep' hsound' hanswers hfree
    exact ⟨u, gets, hserved, .head step hrun, hgets, hresult⟩

end

namespace Sound

lemma latest?_eq (h : Sound k chains s) (key : Address × String) (name : String) :
    s.latest? key name = (Lineage.links (chains key)).find? fun l => decide (l.HasName name) := by
  rw [System.latest?, h.links_eq]

theorem looksUpLatest (keeps : b.Keeps rep) (hrep : rep s.store k) (h : Sound k chains s)
    {owner : Address} {namespaceName : String} {i : NameIndex}
    (hi : k.index? (owner, Text.lower namespaceName) = some i) :
    LooksUpLatest b s owner namespaceName i.head := by
  have hshelved := h.shelved (owner, Text.lower namespaceName)
  have hindex := hi
  rw [h.index] at hindex
  have hyields := (h.index_yields keeps hrep hi).1
  refine ⟨?_, _, hyields, ?_⟩
  · intro name
    rw [h.latest?_eq]
    exact (Reader.answers_resolve hshelved hindex name).run keeps hrep
  · intro limit name
    constructor
    · intro hlimit
      have hlinks := Reader.answers_links hshelved hindex hlimit
      have hhistory := (Reader.answers_history hlinks name).run keeps hrep
      rw [h.latest?_eq]
      refine ⟨⟨_, hhistory, List.head?_filter ..⟩, ?_⟩
      intro profile hhead
      exact (Reader.reads_resolveInProfile hshelved hlimit hindex hhead name).run keeps hrep
    · intro hlimit
      have hlinks := Reader.answers_links_tooLong hshelved hindex hlimit
      exact (Reader.answers_history hlinks name).run keeps hrep

theorem readsLatest (keeps : b.Keeps rep) (hrep : rep s.store k) (h : Sound k chains s) :
    ReadsLatest b s where
  indexed owner namespaceName := by
    refine ⟨_, keeps.loadIndex hrep owner namespaceName, ?_⟩
    have hlength := h.length_landingsAt (owner, Text.lower namespaceName)
    rw [h.index, Lineage.isSome_index?_iff, ← List.length_pos_iff, ← List.length_pos_iff, hlength]
  agree owner namespaceName i hi := by
    rw [keeps.loadIndex hrep] at hi
    exact h.looksUpLatest keeps hrep (Except.ok.inj (congrArg Prod.fst hi))
  resolve owner namespaceName name := h.settledByIndex keeps hrep fun hshelved =>
    Reader.exists_answers_resolve hshelved name
  links limit owner namespaceName := h.settledByIndex keeps hrep fun hshelved =>
    Reader.exists_answers_links hshelved limit
  history limit owner namespaceName name := by
    refine h.settledByIndex keeps hrep fun hshelved => ?_
    obtain ⟨outcome, hlinks⟩ := Reader.exists_answers_links hshelved limit
    exact ⟨_, Reader.answers_history hlinks name⟩

end Sound
/-- Whatever calls were made side by side, and in whatever order their requests were served or
refused: readers find the latest version of every name, in a store in memory and in one of rows. -/
theorem reads_latest_of_reachable :
    (∀ s : System Memory, System.Run Memory.backend (.start .empty) s → s.CollisionFree →
      ReadsLatest Memory.backend s) ∧
    ∀ s : System Rows, System.Run Rows.backend (.start .fresh) s → s.CollisionFree →
      ReadsLatest Rows.backend s := by
  constructor
  · intro s hrun hfree
    obtain ⟨k, chains, hrep, -, hsound⟩ :=
      (Sound.start Memory.empty).run Memory.backend_keeps Memory.contents_empty hrun hfree
    exact hsound.readsLatest Memory.backend_keeps hrep
  · intro s hrun hfree
    obtain ⟨k, chains, hrep, -, hsound⟩ :=
      (Sound.start Rows.fresh).run Rows.backend_keeps Rows.represents_fresh hrun hfree
    exact hsound.readsLatest Rows.backend_keeps hrep

def sampleRows : System Rows :=
  (sampleCalls Rows.fresh).schedule Rows.backend [0, 1, 0, 1, 0, 1, 1, 1]

lemma sampleRows_run : System.Run Rows.backend (.start .fresh) sampleRows := sampleCalls_run ..

lemma sampleRows_evaluated : sampleRows.storedBytes = sampleBytes ∧
    sampleRows.committed (samplePublisher.owner, "docs") = [[sampleLink], [laterLink]] := by
  decide +kernel

lemma sampleRows_collisionFree : sampleRows.CollisionFree :=
  System.collisionFree_of_sampleBytes sampleRows_evaluated.1

lemma ReadsLatest.run_resolve (h : ReadsLatest b s) {owner : Address} {namespaceName : String}
    (hlanded : s.landingsAt (owner, Text.lower namespaceName) ≠ []) (name : String) :
    (Reader.resolve owner namespaceName name).run b s.store =
      (.ok (s.latest? (owner, Text.lower namespaceName) name), s.store) := by
  obtain ⟨index, hload, hindexed⟩ := h.indexed owner namespaceName
  obtain ⟨i, rfl⟩ := Option.isSome_iff_exists.1 (hindexed.2 hlanded)
  exact (h.agree _ _ i hload).resolve name

/-- A reader may be interrupted when it has got the index, and answers as of then. -/
lemma ReadsLatest.exists_amid (h : ReadsLatest b s) {owner : Address} {namespaceName : String}
    (hlanded : s.landingsAt (owner, Text.lower namespaceName) ≠ []) (hrun : System.Run b s t)
    (hfree : t.CollisionFree) (name : String) : ∃ gets u, u.latest? = t.latest? ∧
      Amid b (Reader.resolve owner namespaceName name).program s
        ((.loadIndex owner namespaceName, s) :: gets)
        (.ok (s.latest? (owner, Text.lower namespaceName) name)) u := by
  obtain ⟨index, hload, -⟩ := h.indexed owner namespaceName
  obtain ⟨next, hprogram⟩ : ∃ next, (Reader.resolve owner namespaceName name).program =
      .ask (.loadIndex owner namespaceName) next := ⟨_, rfl⟩
  obtain ⟨gets, result, u, hsame, hfree, halone⟩ : ∃ gets result u, u.latest? = t.latest? ∧
      u.CollisionFree ∧ Amid b (next (.ok index)) t gets result u := by
    obtain ⟨gets, halone⟩ := Amid.alone b (next (.ok index)) t
    refine ⟨gets, _, _, ?_, ?_, halone⟩
    · rfl
    · exact hfree
  have hamid : Amid b (Reader.resolve owner namespaceName name).program s
      ((.loadIndex owner namespaceName, s) :: gets) result u := by
    rw [hprogram]
    refine .serve ?_
    rw [hload]
    exact halone.after_run hrun
  -- what was served first is the request for the index, so the answer is the one from then
  obtain ⟨_, _, heq, -, -, hthen⟩ := h.resolve _ _ _ _ _ _ hamid hfree
  cases heq
  obtain rfl := (Prod.mk.inj (hthen.symm.trans (h.run_resolve hlanded name))).1
  exact ⟨gets, u, hsame, hamid⟩

lemma latest?_sampleSystem :
    sampleSystem.landingsAt (samplePublisher.owner, Text.lower "dOCS") ≠ [] ∧
      sampleSystem.latest? (samplePublisher.owner, Text.lower "dOCS") "gRÖßE" =
        some sampleLink := by
  rw [← List.length_pos_iff]
  decide +kernel

lemma latest?_of_committed
    (h : s.committed (samplePublisher.owner, "docs") = [[sampleLink], [laterLink]]) :
    s.landingsAt (samplePublisher.owner, Text.lower "dOCS") ≠ [] ∧
      s.latest? (samplePublisher.owner, Text.lower "dOCS") "gRÖßE" = some laterLink := by
  have hname : Text.lower "dOCS" = "docs" := by decide
  rw [hname]
  constructor
  · intro hnil
    rw [System.committed, hnil] at h
    cases h
  · rw [System.latest?, h]
    decide +kernel

/-- A reader that gets the index before the second append lands answers with the older version,
although the newer one is there when it is done. -/
theorem sample_reads_latest :
    System.Run Memory.backend (.start .empty) sampleSystem ∧ sampleSystem.CollisionFree ∧
      System.Run Memory.backend sampleSystem endedSystem ∧ endedSystem.CollisionFree ∧
      System.Run Rows.backend (.start .fresh) sampleRows ∧ sampleRows.CollisionFree ∧
      ReadsLatest Memory.backend sampleSystem ∧ ReadsLatest Memory.backend endedSystem ∧
      ReadsLatest Rows.backend sampleRows ∧
      (∃ gets t, t.latest? (samplePublisher.owner, Text.lower "dOCS") "gRÖßE" = some laterLink ∧
        Amid Memory.backend (Reader.resolve samplePublisher.owner "dOCS" "gRÖßE").program
          sampleSystem ((.loadIndex samplePublisher.owner "dOCS", sampleSystem) :: gets)
          (.ok (some sampleLink)) t) ∧
      ∃ served t, Amid Rows.backend (Reader.resolve samplePublisher.owner "dOCS" "gRÖßE").program
        sampleRows served (.ok (some laterLink)) t := by
  have hsample := reads_latest_of_reachable.1 sampleSystem sampleSystem_run
    sampleSystem_collisionFree
  have hended := reads_latest_of_reachable.1 endedSystem (sampleSystem_run.trans endedSystem_run)
    endedSystem_collisionFree
  have hrows := reads_latest_of_reachable.2 sampleRows sampleRows_run sampleRows_collisionFree
  refine ⟨sampleSystem_run, sampleSystem_collisionFree, endedSystem_run, endedSystem_collisionFree,
    sampleRows_run, sampleRows_collisionFree, hsample, hended, hrows, ?_, ?_⟩
  · obtain ⟨hlanded, hlatest⟩ := latest?_sampleSystem
    obtain ⟨gets, t, hsame, hamid⟩ := hsample.exists_amid hlanded endedSystem_run
      endedSystem_collisionFree "gRÖßE"
    rw [hlatest] at hamid
    refine ⟨gets, t, ?_, hamid⟩
    rw [hsame]
    obtain ⟨-, -, hcommitted, -⟩ := endedSystem_evaluated
    exact (latest?_of_committed hcommitted).2
  · obtain ⟨hlanded, hlatest⟩ := latest?_of_committed sampleRows_evaluated.2
    obtain ⟨gets, t, -, hamid⟩ := hrows.exists_amid hlanded .refl sampleRows_collisionFree "gRÖßE"
    rw [hlatest] at hamid
    exact ⟨_, t, hamid⟩

end SignedNames
