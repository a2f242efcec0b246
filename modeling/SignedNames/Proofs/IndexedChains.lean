import Mathlib
import SignedNames.Proofs.Consistency
import SignedNames.Proofs.Store.FaultLayer

/-!
# Indexes and the chunks under them

In every state that calls side by side can lead to, the chunks under the head of an index can all be
fetched, and the entries of the index are what these chunks hold.
-/
namespace SignedNames

variable {σ : Type} {b : Backend σ}

/-- Chunks that a store yields one after the other when each is asked for the one before it, from an
identifier on to a chunk without one. -/
inductive Yields (b : Backend σ) (store : σ) : Option Cid → List Chunk → Prop
  | nothing : Yields b store none []
  | fetched {c : Chunk} {older : List Chunk}
    (fetch : (Access.getChunk c.cid).run.run b store = (.ok c, store))
    (rest : Yields b store c.prev older) : Yields b store (some c.cid) (c :: older)

variable {rep : σ → Contents → Prop} {store : σ} {k : Contents}

theorem Backend.Keeps.getChunk (keeps : b.Keeps rep) (hrep : rep store k) {c : Chunk}
    (fits : c.Fits) (hblob : k.blob? c.cid = some c.bytes) :
    (Access.getChunk c.cid).run.run b store = (.ok c, store) := by
  have hget := keeps.get hrep c.cid
  rw [Contents.get_of_blob? hblob] at hget
  change Program.run b (Program.ask (.get c.cid) (ExceptT.bindCont _)) store = _
  rw [Program.run, hget]
  change Program.run b (ExceptT.run (if Cid.ofBytes c.bytes = c.cid then _ else _)) store = _
  rw [if_pos (show Cid.ofBytes c.bytes = c.cid from rfl), Chunk.decode_bytes fits]
  rfl

theorem yields_of_kept (keeps : b.Keeps rep) (hrep : rep store k) {cs : List Chunk}
    (linked : Lineage.Linked cs) (kept : Lineage.Kept k.blob? cs) :
    Yields b store (Lineage.tip cs) cs := by
  induction cs with
  | nil => exact .nothing
  | cons c older ih =>
    obtain ⟨⟨fits, hblob⟩, holder⟩ := List.forall_mem_cons.1 kept
    refine .fetched (keeps.getChunk hrep fits hblob) ?_
    rw [linked.1]
    exact ih linked.2 holder

theorem Sound.index_yields {s : System σ} {chains : Address × String → List Chunk}
    (keeps : b.Keeps rep) (hrep : rep s.store k) (h : Sound k chains s) {key : Address × String}
    {i : NameIndex} (hi : k.index? key = some i) :
    Yields b s.store (some i.head) (chains key) ∧
      ∀ name, i.entries.get? name =
        ((chains key).find? fun c => decide (c.Holds name)).map Chunk.cid := by
  rw [h.index] at hi
  refine ⟨?_, Lineage.get?_of_index? hi⟩
  have htip := Lineage.map_head_index? (chains key)
  rw [hi] at htip
  change some i.head = _ at htip
  rw [htip]
  exact yields_of_kept keeps hrep (h.linked key) (h.kept key)

/-- Whatever calls were made side by side, and in whatever order their requests were served or
refused: under every stored index, the chunks from its head on can all be fetched down to one that
has none before it, and the entry of a name is the newest of them that holds a link with that name.
Requests that go through a layer of faults are such requests. -/
theorem index_of_reachable {s : System Memory}
    (hrun : System.Run Memory.backend (.start .empty) s) (hfree : s.CollisionFree) :
    (∀ owner namespaceName i, s.store.index? owner namespaceName = some i →
      ∃ chunks, Yields Memory.backend s.store (some i.head) chunks ∧
        ∀ name, i.entries.get? name =
          (chunks.find? fun c => decide (c.Holds name)).map Chunk.cid) ∧
      s.CoversFaults Memory.backend := by
  obtain ⟨k, chains, hrep, -, hsound⟩ :=
    (Sound.start Memory.empty).run Memory.backend_keeps Memory.contents_empty hrun hfree
  refine ⟨?_, System.covers_faults _ s⟩
  intro owner namespaceName i hi
  have hindex : k.index? (owner, Text.lower namespaceName) = some i := by
    rw [← hrep]
    exact hi
  exact ⟨_, hsound.index_yields Memory.backend_keeps hrep hindex⟩

/-- A publisher for a contract wallet, with the secret 1. -/
def samplePublisher : Publisher :=
  ⟨⟨⟨1, by decide, by decide⟩, Secp256k1.generator, by decide +kernel⟩,
    some ⟨.replicate 20 0xaa⟩, .standard⟩

def sampleLink : Link :=
  ⟨⟨1, "Größe", "Qm1", false, none, none, 1, ⟨.replicate 20 0xaa⟩, 0, ⟨.replicate 16 1⟩⟩,
    ⟨.replicate 65 0⟩⟩

/-- The sample link in a later version, with its name in other letters. -/
def laterLink : Link :=
  { sampleLink with body := { sampleLink.body with name := "GRÖßE", payloadCid := "Qm2" } }

lemma laterLink_fits : laterLink.body.Fits := ⟨by decide, by decide, nofun, nofun⟩

def sampleCall : Call := .append samplePublisher "Docs" [sampleLink]

def laterCall : Call := .append samplePublisher "dOCS" [laterLink]

def sampleCalls (store : σ) : System σ := ((System.start store).called sampleCall).called laterCall

/-- The first append has landed. The second has stored a chunk that is of no use any more. -/
def sampleSystem : System Memory :=
  (sampleCalls Memory.empty).schedule Memory.backend [0, 1, 0, 1, 0, 0, 0, 0]

/-- The second append has lost its swap and has landed on top of the first. -/
def endedSystem : System Memory := sampleSystem.schedule Memory.backend [1, 1, 1, 1, 1, 1]

lemma sampleCall_fits (w : Batch) (h : sampleCall.batch? = some w) : w.Fits := by
  cases h
  refine ⟨(by decide : 1 < UInt64.size), List.forall_mem_singleton.2 ?_⟩
  exact ⟨by decide, by decide, nofun, nofun⟩

lemma laterCall_fits (w : Batch) (h : laterCall.batch? = some w) : w.Fits := by
  cases h
  exact ⟨(by decide : 1 < UInt64.size), List.forall_mem_singleton.2 laterLink_fits⟩

lemma sampleCalls_run (b : Backend σ) (store : σ) (turns : List Nat) :
    System.Run b (.start store) ((sampleCalls store).schedule b turns) :=
  .head (.begin sampleCall sampleCall_fits)
    (.head (.begin laterCall laterCall_fits) (System.run_schedule ..))

lemma sampleSystem_run : System.Run Memory.backend (.start .empty) sampleSystem :=
  sampleCalls_run ..

lemma endedSystem_run : System.Run Memory.backend sampleSystem endedSystem :=
  System.run_schedule ..

def sampleHead? (s : System Memory) : Option Cid :=
  (s.store.profiles.get? samplePublisher.owner).bind (·.value.head? "dOCS")

/-- The identifier of the chunk that the first append stores. -/
def sampleCid : Cid :=
  ⟨BigEndian.block 32 0xa4fe87b7c2acd07de8839affb5fb7975585cb510ed0e7ecc56af067fb8b15912⟩

/-- The chunk of the second append that is of no use once its swap is lost. -/
def lostCid : Cid :=
  ⟨BigEndian.block 32 0x21acd8924680044005c4faa2e076733de56720ffb7a58fd5da721dbd69c4b85d⟩

/-- The chunk of the second append that lands on top of the first. -/
def laterCid : Cid :=
  ⟨BigEndian.block 32 0xa7c24b73080b8c05fc2e628762578c99d5e96f7c5c6965327a343d4564470a7e⟩

-- each digest by itself, since it takes time and memory to evaluate one
lemma cid_sampleLink : Chunk.cid ⟨none, [sampleLink]⟩ = sampleCid := by decide +kernel

lemma cid_laterLink : Chunk.cid ⟨none, [laterLink]⟩ = lostCid := by decide +kernel

lemma cid_laterLink_after : Chunk.cid ⟨some sampleCid, [laterLink]⟩ = laterCid := by decide +kernel

def sampleBytes : List Bytes :=
  [Chunk.bytes ⟨none, [sampleLink]⟩, Chunk.bytes ⟨none, [laterLink]⟩,
    Chunk.bytes ⟨some sampleCid, [laterLink]⟩]

lemma nodup_sampleBytes : (sampleBytes.map Cid.ofBytes).Nodup := by
  have hcids : sampleBytes.map Cid.ofBytes = [sampleCid, lostCid, laterCid] :=
    List.cons_eq_cons.2 ⟨cid_sampleLink,
      List.cons_eq_cons.2 ⟨cid_laterLink, congrArg (fun c => [c]) cid_laterLink_after⟩⟩
  rw [hcids]
  decide +kernel

lemma endedSystem_evaluated :
    endedSystem.storedBytes = sampleBytes ∧
      (endedSystem.store.index? samplePublisher.owner "dOCS").isSome ∧
      endedSystem.committed (samplePublisher.owner, "docs") = [[sampleLink], [laterLink]] ∧
      (∀ task < 2, (endedSystem.landingsBy task).length = 1) ∧
      sampleHead? sampleSystem = some sampleCid ∧ sampleHead? endedSystem = some laterCid := by
  decide +kernel

lemma System.collisionFree_of_sampleBytes {s : System σ} (h : s.storedBytes = sampleBytes) :
    s.CollisionFree := by
  refine System.collisionFree_of_nodup ?_
  rw [h]
  exact nodup_sampleBytes

lemma endedSystem_collisionFree : endedSystem.CollisionFree :=
  System.collisionFree_of_sampleBytes endedSystem_evaluated.1

lemma sampleSystem_collisionFree : sampleSystem.CollisionFree :=
  endedSystem_collisionFree.of_run endedSystem_run

theorem endedSystem_indexed :
    System.Run Memory.backend (.start .empty) endedSystem ∧ endedSystem.CollisionFree ∧
      (endedSystem.store.index? samplePublisher.owner "dOCS").isSome ∧
      endedSystem.committed (samplePublisher.owner, "docs") = [[sampleLink], [laterLink]] ∧
      (∀ owner namespaceName i, endedSystem.store.index? owner namespaceName = some i →
        ∃ chunks, Yields Memory.backend endedSystem.store (some i.head) chunks ∧
          ∀ name, i.entries.get? name =
            (chunks.find? fun c => decide (c.Holds name)).map Chunk.cid) ∧
      endedSystem.CoversFaults Memory.backend := by
  have hrun := sampleSystem_run.trans endedSystem_run
  obtain ⟨-, hindex, hcommitted, -⟩ := endedSystem_evaluated
  exact ⟨hrun, endedSystem_collisionFree, hindex, hcommitted,
    index_of_reachable hrun endedSystem_collisionFree⟩

end SignedNames
