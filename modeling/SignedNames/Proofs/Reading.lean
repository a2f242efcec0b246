import Mathlib
import SignedNames.Proofs.Consistency
import SignedNames.Proofs.Walking

/-!
# What readers read

A reader asks for an index once, and after that only for stored bytes. Since bytes never change, its
answer is settled when it gets the index.
-/
namespace SignedNames

/-- The program only asks for bytes that are stored, and ends with a result. -/
inductive Reads {α : Type} (k : Contents) : Program α → α → Prop
  | done (result : α) : Reads k (.done result) result
  | get {cid : Cid} {bs : Bytes} {next : Except StoreError Bytes → Program α} {result : α}
    (found : k.blob? cid = some bs) (rest : Reads k (next (.ok bs)) result) :
    Reads k (.ask (.get cid) next) result

def Answers {α : Type} (k : Contents) (owner : Address) (namespaceName : String) (p : Program α)
    (result : α) : Prop :=
  ∃ next, p = .ask (.loadIndex owner namespaceName) next ∧
    Reads k (next (.ok (k.index? (owner, Text.lower namespaceName)))) result

section

variable {α β σ : Type} {k : Contents} {p : Program α} {result : α}

theorem Reads.mono {k' : Contents} (h : Reads k p result)
    (hblobs : ∀ cid bs, k.blob? cid = some bs → k'.blob? cid = some bs) : Reads k' p result := by
  induction h with
  | done result => exact .done result
  | get found _ ih => exact .get (hblobs _ _ found) ih

theorem Reads.bind (h : Reads k p result) {f : α → Program β} {final : β}
    (hf : Reads k (f result) final) : Reads k (p.bind f) final := by
  induction h with
  | done result => exact hf
  | get found _ ih => exact .get found (ih hf)

theorem Answers.bind {owner : Address} {namespaceName : String}
    (h : Answers k owner namespaceName p result) {f : α → Program β} {final : β}
    (hf : Reads k (f result) final) : Answers k owner namespaceName (p.bind f) final := by
  obtain ⟨next, rfl, hnext⟩ := h
  exact ⟨_, rfl, hnext.bind hf⟩

theorem Fetches.reads {cids : List Cid} (h : Fetches k.blob? p cids result) : Reads k p result := by
  induction h with
  | done result => exact .done result
  | get found _ ih => exact .get found ih

variable {b : Backend σ} {rep : σ → Contents → Prop} {store : σ}

theorem Reads.run (keeps : b.Keeps rep) (hrep : rep store k) (h : Reads k p result) :
    p.run b store = (result, store) := by
  induction h with
  | done result => rfl
  | get found _ ih =>
    rw [Program.run, keeps.get hrep, Contents.get_of_blob? found]
    exact ih

theorem Answers.run (keeps : b.Keeps rep) (hrep : rep store k) {owner : Address}
    {namespaceName : String} (h : Answers k owner namespaceName p result) :
    p.run b store = (result, store) := by
  obtain ⟨next, rfl, hnext⟩ := h
  rw [Program.run, keeps.loadIndex hrep]
  exact hnext.run keeps hrep

end

lemma genuine_of_fits {blob? : Cid → Option Bytes} {c : Chunk} (fits : c.Fits)
    (hblob : blob? c.cid = some c.bytes) : Genuine blob? c.cid c :=
  ⟨c.bytes, hblob, rfl, Chunk.decode_bytes fits⟩

theorem reads_getChunk {k : Contents} {c : Chunk} (fits : c.Fits)
    (hblob : k.blob? c.cid = some c.bytes) :
    Reads k (Operation.access (Access.getChunk c.cid)).program (.ok c) :=
  (genuine_of_fits fits hblob).fetches.reads

namespace Lineage

lemma tip_of_index? {cs : List Chunk} {i : NameIndex} (h : index? cs = some i) :
    some i.head = tip cs := by
  rw [← map_head_index?, h]
  rfl

lemma complete_of_kept {blob? : Cid → Option Bytes} {cs : List Chunk} (linked : Linked cs)
    (kept : Kept blob? cs) : Complete blob? (tip cs) (cs.map fun c => (c.cid, c)) := by
  induction cs with
  | nil => exact .nothing
  | cons c older ih =>
    obtain ⟨⟨fits, hblob⟩, hkept⟩ := List.forall_mem_cons.1 kept
    refine .chunk (genuine_of_fits fits hblob) ?_
    rw [linked.1]
    exact ih linked.2 hkept

end Lineage

namespace Reader

variable {k : Contents}

section

variable {α β : Type} (limit : Nat) (take : α → Chunk → α ⊕ β) (finish : α → β)

lemma reads_walk_outcome {cs : List Chunk} (linked : Lineage.Linked cs)
    (kept : Lineage.Kept k.blob? cs) (remaining : Nat) {seen : List Cid}
    (hseen : ∀ c ∈ cs, c.cid ∉ seen) (state : α) :
    Reads k (walk limit take finish remaining seen state (Lineage.tip cs)).program
      (outcome limit take finish remaining state cs) := by
  have hcs : (cs.map fun c => (c.cid, c)).map Prod.snd = cs := by
    rw [List.map_map]
    exact List.map_id cs
  have h := fetches_walk limit take finish (Lineage.complete_of_kept linked kept) remaining
    (List.forall_mem_map.2 hseen) state
  rw [hcs] at h
  exact h.reads

theorem reads_walk {cs : List Chunk} (linked : Lineage.Linked cs)
    (kept : Lineage.Kept k.blob? cs) {remaining : Nat} (hremaining : cs.length ≤ remaining)
    {seen : List Cid} (hseen : ∀ c ∈ cs, c.cid ∉ seen) (state : α) :
    Reads k (walk limit take finish remaining seen state (Lineage.tip cs)).program
      (.ok (taken take finish state cs)) := by
  have h := reads_walk_outcome limit take finish linked kept remaining hseen state
  rwa [outcome, if_pos ((reach_le_length take state cs).trans hremaining)] at h

theorem reads_walk_tooLong (step : α → Chunk → α) {cs : List Chunk}
    (linked : Lineage.Linked cs) (kept : Lineage.Kept k.blob? cs) {remaining : Nat}
    (hremaining : remaining < cs.length) {seen : List Cid} (hseen : ∀ c ∈ cs, c.cid ∉ seen)
    (state : α) :
    Reads k (walk limit (fun state c => .inl (step state c)) finish remaining seen state
      (Lineage.tip cs)).program (.error (.corruptChain (.tooLong limit))) := by
  have h := reads_walk_outcome limit (fun state c => .inl (step state c)) finish linked kept
    remaining hseen state
  rwa [outcome, reach_step, if_neg (Nat.not_le_of_lt hremaining)] at h

end

lemma taken_links (links : List Link) (cs : List Chunk) :
    taken (fun links (c : Chunk) => .inl (links ++ c.links.reverse)) id links cs =
      links ++ Lineage.links cs := by
  induction cs generalizing links with
  | nil => exact (List.append_nil _).symm
  | cons c older ih =>
    have hrest := ih (links ++ c.links.reverse)
    rw [List.append_assoc] at hrest
    exact hrest

def seek (name : String) : Unit → Chunk → Unit ⊕ Option Link
  | (), c =>
    match c.latest? name with
    | some link => .inr (some link)
    | none => .inl ()

lemma resolveInProfile_of_head {profile : Profile} {namespaceName : String} {head : Cid}
    (h : profile.head? namespaceName = some head) (limit : Nat) (name : String) :
    resolveInProfile limit profile namespaceName name =
      walk limit (seek name) (fun () => none) limit [] () (some head) := by
  rw [resolveInProfile, h]
  rfl

lemma taken_seek (name : String) (cs : List Chunk) :
    taken (seek name) (fun () => none) () cs =
      (Lineage.links cs).find? fun l => decide (l.HasName name) := by
  induction cs with
  | nil => rfl
  | cons c older ih =>
    have hlinks : (Lineage.links (c :: older)).find? (fun l => decide (l.HasName name)) =
        (c.latest? name).or ((Lineage.links older).find? fun l => decide (l.HasName name)) :=
      List.find?_append
    rw [hlinks, ← ih, taken, seek]
    cases c.latest? name <;> rfl

end Reader

structure Shelved (k : Contents) (key : Address × String) (cs : List Chunk) : Prop where
  linked : Lineage.Linked cs
  kept : Lineage.Kept k.blob? cs
  index : k.index? key = Lineage.index? cs

theorem Sound.shelved {σ : Type} {k : Contents} {chains : Address × String → List Chunk}
    {s : System σ} (h : Sound k chains s) (key : Address × String) : Shelved k key (chains key) :=
  ⟨h.linked key, h.kept key, h.index key⟩

namespace Reader

variable {k : Contents} {owner : Address} {namespaceName : String} {cs : List Chunk}
  {i : NameIndex}

lemma answers_index {β : Type} {f : NameIndex → Operation β} {outcome : Except OperationError β}
    (hi : k.index? (owner, Text.lower namespaceName) = some i) (h : Reads k (f i).program outcome) :
    Answers k owner namespaceName (index owner namespaceName >>= f).program outcome := by
  rw [index, Operation.program_bind, Operation.program_ask_bind]
  refine ⟨_, rfl, ?_⟩
  rw [hi]
  exact h

lemma answers_index_none {β : Type} (f : NameIndex → Operation β)
    (hi : k.index? (owner, Text.lower namespaceName) = none) :
    Answers k owner namespaceName (index owner namespaceName >>= f).program
      (.error (.namespaceNotFound namespaceName)) := by
  rw [index, Operation.program_bind, Operation.program_ask_bind]
  refine ⟨_, rfl, ?_⟩
  rw [hi]
  exact .done _

lemma answers_history {limit : Nat} {outcome : Except OperationError (List Link)}
    (h : Answers k owner namespaceName (links limit owner namespaceName).program outcome)
    (name : String) :
    Answers k owner namespaceName (history limit owner namespaceName name).program
      (outcome.map fun links => links.filter fun l => decide (l.HasName name)) := by
  rw [history, Operation.program_bind]
  refine h.bind ?_
  cases outcome with
  | error e => exact .done _
  | ok links => exact .done _

variable (h : Shelved k (owner, Text.lower namespaceName) cs)
include h

theorem answers_links (hi : Lineage.index? cs = some i) {limit : Nat} (hlimit : cs.length ≤ limit) :
    Answers k owner namespaceName (links limit owner namespaceName).program
      (.ok (Lineage.links cs)) := by
  refine answers_index (h.index.trans hi) ?_
  rw [linksFrom, Lineage.tip_of_index? hi]
  rw [← List.nil_append (Lineage.links cs), ← taken_links]
  exact reads_walk limit _ id h.linked h.kept hlimit (fun _ _ => List.not_mem_nil) []

theorem answers_links_tooLong (hi : Lineage.index? cs = some i) {limit : Nat}
    (hlimit : limit < cs.length) :
    Answers k owner namespaceName (links limit owner namespaceName).program
      (.error (.corruptChain (.tooLong limit))) := by
  refine answers_index (h.index.trans hi) ?_
  rw [linksFrom, Lineage.tip_of_index? hi]
  exact reads_walk_tooLong limit id _ h.linked h.kept hlimit (fun _ _ => List.not_mem_nil) []

theorem links_of_run {σ : Type} {b : Backend σ} {rep : σ → Contents → Prop} {store : σ}
    (keeps : b.Keeps rep) (hrep : rep store k) {limit : Nat} {found : List Link}
    (hrun : ((links limit owner namespaceName).program.run b store).1 = .ok found) :
    found = Lineage.links cs := by
  cases hi : Lineage.index? cs with
  | none =>
    have hnone := answers_index_none (fun i => linksFrom limit i.head) (h.index.trans hi)
    change Answers k owner namespaceName (links limit owner namespaceName).program _ at hnone
    rw [hnone.run keeps hrep] at hrun
    cases hrun
  | some i =>
    by_cases hlimit : cs.length ≤ limit
    · rw [(answers_links h hi hlimit).run keeps hrep] at hrun
      cases hrun
      rfl
    · rw [(answers_links_tooLong h hi (Nat.lt_of_not_le hlimit)).run keeps hrep] at hrun
      cases hrun

theorem answers_resolve (hi : Lineage.index? cs = some i) (name : String) :
    Answers k owner namespaceName (resolve owner namespaceName name).program
      (.ok ((Lineage.links cs).find? fun l => decide (l.HasName name))) := by
  refine answers_index (h.index.trans hi) ?_
  rw [Lineage.find?_links, NameIndex.lookup, Lineage.get?_of_index? hi]
  cases hfind : cs.find? fun c => decide (c.Holds (Text.lower name)) with
  | none => exact .done _
  | some c =>
    obtain ⟨fits, hblob⟩ := h.kept c (List.mem_of_find?_eq_some hfind)
    have hholds : c.Holds (Text.lower name) := by simpa using List.find?_some hfind
    obtain ⟨l, hl⟩ := Option.isSome_iff_exists.1 ((Lineage.latest?_isSome_iff c name).2 hholds)
    rw [Option.map_some, Option.bind_some, hl]
    change Reads k (Operation.access (Access.getChunk c.cid) >>= _).program _
    rw [Operation.program_bind]
    refine (reads_getChunk fits hblob).bind ?_
    rw [Operation.after_ok, hl]
    exact .done _

theorem reads_resolveInProfile {limit : Nat} (hlimit : cs.length ≤ limit) {profile : Profile}
    (hi : Lineage.index? cs = some i) (hhead : profile.head? namespaceName = some i.head)
    (name : String) :
    Reads k (resolveInProfile limit profile namespaceName name).program
      (.ok ((Lineage.links cs).find? fun l => decide (l.HasName name))) := by
  rw [resolveInProfile_of_head hhead, ← taken_seek, Lineage.tip_of_index? hi]
  exact reads_walk limit _ _ h.linked h.kept hlimit (fun _ _ => List.not_mem_nil) ()

theorem exists_answers_resolve (name : String) : ∃ outcome,
    Answers k owner namespaceName (resolve owner namespaceName name).program outcome := by
  cases hi : Lineage.index? cs with
  | none => exact ⟨_, answers_index_none _ (h.index.trans hi)⟩
  | some i => exact ⟨_, answers_resolve h hi name⟩

theorem exists_answers_links (limit : Nat) : ∃ outcome,
    Answers k owner namespaceName (links limit owner namespaceName).program outcome := by
  cases hi : Lineage.index? cs with
  | none => exact ⟨_, answers_index_none _ (h.index.trans hi)⟩
  | some i =>
    by_cases hlimit : cs.length ≤ limit
    · exact ⟨_, answers_links h hi hlimit⟩
    · exact ⟨_, answers_links_tooLong h hi (Nat.lt_of_not_le hlimit)⟩

end Reader
end SignedNames
