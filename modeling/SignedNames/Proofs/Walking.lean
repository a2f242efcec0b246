import Mathlib
import SignedNames.Proofs.Programs
import SignedNames.Reader

/-!
# Walks over chains

A walk fetches the chunks of a chain from new to old until it has an answer or has fetched as many
as it may. The number of chunks that it needs for its answer decides which of the two comes first.
-/
namespace SignedNames

/-- The store answers requests for bytes from a map, in which anything may stand under an
identifier. -/
def Backend.Offers {σ : Type} (b : Backend σ) (s : σ) (blob? : Cid → Option Bytes) : Prop :=
  ∀ cid, b (.get cid) s = ((blob? cid).elim (.error (.notFound cid)) .ok, s)

/-- The bytes under an identifier belong there, and spell a chunk. -/
def Genuine (blob? : Cid → Option Bytes) (cid : Cid) (c : Chunk) : Prop :=
  ∃ bs, blob? cid = some bs ∧ Cid.ofBytes bs = cid ∧ Chunk.decode bs = .ok c

/-- The program fetches what is stored under some identifiers, one after the other, and ends with a
result. -/
inductive Fetches {α : Type} (blob? : Cid → Option Bytes) : Program α → List Cid → α → Prop
  | done (result : α) : Fetches blob? (.done result) [] result
  | get {cid : Cid} {bs : Bytes} {next : Except StoreError Bytes → Program α} {cids : List Cid}
    {result : α} (found : blob? cid = some bs) (rest : Fetches blob? (next (.ok bs)) cids result) :
    Fetches blob? (.ask (.get cid) next) (cid :: cids) result

/-- Genuine chunks with their identifiers, of which each names the next, down to one that names
none. -/
inductive Complete (blob? : Cid → Option Bytes) : Option Cid → List (Cid × Chunk) → Prop
  | nothing : Complete blob? none []
  | chunk {cid : Cid} {c : Chunk} {older : List (Cid × Chunk)} (genuine : Genuine blob? cid c)
    (rest : Complete blob? c.prev older) : Complete blob? (some cid) ((cid, c) :: older)

section

variable {α β σ : Type} {blob? : Cid → Option Bytes}

theorem Fetches.bind {p : Program α} {cids cids' : List Cid} {result : α}
    (h : Fetches blob? p cids result) {f : α → Program β} {final : β}
    (hf : Fetches blob? (f result) cids' final) : Fetches blob? (p.bind f) (cids ++ cids') final := by
  induction h with
  | done result => exact hf
  | get found _ ih => exact .get found (ih hf)

theorem Fetches.run {b : Backend σ} {s : σ} (offers : b.Offers s blob?) {p : Program α}
    {cids : List Cid} {result : α} (h : Fetches blob? p cids result) :
    p.run b s = (result, s) ∧ p.asked b s = cids.map .get := by
  induction h with
  | done result => exact ⟨rfl, rfl⟩
  | @get cid bs next cids result found _ ih =>
    have hget : b (.get cid) s = (.ok bs, s) := by rw [offers cid, found, Option.elim_some]
    rw [Program.run, Program.asked, hget, List.map_cons]
    exact ⟨ih.1, congrArg _ ih.2⟩

theorem Genuine.fetches {cid : Cid} {c : Chunk} (h : Genuine blob? cid c) :
    Fetches blob? (Operation.access (Access.getChunk cid)).program [cid] (.ok c) := by
  obtain ⟨bs, hblob, hcid, hdecode⟩ := h
  rw [Access.getChunk, Operation.program_access_bind]
  refine .get hblob ?_
  rw [Operation.afterReply, if_pos hcid, hdecode]
  exact .done _

namespace Complete

theorem unique {next : Option Cid} {chunks chunks' : List (Cid × Chunk)}
    (h : Complete blob? next chunks) (h' : Complete blob? next chunks') : chunks = chunks' := by
  induction h generalizing chunks' with
  | nothing =>
    cases h'
    rfl
  | chunk genuine _ ih =>
    cases h' with
    | chunk genuine' rest' =>
      obtain ⟨bs, hblob, -, hdecode⟩ := genuine
      obtain ⟨bs', hblob', -, hdecode'⟩ := genuine'
      cases hblob.symm.trans hblob'
      cases hdecode.symm.trans hdecode'
      rw [ih rest']

lemma of_append {next : Option Cid} {cid : Cid} {c : Chunk} {newer older : List (Cid × Chunk)}
    (h : Complete blob? next (newer ++ (cid, c) :: older)) :
    Complete blob? (some cid) ((cid, c) :: older) := by
  induction newer generalizing next with
  | nil =>
    cases h with
    | chunk genuine rest => exact .chunk genuine rest
  | cons e newer ih =>
    cases h with
    | chunk _ rest => exact ih rest

/-- A chain that ends does not come to an identifier twice. -/
theorem nodup {next : Option Cid} {chunks : List (Cid × Chunk)} (h : Complete blob? next chunks) :
    (chunks.map Prod.fst).Nodup := by
  induction h with
  | nothing => exact List.nodup_nil
  | @chunk cid c older genuine rest ih =>
    rw [List.map_cons, List.nodup_cons]
    refine ⟨?_, ih⟩
    intro hmem
    obtain ⟨⟨_, d⟩, hd, rfl⟩ := List.mem_map.1 hmem
    obtain ⟨newer, oldest, rfl⟩ := List.append_of_mem hd
    have heq := (Complete.chunk genuine rest).unique rest.of_append
    have hlength := congrArg List.length heq
    simp only [List.length_cons, List.length_append] at hlength
    omega

end Complete
end

namespace Reader

variable {α β : Type} (limit : Nat) (take : α → Chunk → α ⊕ β) (finish : α → β)

def taken : α → List Chunk → β
  | state, [] => finish state
  | state, c :: older =>
    match take state c with
    | .inl state => taken state older
    | .inr result => result

/-- How many of the chunks a walk needs. -/
def reach : α → List Chunk → Nat
  | _, [] => 0
  | state, c :: older =>
    match take state c with
    | .inl state => reach state older + 1
    | .inr _ => 1

lemma program_walk_none (remaining : Nat) (seen : List Cid) (state : α) :
    (walk limit take finish remaining seen state none).program = .done (.ok (finish state)) := by
  rw [walk]
  rfl

lemma program_walk_succ {seen : List Cid} {cid : Cid} (h : cid ∉ seen) (remaining : Nat)
    (state : α) :
    (walk limit take finish (remaining + 1) seen state (some cid)).program =
      (Operation.access (Access.getChunk cid)).program.bind (Operation.after fun c =>
        match take state c with
        | .inl state => walk limit take finish remaining (cid :: seen) state c.prev
        | .inr result => return result) := by
  rw [walk, if_neg h]
  exact Operation.program_bind ..

lemma reach_le_length (state : α) (cs : List Chunk) : reach take state cs ≤ cs.length := by
  induction cs generalizing state with
  | nil => exact le_rfl
  | cons c older ih =>
    rw [reach, List.length_cons]
    split
    · exact Nat.succ_le_succ (ih _)
    · exact Nat.succ_le_succ (Nat.zero_le _)

lemma reach_step (step : α → Chunk → α) (state : α) (cs : List Chunk) :
    reach (β := β) (fun state c => .inl (step state c)) state cs = cs.length := by
  induction cs generalizing state with
  | nil => rfl
  | cons c older ih => exact congrArg (· + 1) (ih _)

def outcome (remaining : Nat) (state : α) (cs : List Chunk) : Except OperationError β :=
  if reach take state cs ≤ remaining then .ok (taken take finish state cs)
  else .error (.corruptChain (.tooLong limit))

lemma outcome_nil (remaining : Nat) (state : α) :
    outcome limit take finish remaining state [] = .ok (finish state) :=
  if_pos (Nat.zero_le _)

/-- A walk over a chain fetches the chunks that it needs, from the newest on. It fails if and only
if it needs more than it may fetch, and then has fetched exactly as many as it may. -/
theorem fetches_walk {blob? : Cid → Option Bytes} {next : Option Cid}
    {chunks : List (Cid × Chunk)} (h : Complete blob? next chunks) (remaining : Nat)
    {seen : List Cid} (hseen : ∀ e ∈ chunks, e.1 ∉ seen) (state : α) :
    Fetches blob? (walk limit take finish remaining seen state next).program
      ((chunks.take (min remaining (reach take state (chunks.map Prod.snd)))).map Prod.fst)
      (outcome limit take finish remaining state (chunks.map Prod.snd)) := by
  induction h generalizing remaining seen state with
  | nothing =>
    rw [program_walk_none, List.take_nil, List.map_nil, List.map_nil, outcome_nil]
    exact .done _
  | @chunk cid c older genuine rest ih =>
    have hcid : cid ∉ seen := hseen (cid, c) (List.mem_cons_self ..)
    rw [List.map_cons]
    cases remaining with
    | zero =>
      rw [walk, if_neg hcid]
      have hreach : ¬ reach take state (c :: older.map Prod.snd) ≤ 0 := by
        rw [reach]
        split <;> omega
      rw [outcome, if_neg hreach, Nat.zero_min, List.take_zero]
      exact .done _
    | succ remaining =>
      rw [program_walk_succ limit take finish hcid]
      cases htake : take state c with
      | inl state' =>
        -- The walk goes on in the new state with one chunk less to fetch.
        have hreach : reach take state (c :: older.map Prod.snd) =
            reach take state' (older.map Prod.snd) + 1 := by
          rw [reach, htake]
        have houtcome : outcome limit take finish (remaining + 1) state (c :: older.map Prod.snd) =
            outcome limit take finish remaining state' (older.map Prod.snd) := by
          rw [outcome, outcome, hreach, taken, htake]
          simp only [Nat.add_le_add_iff_right]
        rw [hreach, houtcome, Nat.add_min_add_right, List.take_succ_cons, List.map_cons]
        refine genuine.fetches.bind ?_
        rw [Operation.after_ok, htake]
        refine ih remaining ?_ state'
        have hnodup := (Complete.chunk genuine rest).nodup
        rw [List.map_cons, List.nodup_cons] at hnodup
        intro e he hmem
        rcases List.mem_cons.1 hmem with hfst | hmem
        · exact hnodup.1 (List.mem_map.2 ⟨e, he, hfst⟩)
        · exact hseen e (List.mem_cons_of_mem _ he) hmem
      | inr result =>
        have hreach : reach take state (c :: older.map Prod.snd) = 1 := by rw [reach, htake]
        rw [outcome, hreach, if_pos (Nat.le_add_left ..), taken, htake,
          Nat.min_eq_right (Nat.le_add_left ..), List.take_succ_cons, List.take_zero]
        change Fetches blob? _ ([cid] ++ []) _
        refine genuine.fetches.bind ?_
        rw [Operation.after_ok, htake]
        exact .done _

end Reader
end SignedNames
