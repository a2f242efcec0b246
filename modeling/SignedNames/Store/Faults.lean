import SignedNames.Store.Program

/-!
# Stores that fail on demand

A layer around a store that can be offline, fail some of the next requests, and let a rival's append
land just before an index is swapped.
-/
namespace SignedNames

/-- What is going to fail, and what has happened so far. -/
structure Faults where
  offline : Bool
  failingPuts : Nat
  failingProfileSwaps : Nat
  pendingRivals : Nat
  /-- How many appends of the rival have landed. -/
  rivalsLanded : Nat
  /-- How many index swaps were asked for, those of the rival left out. -/
  indexSwaps : Nat

namespace Access

/-- Appends links in one chunk without trying again. Answers whether they landed. -/
def appendOnce (owner : Address) (namespaceName : String) (links : List Link) : Access Bool := do
  let current ← ask (.loadIndex owner namespaceName)
  let expected := current.map (·.head)
  let chunk : Chunk := ⟨expected, links⟩
  let cid ← putChunk chunk
  match ← ask (.swapIndex owner namespaceName expected (.advance current cid chunk)) with
  | .swapped => return true
  | .conflict _ => return false

end Access

namespace Faults

def quiet : Faults := ⟨false, 0, 0, 0, 0, 0⟩

variable {σ : Type}

/-- Lets the rival append one link, which depends on how many of its appends have landed. -/
def landRival (inner : Backend σ) (rivalLink : Nat → Link) (owner : Address)
    (namespaceName : String) : σ × Faults → Except StoreError Unit × (σ × Faults)
  | (s, f) =>
    match (Access.appendOnce owner namespaceName [rivalLink f.rivalsLanded]).run.run inner s with
    | (.ok true, s) => (.ok (), (s, { f with rivalsLanded := f.rivalsLanded + 1 }))
    | (.ok false, s) => (.ok (), (s, f))
    | (.error e, s) => (.error e, (s, f))

def forward (inner : Backend σ) (r : Request) : σ × Faults → r.Reply × (σ × Faults)
  | (s, f) =>
    let (reply, s) := inner r s
    (reply, (s, f))

def backend (inner : Backend σ) (rivalLink : Nat → Link) : Backend (σ × Faults)
  | r, (s, f) =>
    if f.offline then (.error (.unavailable .offline), (s, f))
    else
      match r with
      | .put bs =>
        if 0 < f.failingPuts then
          (.error (.unavailable .putFailure), (s, { f with failingPuts := f.failingPuts - 1 }))
        else forward inner (.put bs) (s, f)
      | .swapProfile owner expected next =>
        if 0 < f.failingProfileSwaps then
          (.error (.unavailable .profileSwapFailure),
            (s, { f with failingProfileSwaps := f.failingProfileSwaps - 1 }))
        else forward inner (.swapProfile owner expected next) (s, f)
      | .swapIndex owner namespaceName expected next =>
        let f := { f with indexSwaps := f.indexSwaps + 1 }
        if 0 < f.pendingRivals then
          match landRival inner rivalLink owner namespaceName
              (s, { f with pendingRivals := f.pendingRivals - 1 }) with
          | (.ok (), state) =>
            forward inner (.swapIndex owner namespaceName expected next) state
          | (.error e, state) => (.error e, state)
        else forward inner (.swapIndex owner namespaceName expected next) (s, f)
      | r => forward inner r (s, f)

end Faults
end SignedNames
