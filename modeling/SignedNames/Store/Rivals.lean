import SignedNames.Store.Faults

/-!
# Stores with scripted rivals

A layer that lets prepared writes of others land just before a swap. Rivals write to a store of
their own choice, which need not be the one that the request is passed on to.
-/
namespace SignedNames

/-- The writes that are waiting. -/
structure Rivals where
  /-- Batches of links, one for each of the next index swaps. -/
  batches : List (List Link)
  /-- How many of the next profile swaps a rival edit comes before. -/
  profileEdits : Nat
  /-- How many rival edits have landed. -/
  editsLanded : Nat

namespace Access

/-- Changes a profile without trying again. Answers whether the change landed. -/
def editProfileOnce (owner : Address) (edit : Profile → Profile) : Access Bool := do
  let current ← ask (.loadProfile owner)
  let profile := (current.map (·.value)).getD .empty
  match ← ask (.swapProfile owner (current.map (·.revision)) (edit profile)) with
  | .swapped => return true
  | .conflict _ => return false

end Access

namespace Rivals

def quiet : Rivals := ⟨[], 0, 0⟩

variable {τ : Type}

/-- The edit that a rival makes, numbered from 1. -/
def rivalEdit (n : Nat) (p : Profile) : Profile :=
  { p with description := some ("rival " ++ toString n) }

def forward (outer : Backend τ) (r : Request) : τ × Rivals → r.Reply × (τ × Rivals)
  | (s, w) =>
    let (reply, s) := outer r s
    (reply, (s, w))

/-- The store `outer` with this layer around it; rivals write to `direct`. -/
def backend (direct outer : Backend τ) : Backend (τ × Rivals)
  | .swapIndex owner namespaceName expected next, (s, w) =>
    match w.batches with
    | [] => forward outer (.swapIndex owner namespaceName expected next) (s, w)
    | links :: rest =>
      match (Access.appendOnce owner namespaceName links).run.run direct s with
      | (.ok _, s) =>
        forward outer (.swapIndex owner namespaceName expected next) (s, { w with batches := rest })
      | (.error e, s) => (.error e, (s, { w with batches := rest }))
  | .swapProfile owner expected next, (s, w) =>
    if w.profileEdits = 0 then forward outer (.swapProfile owner expected next) (s, w)
    else
      let w := { w with profileEdits := w.profileEdits - 1 }
      match (Access.editProfileOnce owner (rivalEdit (w.editsLanded + 1))).run.run direct s with
      | (.ok landed, s) =>
        forward outer (.swapProfile owner expected next)
          (s, { w with editsLanded := if landed then w.editsLanded + 1 else w.editsLanded })
      | (.error e, s) => (.error e, (s, w))
  | r, state => forward outer r state

end Rivals
end SignedNames
