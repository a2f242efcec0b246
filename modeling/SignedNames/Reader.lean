import SignedNames.Operation

/-!
# Readers

A reader finds links through the index of a namespace or through the head that a profile records,
and follows chains of chunks from new to old. Every chunk is checked against its identifier.
-/
namespace SignedNames.Reader

def profile (owner : Address) : Operation (Option Profile) := do
  return (← Operation.ask (.loadProfile owner)).map (·.value)

def index (owner : Address) (namespaceName : String) : Operation NameIndex := do
  match ← Operation.ask (.loadIndex owner namespaceName) with
  | some index => return index
  | none => Operation.fail (.namespaceNotFound namespaceName)

def namespaces (owner : Address) : Operation (List String) :=
  Operation.ask (.listNamespaces owner)

/-- The latest link with a name, straight from the chunk that the index gives for it. -/
def resolve (owner : Address) (namespaceName name : String) : Operation (Option Link) := do
  let index ← Reader.index owner namespaceName
  match index.lookup name with
  | none => return none
  | some cid =>
    let chunk ← Operation.access (Access.getChunk cid)
    match chunk.latest? name with
    | some link => return some link
    | none => Operation.fail (.corruptChain (.entryWithoutName name cid))

/-- Follows a chain from a chunk on and takes in every chunk until `take` answers. At most
`remaining` more chunks are fetched out of `limit`; `seen` are those that were. -/
def walk {α β : Type} (limit : Nat) (take : α → Chunk → α ⊕ β) (finish : α → β) :
    (remaining : Nat) → (seen : List Cid) → (state : α) → (next : Option Cid) → Operation β
  | _, _, state, none => return finish state
  | remaining, seen, state, some cid =>
    if cid ∈ seen then Operation.fail (.corruptChain (.cycle cid))
    else
      match remaining with
      | 0 => Operation.fail (.corruptChain (.tooLong limit))
      | remaining + 1 => do
        let chunk ← Operation.access (Access.getChunk cid)
        match take state chunk with
        | .inl state => walk limit take finish remaining (cid :: seen) state chunk.prev
        | .inr result => return result

/-- The latest link with a name, found by following the chain from the head that a profile gives. -/
def resolveInProfile (limit : Nat) (profile : Profile) (namespaceName name : String) :
    Operation (Option Link) :=
  match profile.head? namespaceName with
  | none => Operation.fail (.namespaceNotFound namespaceName)
  | some head =>
    walk limit (fun () chunk =>
        match chunk.latest? name with
        | some link => .inr (some link)
        | none => .inl ())
      (fun () => none) limit [] () (some head)

def linksFrom (limit : Nat) (head : Cid) : Operation (List Link) :=
  walk limit (fun links chunk => .inl (links ++ chunk.links.reverse)) id limit [] [] (some head)

def links (limit : Nat) (owner : Address) (namespaceName : String) : Operation (List Link) := do
  let index ← Reader.index owner namespaceName
  linksFrom limit index.head

def history (limit : Nat) (owner : Address) (namespaceName name : String) :
    Operation (List Link) := do
  return (← links limit owner namespaceName).filter fun l => decide (l.HasName name)

/-- What is needed to verify a namespace: the profile, an empty one if there is none, and then the
links. -/
def audit (limit : Nat) (owner : Address) (namespaceName : String) :
    Operation (Profile × List Link) := do
  let profile := (← Reader.profile owner).getD .empty
  let links ← links limit owner namespaceName
  return (profile, links)

def verifyLink (requireRegisteredKey : Bool) (c : Chain) (p : Profile) (l : Link) :
    Except OperationError Verification × Chain :=
  let (outcome, c) := Verifier.verifyFor requireRegisteredKey c p l
  (outcome.mapError .verify, c)

def verifyNamespace {σ : Type} (settings : ReaderSettings) (b : Backend σ) (owner : Address)
    (namespaceName : String) (s : σ) (c : Chain) :
    Except OperationError (List (Link × Verification)) × σ × Chain :=
  match (audit settings.maxChainWalk owner namespaceName).run b s with
  | (.error e, s) => (.error e, s, c)
  | (.ok (profile, links), s) =>
    let (outcome, c) := Verifier.verifyAll settings.requireRegisteredKey c profile links
    (outcome.mapError .verify, s, c)

end SignedNames.Reader
