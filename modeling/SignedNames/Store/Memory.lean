import SignedNames.Store.Program
import SignedNames.Table

/-!
# Stores in memory

Keeps values as they are given. Namespaces go by their names in lower case.
-/
namespace SignedNames

structure Memory where
  blobs : Table Cid Bytes
  /-- Indexes by owner and namespace in lower case. -/
  indexes : Table (Address × String) NameIndex
  profiles : Table Address (Versioned Profile)

namespace Memory

def empty : Memory := ⟨.empty, .empty, .empty⟩

/-- Puts bytes under an identifier that need not be theirs. -/
def putUnchecked (m : Memory) (cid : Cid) (bs : Bytes) : Memory :=
  { m with blobs := m.blobs.set cid bs }

def index? (m : Memory) (owner : Address) (namespaceName : String) : Option NameIndex :=
  m.indexes.get? (owner, Text.lower namespaceName)

def namespaces (m : Memory) (owner : Address) : List String :=
  (NameMap.ofList (m.indexes.entries.filterMap fun e =>
    if e.1.1 = owner then some (e.1.2, ()) else none)).keys

def swapIndex (m : Memory) (owner : Address) (namespaceName : String) (expected : Option Cid)
    (next : NameIndex) : Swap NameIndex × Memory :=
  let current := m.index? owner namespaceName
  if current.map (·.head) = expected then
    (.swapped, { m with indexes := m.indexes.set (owner, Text.lower namespaceName) next })
  else (.conflict current, m)

/-- The revision after an expected one; the first is 1. -/
def nextRevision (expected : Option Nat) : Nat := expected.getD 0 + 1

def swapProfile (m : Memory) (owner : Address) (expected : Option Nat) (next : Profile) :
    Swap (Versioned Profile) × Memory :=
  let current := m.profiles.get? owner
  if current.map (·.revision) = expected then
    (.swapped, { m with profiles := m.profiles.set owner ⟨next, nextRevision expected⟩ })
  else (.conflict current, m)

def backend : Backend Memory
  | .put bs, m =>
    let cid := Cid.ofBytes bs
    (.ok cid, { m with blobs := m.blobs.setIfMissing cid bs })
  | .get cid, m =>
    match m.blobs.get? cid with
    | some bs => (.ok bs, m)
    | none => (.error (.notFound cid), m)
  | .has cid, m => (.ok (m.blobs.get? cid).isSome, m)
  | .loadIndex owner namespaceName, m => (.ok (m.index? owner namespaceName), m)
  | .swapIndex owner namespaceName expected next, m =>
    let (outcome, m) := m.swapIndex owner namespaceName expected next
    (.ok outcome, m)
  | .listNamespaces owner, m => (.ok (m.namespaces owner), m)
  | .loadProfile owner, m => (.ok (m.profiles.get? owner), m)
  | .swapProfile owner expected next, m =>
    let (outcome, m) := m.swapProfile owner expected next
    (.ok outcome, m)

end Memory
end SignedNames
