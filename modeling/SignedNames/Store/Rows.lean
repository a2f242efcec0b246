import SignedNames.Store.Program
import SignedNames.Table

/-!
# Stores of rows

Keeps identifiers, owners and documents as text in the rows of three tables, and a table of layout
versions. Records are read back from their documents. An index is compared by the column that
repeats its head, a profile by its revision, a number of 64 bits with a sign.
-/
namespace SignedNames

structure IndexRow where
  head : String
  document : String

structure ProfileRow where
  revision : Int
  document : String

structure Rows where
  blobs : Table String Bytes
  /-- Rows by the owner's text and the namespace in lower case. -/
  indexes : Table (String × String) IndexRow
  profiles : Table String ProfileRow
  /-- The layouts that were applied. -/
  layouts : List Int

namespace Rows

def supportedLayout : Nat := 1

def fresh : Rows := ⟨.empty, .empty, .empty, [supportedLayout]⟩

def newestLayout (r : Rows) : Int := r.layouts.foldl max 0

/-- Opens the tables anew: a newer layout is refused, and so is a version that is no 32-bit number.
-/
def reopen (r : Rows) : Except StoreError Rows :=
  if UInt32.size ≤ r.newestLayout then .error .tables
  else if supportedLayout < r.newestLayout then
    .error (.newerLayout r.newestLayout.toNat supportedLayout)
  else .ok r

def addLayout? (r : Rows) (version : Int) : Option Rows :=
  if version ∈ r.layouts then none else some { r with layouts := version :: r.layouts }

def overwriteBlob? (r : Rows) (cid : Cid) (bs : Bytes) : Option Rows :=
  (r.blobs.get? cid.text).map fun _ => { r with blobs := r.blobs.set cid.text bs }

def indexKey (owner : Address) (namespaceName : String) : String × String :=
  (owner.text, Text.lower namespaceName)

/-- Overwrites the document of an index, if there is one; the head's column stays. -/
def overwriteIndex? (r : Rows) (owner : Address) (namespaceName document : String) : Option Rows :=
  (r.indexes.get? (indexKey owner namespaceName)).map fun row =>
    { r with indexes := r.indexes.set (indexKey owner namespaceName) { row with document } }

def overwriteProfile? (r : Rows) (owner : Address) (document : String) (revision : Int) :
    Option Rows :=
  (r.profiles.get? owner.text).map fun _ =>
    { r with profiles := r.profiles.set owner.text ⟨revision, document⟩ }

def readIndex (r : Rows) (owner : Address) (namespaceName : String) :
    Except StoreError (Option NameIndex) :=
  match r.indexes.get? (indexKey owner namespaceName) with
  | none => .ok none
  | some row => ((NameIndex.parse row.document).map some).mapError .unreadable

/-- A negative revision is refused before the document is read. -/
def readProfile (r : Rows) (owner : Address) : Except StoreError (Option (Versioned Profile)) :=
  match r.profiles.get? owner.text with
  | none => .ok none
  | some row =>
    if row.revision < 0 then .error (.invalidData (.negative row.revision))
    else
      ((Profile.parse row.document).map fun p => some ⟨p, row.revision.toNat⟩).mapError .unreadable

def namespaces (r : Rows) (owner : Address) : List String :=
  (NameMap.ofList (r.indexes.entries.filterMap fun e =>
    if e.1.1 = owner.text then some (e.1.2, ()) else none)).keys

def swapIndex (r : Rows) (owner : Address) (namespaceName : String) (expected : Option Cid)
    (next : NameIndex) : Except StoreError (Swap NameIndex) × Rows :=
  let key := indexKey owner namespaceName
  if (r.indexes.get? key).map (·.head) = expected.map (·.text) then
    (.ok .swapped, { r with indexes := r.indexes.set key ⟨next.head.text, next.document⟩ })
  else ((r.readIndex owner namespaceName).map .conflict, r)

/-- A revision as a number of 64 bits with a sign. -/
def storable (revision : Nat) : Except StoreError Int :=
  if revision < 0x8000000000000000 then .ok revision
  else .error (.invalidData (.outOfRange revision))

/-- Both the expected revision and its successor must be storable. -/
def swapProfile (r : Rows) (owner : Address) (expected : Option Nat) (next : Profile) :
    Except StoreError (Swap (Versioned Profile)) × Rows :=
  match expected.mapM storable, storable (expected.getD 0 + 1) with
  | .error e, _ => (.error e, r)
  | _, .error e => (.error e, r)
  | .ok wanted, .ok successor =>
    if (r.profiles.get? owner.text).map (·.revision) = wanted then
      (.ok .swapped, { r with profiles := r.profiles.set owner.text ⟨successor, next.document⟩ })
    else ((r.readProfile owner).map .conflict, r)

def backend : Backend Rows
  | .put bs, r =>
    let cid := Cid.ofBytes bs
    (.ok cid, { r with blobs := r.blobs.setIfMissing cid.text bs })
  | .get cid, r =>
    match r.blobs.get? cid.text with
    | some bs => (.ok bs, r)
    | none => (.error (.notFound cid), r)
  | .has cid, r => (.ok (r.blobs.get? cid.text).isSome, r)
  | .loadIndex owner namespaceName, r => (r.readIndex owner namespaceName, r)
  | .swapIndex owner namespaceName expected next, r =>
    r.swapIndex owner namespaceName expected next
  | .listNamespaces owner, r => (.ok (r.namespaces owner), r)
  | .loadProfile owner, r => (r.readProfile owner, r)
  | .swapProfile owner expected next, r => r.swapProfile owner expected next

end Rows
end SignedNames
