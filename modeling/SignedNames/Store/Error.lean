import SignedNames.Fault

/-!
# Store errors
-/
namespace SignedNames

inductive Outage
  | offline
  | putFailure
  | profileSwapFailure
deriving DecidableEq

def Outage.message : Outage → String
  | .offline => "store is offline"
  | .putFailure => "injected put failure"
  | .profileSwapFailure => "injected profile swap failure"

inductive RevisionFault
  | negative (revision : Int)
  | outOfRange (revision : Nat)
deriving DecidableEq

def RevisionFault.message : RevisionFault → String
  | .negative revision => "negative revision " ++ toString revision
  | .outOfRange revision => "revision " ++ toString revision ++ " out of range"

inductive StoreError
  /-- The tables refuse the operation. -/
  | tables
  | unreadable (cause : DataError)
  | notFound (cid : Cid)
  | unavailable (cause : Outage)
  /-- The stored bytes have another identifier than the one they are stored under. -/
  | integrity (expected actual : Cid)
  | invalidData (cause : RevisionFault)
  /-- The tables were laid out by a newer version. -/
  | newerLayout (found supported : Nat)
deriving DecidableEq

namespace StoreError

def message? : StoreError → Option String
  | .tables => none
  | .unreadable cause => cause.message?.map ("serialization error: " ++ ·)
  | .notFound cid => some ("not found: " ++ cid.text)
  | .unavailable cause => some ("store unavailable: " ++ cause.message)
  | .integrity expected actual =>
    some ("integrity error: bytes stored under " ++ expected.text ++ " hash to " ++ actual.text)
  | .invalidData cause => some ("invalid data: " ++ cause.message)
  | .newerLayout found supported =>
    some ("migration error: database schema version " ++ toString found
      ++ " is newer than supported version " ++ toString supported)

def transient : StoreError → Bool
  | .unavailable _ => true
  | _ => false

end StoreError
end SignedNames
