import SignedNames.Json.Record
import SignedNames.Link.Document

/-!
# Profiles

The record that a reader starts from: the newest chunk of every namespace, and the keys that may
sign, each with the time it is valid for. Descriptive members are carried along, unknown ones too.
-/
namespace SignedNames

inductive KeyStatus
  | active
  | notYetValid
  | expired
  | revoked (since : UInt64)
  | notRegistered
deriving DecidableEq

/-- A key that may sign from `validFrom` until before `validTo`, unless it was revoked. -/
structure SigningKey where
  /-- A public key, or the address of a wallet. -/
  publicKey : String
  validFrom : UInt64
  validTo : Option UInt64
  revokedAt : Option UInt64
deriving DecidableEq

structure Profile where
  name : Option String
  description : Option String
  image : Option String
  namespaces : NameMap Cid
  /-- Keys by the text of their address. -/
  signingKeys : NameMap SigningKey
  /-- Members without a meaning here, kept for others. -/
  extra : NameMap Json.Value

namespace SigningKey

/-- The account that the key signs as: a text that is no address must be a public key. -/
def fingerprint (k : SigningKey) : Except DataError Address :=
  match Address.parse k.publicKey with
  | .ok address => .ok address
  | .error _ =>
    match PublicKey.parse k.publicKey with
    | .error fault => .error (.format (.publicKey fault))
    | .ok key => key.address.mapError fun fault => .format (.publicKey fault)

/-- Revocation comes before the window of validity. -/
def statusAt (k : SigningKey) (t : UInt64) : KeyStatus :=
  match k.revokedAt.filter (· ≤ t) with
  | some since => .revoked since
  | none =>
    if t < k.validFrom then .notYetValid
    else if (k.validTo.filter (· ≤ t)).isSome then .expired
    else .active

def revoke (k : SigningKey) (time : UInt64) : SigningKey :=
  { k with revokedAt := some ((k.revokedAt.map (min · time)).getD time) }

def optionalWordMember (key : String) : Option UInt64 → List (String × Json.Value)
  | some n => [(key, Json.Value.natural n)]
  | none => []

def value (k : SigningKey) : Json.Value :=
  .object ([("publicKey", .text k.publicKey), ("validFrom", Json.Value.natural k.validFrom)]
    ++ optionalWordMember "validTo" k.validTo ++ optionalWordMember "revokedAt" k.revokedAt)

def fields : List Json.Field := [
  .of "publicKey" Json.Reader.text,
  .of "validFrom" Json.Reader.word,
  .of "validTo" (Json.Reader.orNull Json.Reader.word),
  .of "revokedAt" (Json.Reader.orNull Json.Reader.word)]

def read : Json.Reader SigningKey := fun tree => do
  let r ← Json.Record.read fields tree
  let publicKey ← r.required "publicKey" Json.Reader.text
  let validFrom ← r.required "validFrom" Json.Reader.word
  let validTo ← r.optional "validTo" (Json.Reader.orNull Json.Reader.word) none
  let revokedAt ← r.optional "revokedAt" (Json.Reader.orNull Json.Reader.word) none
  return ⟨publicKey, validFrom, validTo, revokedAt⟩

def parse (s : String) : Except DataError SigningKey := (Json.parse read s).mapError .document

end SigningKey

namespace Profile

def empty : Profile := ⟨none, none, none, .empty, .empty, .empty⟩

def head? (p : Profile) (namespaceName : String) : Option Cid :=
  p.namespaces.get? (Text.lower namespaceName)

def setHead (p : Profile) (namespaceName : String) (head : Cid) : Profile :=
  { p with namespaces := p.namespaces.insert (Text.lower namespaceName) head }

def putKey (p : Profile) (fingerprint : Address) (k : SigningKey) : Profile :=
  { p with signingKeys := p.signingKeys.insert fingerprint.text k }

def register (p : Profile) (k : SigningKey) : Except DataError (Address × Profile) :=
  k.fingerprint.map fun fingerprint => (fingerprint, p.putKey fingerprint k)

def revoke? (p : Profile) (fingerprint : String) (time : UInt64) : Option Profile :=
  (p.signingKeys.modify? (Text.lower fingerprint) fun k => k.revoke time).map
    fun keys => { p with signingKeys := keys }

def key? (p : Profile) (signer : Address) : Option SigningKey := p.signingKeys.get? signer.text

def keyStatus (p : Profile) (signer : Address) (t : UInt64) : KeyStatus :=
  ((p.key? signer).map (·.statusAt t)).getD .notRegistered

/-- The known members in the order of declaration, then the unknown ones by key. -/
def value (p : Profile) : Json.Value :=
  .object (optionalTextMember "name" p.name ++ optionalTextMember "description" p.description
    ++ optionalTextMember "image" p.image
    ++ [("namespaces", .object (p.namespaces.entries.map fun e => (e.1, .text e.2.text))),
      ("signingKeys", .object (p.signingKeys.entries.map fun e => (e.1, e.2.value)))]
    ++ p.extra.entries)

def document (p : Profile) : String := p.value.render

def fields : List Json.Field := [
  .of "name" (Json.Reader.orNull Json.Reader.text),
  .of "description" (Json.Reader.orNull Json.Reader.text),
  .of "image" (Json.Reader.orNull Json.Reader.text),
  .of "namespaces" (Json.Reader.nameMap Json.Reader.cid),
  .of "signingKeys" (Json.Reader.nameMap SigningKey.read)]

/-- Keys of both maps are brought to lower case in their order, so that the last spelling counts. -/
def read : Json.Reader Profile := fun tree => do
  let r ← Json.Record.readOpen fields tree
  let name ← r.optional "name" (Json.Reader.orNull Json.Reader.text) none
  let description ← r.optional "description" (Json.Reader.orNull Json.Reader.text) none
  let image ← r.optional "image" (Json.Reader.orNull Json.Reader.text) none
  let namespaces ← r.optional "namespaces" (Json.Reader.nameMap Json.Reader.cid) .empty
  let signingKeys ← r.optional "signingKeys" (Json.Reader.nameMap SigningKey.read) .empty
  let extra ← r.others.mapM fun m => (Json.Reader.value m.2).map (m.1, ·)
  return ⟨name, description, image, namespaces.mapKeys Text.lower, signingKeys.mapKeys Text.lower,
    .ofList extra⟩

def parse (s : String) : Except DataError Profile := (Json.parse read s).mapError .document

end Profile
end SignedNames
