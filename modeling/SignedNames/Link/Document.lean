import SignedNames.Json.Record
import SignedNames.Link

/-!
# Links as documents

A link is written as one flat object, the signature last. Reading takes the members in any order and
ignores unknown ones. The signature is read where it stands, the other members only when the object
has come to its end.
-/
namespace SignedNames

/-- The member of an optional text; an absent one leaves none. -/
def optionalTextMember (key : String) : Option String → List (String × Json.Value)
  | some s => [(key, .text s)]
  | none => []

namespace LinkBody

def members (b : LinkBody) : List (String × Json.Value) :=
  [("schemaVersion", Json.Value.natural b.schemaVersion.toUInt64),
    ("name", .text b.name),
    ("payloadCid", .text b.payloadCid),
    ("encrypted", .bool b.encrypted)]
    ++ optionalTextMember "encryptionAlgorithm" b.encryptionAlgorithm
    ++ optionalTextMember "encryptionKeyFingerprint" b.encryptionKeyFingerprint
    ++ [("chainId", Json.Value.natural b.chainId),
      ("signerAddress", .text b.signerAddress.text),
      ("signedAt", Json.Value.natural b.signedAt),
      ("nonce", .text b.nonce.text)]

/-- The members in the order of declaration; the payload goes by a second name too. -/
def fields : List Json.Field := [
  .of "schemaVersion" (Json.Reader.below 256),
  .of "name" Json.Reader.text,
  { Json.Field.of "payloadCid" Json.Reader.text with synonym := some "cid" },
  .of "encrypted" Json.Reader.bool,
  .of "encryptionAlgorithm" (Json.Reader.orNull Json.Reader.text),
  .of "encryptionKeyFingerprint" (Json.Reader.orNull Json.Reader.text),
  .of "chainId" Json.Reader.word,
  .of "signerAddress" Json.Reader.address,
  .of "signedAt" Json.Reader.word,
  .of "nonce" Json.Reader.nonce]

def ofRecord (r : Json.Record) : Except DocumentFault LinkBody := do
  let schemaVersion ← r.optional "schemaVersion" (Json.Reader.below 256) linkVersion.toNat
  let name ← r.required "name" Json.Reader.text
  let payloadCid ← r.required "payloadCid" Json.Reader.text
  let encrypted ← r.optional "encrypted" Json.Reader.bool false
  let algorithm ← r.optional "encryptionAlgorithm" (Json.Reader.orNull Json.Reader.text) none
  let fingerprint ← r.optional "encryptionKeyFingerprint" (Json.Reader.orNull Json.Reader.text) none
  let chainId ← r.required "chainId" Json.Reader.word
  let signerAddress ← r.required "signerAddress" Json.Reader.address
  let signedAt ← r.required "signedAt" Json.Reader.word
  let nonce ← r.required "nonce" Json.Reader.nonce
  return ⟨UInt8.ofNat schemaVersion, name, payloadCid, encrypted, algorithm, fingerprint, chainId,
    signerAddress, signedAt, nonce⟩

def read : Json.Reader LinkBody := fun tree => do ofRecord (← Json.Record.read fields tree)

def parse (s : String) : Except DataError LinkBody := (Json.parse read s).mapError .document

end LinkBody

namespace Link

def value (l : Link) : Json.Value :=
  .object (l.body.members ++ [("signature", .text l.signature.text)])

def document (l : Link) : String := l.value.render

/-- A missing signature is reported before anything is read of the body. -/
def read : Json.Reader Link := fun tree => do
  let r ← Json.Record.readOpen [.of "signature" Json.Reader.signature] tree
  let signature ← r.required "signature" Json.Reader.signature
  let body ← LinkBody.ofRecord (← r.rest LinkBody.fields)
  return ⟨body, signature⟩

def parse (s : String) : Except DataError Link := (Json.parse read s).mapError .document

end Link
end SignedNames
