import SignedNames.Cbor.Canonical
import SignedNames.Fault
import SignedNames.Identity.Keypair
import SignedNames.Identity.PersonalMessage
import SignedNames.Text.LowerCase

/-!
# Links

A link says that a name stands for a payload, and is signed. The signature covers the canonical
bytes of the body, taken as a personal message. A new version of a name is a new link with that
name.
-/
namespace SignedNames

structure LinkBody where
  schemaVersion : UInt8
  /-- Compared without regard to letter case. -/
  name : String
  payloadCid : String
  encrypted : Bool
  encryptionAlgorithm : Option String
  encryptionKeyFingerprint : Option String
  chainId : UInt64
  signerAddress : Address
  /-- Seconds. -/
  signedAt : UInt64
  nonce : Nonce
deriving DecidableEq

structure Link where
  body : LinkBody
  signature : Signature
deriving DecidableEq

structure LinkDraft where
  name : String
  payloadCid : String
  encrypted : Bool
  encryptionAlgorithm : Option String
  encryptionKeyFingerprint : Option String

def linkVersion : UInt8 := 1

namespace LinkBody

def key (b : LinkBody) : String := Text.lower b.name

/-- Refuses an empty name before an empty payload. -/
def validate (b : LinkBody) : Except DataError Unit :=
  if b.name.isEmpty then .error (.missingField "name")
  else if b.payloadCid.isEmpty then .error (.missingField "payloadCid")
  else .ok ()

/-- The entry of an optional text; an absent one leaves none. -/
def optionalEntry (key : String) : Option String → List (String × Cbor.Canonical)
  | some s => [(key, .text s)]
  | none => []

/-- The signed fields with their names in the binary form. -/
def entries (b : LinkBody) : List (String × Cbor.Canonical) :=
  [("schemaVersion", .natural b.schemaVersion.toUInt64),
    ("name", .text b.name),
    ("payloadCid", .text b.payloadCid),
    ("encrypted", .bool b.encrypted)]
    ++ optionalEntry "encryptionAlgorithm" b.encryptionAlgorithm
    ++ optionalEntry "encryptionKeyFingerprint" b.encryptionKeyFingerprint
    ++ [("chainId", .natural b.chainId),
      ("signerAddress", .bytes b.signerAddress.block.bytes),
      ("signedAt", .natural b.signedAt),
      ("nonce", .bytes b.nonce.block.bytes)]

/-- The canonical bytes that the signature covers. -/
def signingBytes (b : LinkBody) : Bytes := (Cbor.Canonical.map b.entries).encode

def signingPreimage (b : LinkBody) : Bytes := PersonalMessage.preimage b.signingBytes

def signingDigest (b : LinkBody) : Block 32 := PersonalMessage.digest b.signingBytes

def sign (b : LinkBody) (k : Keypair) : Except DataError Link :=
  match b.validate with
  | .error e => .error e
  | .ok () =>
    match k.sign? b.signingDigest with
    | some signature => .ok ⟨b, signature⟩
    | none => .error .signingFailed

end LinkBody

namespace LinkDraft

def plain (name payloadCid : String) : LinkDraft := ⟨name, payloadCid, false, none, none⟩

def withEncryption (d : LinkDraft) (algorithm fingerprint : String) : LinkDraft :=
  { d with
    encrypted := true
    encryptionAlgorithm := some algorithm
    encryptionKeyFingerprint := some fingerprint }

/-- The body that completes a draft, if nothing required is empty. -/
def body (d : LinkDraft) (chainId : UInt64) (signer : Address) (signedAt : UInt64) (nonce : Nonce) :
    Except DataError LinkBody :=
  let b : LinkBody :=
    ⟨linkVersion, d.name, d.payloadCid, d.encrypted, d.encryptionAlgorithm,
      d.encryptionKeyFingerprint, chainId, signer, signedAt, nonce⟩
  b.validate.map fun () => b

/-- Signs a draft with a key, if one is at hand. The signer is the wallet that the key acts for, or
the key's own account. -/
def sign (d : LinkDraft) (key? : Option Keypair) (wallet? : Option Address) (chainId : UInt64)
    (signedAt : UInt64) (nonce : Nonce) : Except DataError Link :=
  match key? with
  | none => .error .signingKeyUnavailable
  | some key =>
    match d.body chainId (wallet?.getD key.address) signedAt nonce with
    | .error e => .error e
    | .ok b => b.sign key

end LinkDraft

namespace Link

def HasName (l : Link) (name : String) : Prop := l.body.key = Text.lower name

instance (l : Link) (name : String) : Decidable (l.HasName name) :=
  inferInstanceAs (Decidable (_ = _))

def canonical (l : Link) : Cbor.Canonical :=
  .map (l.body.entries ++ [("signature", .bytes l.signature.block.bytes)])

def bytes (l : Link) : Bytes := l.canonical.encode

def recovered (l : Link) : Signature.Recovery := l.signature.recover l.body.signingDigest

end Link
end SignedNames
