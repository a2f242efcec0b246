import SignedNames.Bytes.Base58
import SignedNames.Hash.Sha256

/-!
# Content identifiers

A content identifier is the SHA-256 digest of some bytes. Its text is the base-58 form of the
digest behind a two-byte header that names the hash and the digest's length.
-/
namespace SignedNames

/-- The digest of the bytes it identifies. -/
structure Cid where
  digest : Block 32
deriving DecidableEq

namespace Cid

/-- Why a text is not a content identifier. Lengths are counted in bytes. -/
inductive Fault
  | textLength (actual : Nat)
  | base58 (cause : Base58.Fault)
  | decodedLength (actual : Nat)
  | header (code length : UInt8)
deriving DecidableEq

private def twoDigits (b : UInt8) : String :=
  String.ofList [Nat.digitChar (b.toNat / 16), Nat.digitChar (b.toNat % 16)]

def Fault.message : Fault → String
  | .textLength actual => "expected 46 characters, got " ++ toString actual
  | .base58 cause => cause.message
  | .decodedLength actual => "expected 34 decoded bytes, got " ++ toString actual
  | .header code length => "unsupported multihash header " ++ twoDigits code ++ twoDigits length

/-- The code of the hash and the length of its digest. -/
def header : Bytes := [0x12, 0x20]

def ofBytes (bs : Bytes) : Cid := ⟨Sha256.hash bs⟩

def Identifies (c : Cid) (bs : Bytes) : Prop := ofBytes bs = c

instance (c : Cid) (bs : Bytes) : Decidable (c.Identifies bs) := inferInstanceAs (Decidable (_ = _))

def text (c : Cid) : String := Base58.encode (header ++ c.digest.bytes)

/-- Checks the length of the text, its alphabet, the decoded length and the header, in this order.
-/
def parse (s : String) : Except Fault Cid :=
  let bs := Text.utf8 s
  if bs.length ≠ 46 then .error (.textLength bs.length)
  else
    match Base58.decode bs with
    | .error cause => .error (.base58 cause)
    | .ok (code :: length :: digest) =>
      match Block.ofBytes? 32 digest with
      | none => .error (.decodedLength (digest.length + 2))
      | some digest =>
        if [code, length] = header then .ok ⟨digest⟩ else .error (.header code length)
    | .ok short => .error (.decodedLength short.length)

def describe (c : Cid) : String := "Cid(" ++ c.text ++ ")"

end Cid
end SignedNames
