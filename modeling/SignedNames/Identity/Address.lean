import SignedNames.Bytes.Hex
import SignedNames.Curve.Secp256k1
import SignedNames.Hash.Keccak

/-!
# Account addresses

An account is named by twenty bytes: the tail of the hash of its public key, or the place of a
contract. Texts are lower-case hexadecimal behind `0x`; reading takes any letter case, and the mark
may be missing.
-/
namespace SignedNames

structure Address where
  block : Block 20
deriving DecidableEq

namespace Address

inductive Fault
  | hex (cause : Hex.Fault)
  | length (text : String)
deriving DecidableEq

def Fault.message : Fault → String
  | .hex cause => cause.message
  | .length text => "expected 20 bytes: " ++ text

def text (a : Address) : String := "0x" ++ Hex.encode a.block.bytes

def parse (s : String) : Except Fault Address :=
  match Hex.decode (Hex.stripMark (Text.utf8 s)) with
  | .error cause => .error (.hex cause)
  | .ok bs =>
    match Block.ofBytes? 20 bs with
    | some block => .ok ⟨block⟩
    | none => .error (.length s)

/-- The last twenty bytes of the hash of both coordinates. -/
def ofPoint (p : Secp256k1.Point) : Address :=
  let digest := Keccak.hash (BigEndian.digits 32 p.x ++ BigEndian.digits 32 p.y)
  ⟨⟨digest.bytes.drop 12, by simp [digest.length_eq]⟩⟩

def describe (a : Address) : String := "Address(" ++ a.text ++ ")"

end Address
end SignedNames
