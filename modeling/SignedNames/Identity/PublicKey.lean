import SignedNames.Identity.Address

/-!
# Public keys

A public key is a point of the curve. It is written compressed, by its abscissa and the parity of
its ordinate. It is read from that form, from both coordinates, or from the abscissa alone, which
stands for the point with the even ordinate.
-/
namespace SignedNames

/-- The tag of the compressed form and the abscissa. -/
structure PublicKey where
  block : Block 33
deriving DecidableEq

namespace PublicKey

inductive Fault
  | hex (cause : Hex.Fault)
  | noPoint
deriving DecidableEq

def Fault.message : Fault → String
  | .hex cause => cause.message
  | .noPoint => "not a secp256k1 point"

def point? : Bytes → Option Secp256k1.Point
  | [] => none
  | tag :: rest =>
    if rest.length = 32 then
      let x := BigEndian.value rest
      if tag = 2 then Secp256k1.liftX x false
      else if tag = 3 then Secp256k1.liftX x true
      else if tag = 5 then Secp256k1.liftX x false
      else none
    else if rest.length = 64 ∧ tag = 4 then
      let p : Secp256k1.Point := ⟨BigEndian.value (rest.take 32), BigEndian.value (rest.drop 32)⟩
      if p.OnCurve then some p else none
    else none

def ofPoint (p : Secp256k1.Point) : PublicKey :=
  ⟨⟨(if p.y % 2 = 1 then 3 else 2) :: BigEndian.digits 32 p.x, by simp⟩⟩

def text (k : PublicKey) : String := "0x" ++ Hex.encode k.block.bytes

def parse (s : String) : Except Fault PublicKey :=
  match Hex.decode (Hex.stripMark (Text.utf8 s)) with
  | .error cause => .error (.hex cause)
  | .ok bs =>
    match point? bs with
    | some p => .ok (ofPoint p)
    | none => .error .noPoint

def address (k : PublicKey) : Except Fault Address :=
  match point? k.block.bytes with
  | some p => .ok (Address.ofPoint p)
  | none => .error .noPoint

/-- How diagnostics show a key: the beginning of its text. -/
def describe (k : PublicKey) : String :=
  "PublicKey(" ++ String.ofList (k.text.toList.take 18) ++ "...)"

end PublicKey
end SignedNames
