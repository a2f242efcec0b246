import SignedNames.Curve.Ecdsa
import SignedNames.Identity.Address

/-!
# Signatures

Sixty-five bytes: the two numbers of a curve signature and a byte that tells which of two points it
belongs to. Any such bytes are a signature; whether they are well formed is a separate question.
-/
namespace SignedNames

structure Signature where
  block : Block 65
deriving DecidableEq

namespace Signature

/-- Why a text is no signature, or a signature is not well formed. -/
inductive Fault
  | hex (cause : Hex.Fault)
  | length (actual : Nat)
  | recoveryByte (byte : UInt8)
  | scalarRange
deriving DecidableEq

def Fault.message : Fault → String
  | .hex cause => cause.message
  | .length actual => "expected 65 bytes, got " ++ toString actual
  | .recoveryByte byte => "invalid recovery byte " ++ toString byte.toNat
  | .scalarRange => "r or s out of range"

def text (s : Signature) : String := "0x" ++ Hex.encode s.block.bytes

def ofBytes (bs : Bytes) : Except Fault Signature :=
  match Block.ofBytes? 65 bs with
  | some block => .ok ⟨block⟩
  | none => .error (.length bs.length)

def parse (s : String) : Except Fault Signature :=
  match Hex.decode (Hex.stripMark (Text.utf8 s)) with
  | .error cause => .error (.hex cause)
  | .ok bs => ofBytes bs

def recoveryByte (s : Signature) : UInt8 := s.block.bytes.getD 64 0

/-- Whether the curve point's ordinate is odd; the byte is written plain or raised by 27. -/
def oddOrdinate (s : Signature) : Except Fault Bool :=
  if s.recoveryByte = 0 ∨ s.recoveryByte = 27 then .ok false
  else if s.recoveryByte = 1 ∨ s.recoveryByte = 28 then .ok true
  else .error (.recoveryByte s.recoveryByte)

/-- The two numbers, both of which must be scalars. -/
def scalars (s : Signature) : Except Fault Ecdsa.Pair :=
  let r := BigEndian.value (s.block.bytes.take 32)
  let t := BigEndian.value ((s.block.bytes.drop 32).take 32)
  match Ecdsa.Scalar.ofNat? r, Ecdsa.Scalar.ofNat? t with
  | some r, some t => .ok ⟨r, t⟩
  | _, _ => .error .scalarRange

/-- The parts of a well-formed signature; the last byte is checked first. -/
def parts (s : Signature) : Except Fault (Ecdsa.Pair × Bool) :=
  match s.oddOrdinate with
  | .error fault => .error fault
  | .ok odd =>
    match s.scalars with
    | .error fault => .error fault
    | .ok pair => .ok (pair, odd)

def fault? (s : Signature) : Option Fault :=
  match s.parts with
  | .error fault => some fault
  | .ok _ => none

inductive Recovery
  | malformed (fault : Fault)
  | unrecoverable
  | account (address : Address)
deriving DecidableEq

def recover (s : Signature) (digest : Block 32) : Recovery :=
  match s.parts with
  | .error fault => .malformed fault
  | .ok (pair, odd) =>
    match Ecdsa.recover? pair odd digest with
    | some point => .account (Address.ofPoint point)
    | none => .unrecoverable

/-- The bytes of a curve signature, with the raised form of the last byte. -/
def ofParts (pair : Ecdsa.Pair) (odd : Bool) : Signature :=
  ⟨⟨BigEndian.digits 32 pair.r.value ++ BigEndian.digits 32 pair.s.value
      ++ [if odd then 28 else 27], by simp⟩⟩

/-- How diagnostics show a signature: the beginning of its text. -/
def describe (s : Signature) : String :=
  "Signature(" ++ String.ofList (s.text.toList.take 18) ++ "...)"

end Signature
end SignedNames
