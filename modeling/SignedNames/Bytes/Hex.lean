import SignedNames.Bytes.Basic
import SignedNames.Text.Quoted

/-!
# Hexadecimal text

Two digits a byte, high digit first. Writing uses lower case; reading takes either case and reports
the first character that is no digit, unless the length is odd.
-/
namespace SignedNames.Hex

inductive Fault
  | oddLength
  | badDigit (byte : UInt8) (position : Nat)
deriving DecidableEq

def Fault.message : Fault → String
  | .oddLength => "Odd number of digits"
  | .badDigit byte position =>
    "Invalid character " ++ Text.quotedByte byte ++ " at position " ++ toString position

def digit (n : Nat) : Char :=
  if n < 10 then Char.ofNat (48 + n) else Char.ofNat (87 + n)

/-- The value of a digit in either letter case. -/
def digitValue? (b : UInt8) : Option Nat :=
  let n := b.toNat
  if 48 ≤ n ∧ n ≤ 57 then some (n - 48)
  else if 97 ≤ n ∧ n ≤ 102 then some (n - 87)
  else if 65 ≤ n ∧ n ≤ 70 then some (n - 55)
  else none

def pair (b : UInt8) : List Char := [digit (b.toNat / 16), digit (b.toNat % 16)]

def encode (bs : Bytes) : String := String.ofList (bs.flatMap pair)

/-- Reads digit pairs from left to right, the high digit before the low one. -/
def decodePairs : (position : Nat) → Bytes → Except Fault Bytes
  | _, [] => .ok []
  | _, [_] => .error .oddLength
  | position, high :: low :: rest =>
    match digitValue? high, digitValue? low with
    | none, _ => .error (.badDigit high position)
    | some _, none => .error (.badDigit low (position + 1))
    | some h, some l =>
      (decodePairs (position + 2) rest).map (UInt8.ofNat (h * 16 + l) :: ·)

/-- An odd length is reported before any bad character. -/
def decode (text : Bytes) : Except Fault Bytes :=
  if text.length % 2 = 1 then .error .oddLength else decodePairs 0 text

/-- The text without a leading `0x` or `0X`. -/
def stripMark : Bytes → Bytes
  | 48 :: 120 :: rest => rest
  | 48 :: 88 :: rest => rest
  | text => text

end SignedNames.Hex
