import SignedNames.Bytes.Basic
import SignedNames.Text.Quoted

/-!
# Base 58

A byte string read as a number most significant byte first and written to base 58, with one leading
`1` for each leading zero byte. The alphabet leaves out `0`, `O`, `I` and `l`.
-/
namespace SignedNames.Base58

/-- Why a text is not base 58: the first character outside the alphabet. -/
inductive Fault
  | badCharacter (byte : UInt8) (position : Nat)
  | nonAscii (position : Nat)
deriving DecidableEq

def Fault.message : Fault → String
  | .badCharacter byte position =>
    "provided string contained invalid character " ++ Text.quotedByte byte ++ " at byte "
      ++ toString position
  | .nonAscii position =>
    "provided string contained non-ascii character starting at byte " ++ toString position

def alphabet : List Char :=
  "123456789ABCDEFGHJKLMNPQRSTUVWXYZabcdefghijkmnopqrstuvwxyz".toList

def digit (n : Nat) : Char := alphabet.getD n '1'

def digitValue? (b : UInt8) : Option Nat :=
  alphabet.findIdx? fun c => c.toNat = b.toNat

/-- The last digits of a number to a base, at most `count` of them, without leading zeros. -/
def lastDigits (base : Nat) : (count : Nat) → Nat → List Nat
  | 0, _ => []
  | count + 1, n => if n = 0 then [] else lastDigits base count (n / base) ++ [n % base]

/-- The digits of a number to a base of at least two, most significant first, none for zero. A
number has no more digits than bits. -/
def radixDigits (base n : Nat) : List Nat := lastDigits base (n.log2 + 1) n

/-- The number that digits to a base spell. -/
def radixValue (base : Nat) (ds : List Nat) : Nat :=
  ds.foldl (fun n d => n * base + d) 0

def encode (bs : Bytes) : String :=
  let zeros := bs.takeWhile (· == 0)
  String.ofList (zeros.map (fun _ => '1') ++ (radixDigits 58 (BigEndian.value bs)).map digit)

def digitValues : (position : Nat) → Bytes → Except Fault (List Nat)
  | _, [] => .ok []
  | position, b :: rest =>
    match digitValue? b with
    | some d => (digitValues (position + 1) rest).map (d :: ·)
    | none => .error (if b < 128 then .badCharacter b position else .nonAscii position)

def decode (text : Bytes) : Except Fault Bytes :=
  (digitValues 0 text).map fun ds =>
    (ds.takeWhile (· == 0)).map (fun _ => 0)
      ++ (radixDigits 256 (radixValue 58 ds)).map UInt8.ofNat

end SignedNames.Base58
