import SignedNames.Bytes.Basic

/-!
# Calls that check a signature

The data of a call to a contract wallet's signature check, and the value that the wallet accepts
with. Data is laid out in words of 32 bytes after a selector of four: the digest, the place of the
signature counted from after the selector, and there its length and its bytes, filled up to a word.
-/
namespace SignedNames.Calldata

/-- Names the function `isValidSignature(bytes32,bytes)`. -/
def selector : Bytes := [0x16, 0x26, 0xba, 0x7e]

/-- The zeros that fill a byte string up to a whole number of words. -/
def filling (length : Nat) : Bytes := List.replicate ((32 - length % 32) % 32) 0

def encode (digest : Block 32) (signature : Bytes) : Bytes :=
  selector ++ digest.bytes ++ BigEndian.digits 32 64 ++ BigEndian.digits 32 signature.length
    ++ signature ++ filling signature.length

/-- The number that a word spells, if it has no more than 64 bits. -/
def number? (word : Bytes) : Option UInt64 :=
  if word.length = 32 ∧ (word.take 24).all (· == 0) then
    some (UInt64.ofNat (BigEndian.value (word.drop 24)))
  else none

/-- The place that lies some bytes after another one, if its number has no more than 64 bits. -/
def placeAfter? (place count : UInt64) : Option UInt64 :=
  if place.toNat + count.toNat < UInt64.size then some (place + count) else none

/-- The bytes from one place up to another one, if there are that many. -/
def between? (start stop : UInt64) (bs : Bytes) : Option Bytes :=
  if start ≤ stop ∧ stop.toNat ≤ bs.length then some ((bs.take stop.toNat).drop start.toNat)
  else none

def arguments? : Bytes → Option Bytes
  | a :: b :: c :: d :: rest => if [a, b, c, d] = selector then some rest else none
  | _ => none

/-- The digest and the signature of a call, wherever the signature is placed. Places and lengths
are numbers of 64 bits, and a call with a larger one is refused. -/
def decode (data : Bytes) : Option (Block 32 × Bytes) := do
  let arguments ← arguments? data
  let digest ← Block.ofBytes? 32 (arguments.take 32)
  let offset ← number? ((arguments.drop 32).take 32)
  let start ← placeAfter? offset 32
  let length ← (between? offset start arguments).bind number?
  let stop ← placeAfter? start length
  let signature ← between? start stop arguments
  return (digest, signature)

/-- The word that an accepting wallet returns. -/
def acceptance : Bytes := selector ++ List.replicate 28 0

/-- Whether returned data accepts the signature: a whole word that starts with the selector. -/
def Accepts (returned : Bytes) : Prop := 32 ≤ returned.length ∧ returned.take 4 = selector

instance (returned : Bytes) : Decidable (Accepts returned) := inferInstanceAs (Decidable (_ ∧ _))

end SignedNames.Calldata
