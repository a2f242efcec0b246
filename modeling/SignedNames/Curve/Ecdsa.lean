import SignedNames.Curve.Secp256k1
import SignedNames.Hash.Sha256

/-!
# Recoverable signatures on secp256k1

Signing takes its secret multiplier from the key and the digest alone, so it is deterministic, and
always answers the smaller of the two values of `s`. Recovery refuses the larger one, and checks the
signature against the point it found.
-/
namespace SignedNames.Ecdsa

open Secp256k1

/-- A non-zero number below the group order. -/
structure Scalar where
  value : Nat
  pos : 0 < value
  lt : value < order
deriving DecidableEq

def Scalar.ofNat? (n : Nat) : Option Scalar :=
  if h : 0 < n ∧ n < order then some ⟨n, h.1, h.2⟩ else none

structure Pair where
  r : Scalar
  s : Scalar
deriving DecidableEq

/-- Whether `s` lies in the upper half of the group. -/
def Pair.High (p : Pair) : Prop := order / 2 < p.s.value

instance (p : Pair) : Decidable p.High := inferInstanceAs (Decidable (_ < _))

/-- The state of the generator of secret multipliers. -/
structure Drbg where
  key : Bytes
  value : Bytes

/-- Both parts of the state mixed with a separator byte and some data. -/
def Drbg.mix (d : Drbg) (separator : UInt8) (data : Bytes) : Drbg :=
  let key := Sha256.keyed d.key (d.value ++ separator :: data)
  ⟨key, Sha256.keyed key d.value⟩

def Drbg.seeded (data : Bytes) : Drbg :=
  let d : Drbg := ⟨List.replicate 32 0x00, List.replicate 32 0x01⟩
  (d.mix 0x00 data).mix 0x01 data

/-- The first candidate that is a scalar; a candidate fails with probability below `2⁻¹²⁷`. -/
def Drbg.next? : (tries : Nat) → Drbg → Option Scalar
  | 0, _ => none
  | tries + 1, d =>
    let value := Sha256.keyed d.key d.value
    match Scalar.ofNat? (BigEndian.value value) with
    | some k => some k
    | none => next? tries (Drbg.mk d.key value |>.mix 0x00 [])

/-- The secret multiplier for a key and a digest. The generator is fed the digest as it is, even if
it is not below the group order. -/
def multiplier? (secret : Scalar) (digest : Block 32) : Option Scalar :=
  Drbg.next? 64 (Drbg.seeded (BigEndian.digits 32 secret.value ++ digest.bytes))

/-- The signature made with one secret multiplier, and whether the ordinate of the curve point it
belongs to is odd. -/
def signWith? (secret k : Scalar) (digest : Block 32) : Option (Pair × Bool) :=
  match multiple k.value with
  | none => none
  | some point =>
    let z := BigEndian.value digest.bytes % order
    let r := point.x % order
    let s := inverseMod order k.value * ((z + r * secret.value) % order) % order
    let odd := point.y % 2 = 1
    match Scalar.ofNat? r, Scalar.ofNat? s, Scalar.ofNat? (order - s) with
    | some r, some s, some t =>
      if (Pair.mk r s).High then some (⟨r, t⟩, !decide odd) else some (⟨r, s⟩, decide odd)
    | _, _, _ => none

def sign? (secret : Scalar) (digest : Block 32) : Option (Pair × Bool) :=
  (multiplier? secret digest).bind fun k => signWith? secret k digest

def verifies (point : Point) (p : Pair) (digest : Block 32) : Bool :=
  let z := BigEndian.value digest.bytes % order
  let w := inverseMod order p.s.value
  match combine (z * w % order) (p.r.value * w % order) point with
  | none => false
  | some q => !decide p.High && q.x % order == p.r.value

/-- The public point whose key made the signature, given the parity of the curve point's ordinate.
There is none when `r` is not the abscissa of a point or `s` is in the upper half. -/
def recover? (p : Pair) (odd : Bool) (digest : Block 32) : Option Point :=
  if p.High then none
  else
    match liftX p.r.value odd with
    | none => none
    | some point =>
      let z := BigEndian.value digest.bytes % order
      let w := inverseMod order p.r.value
      match combine ((order - z * w % order) % order) (p.s.value * w % order) point with
      | none => none
      | some q => if verifies q p digest then some q else none

theorem recover?_of_high {p : Pair} (h : p.High) (odd : Bool) (digest : Block 32) :
    recover? p odd digest = none := by
  simp [recover?, h]

end SignedNames.Ecdsa
