/-!
# The curve secp256k1

Points of `y² = x³ + 7` over the field of `fieldSize` elements, and the group of `order` elements
that `generator` spans. Sums are computed in Jacobian coordinates, where `(x, y, z)` stands for the
affine point `(x / z², y / z³)` and `z = 0` for the neutral element.
-/
namespace SignedNames.Secp256k1

/-- The prime `2 ^ 256 - 2 ^ 32 - 977`. -/
def fieldSize : Nat := 0xfffffffffffffffffffffffffffffffffffffffffffffffffffffffefffffc2f

def order : Nat := 0xfffffffffffffffffffffffffffffffebaaedce6af48a03bbfd25e8cd0364141

/-- The low 256 bits of a number, most significant first. -/
def bits (n : Nat) : List Bool := (List.range 256).reverse.map n.testBit

/-- `base ^ exponent` modulo `m` for an exponent below `2 ^ 256`, by repeated squaring. -/
def powMod (m base exponent : Nat) : Nat :=
  (bits exponent).foldl (fun power bit =>
    let square := power * power % m
    if bit then square * base % m else square) (1 % m)

/-- The inverse modulo a prime, zero for zero. -/
def inverseMod (m a : Nat) : Nat := powMod m (a % m) (m - 2)

def add (a b : Nat) : Nat := (a + b) % fieldSize
def sub (a b : Nat) : Nat := (a + (fieldSize - b % fieldSize)) % fieldSize
def mul (a b : Nat) : Nat := a * b % fieldSize

/-- A root of a square; the field size leaves remainder three on division by four. -/
def squareRoot (a : Nat) : Nat := powMod fieldSize a ((fieldSize + 1) / 4)

structure Point where
  x : Nat
  y : Nat
deriving DecidableEq

/-- The equation of the curve, for reduced coordinates. -/
def Point.OnCurve (p : Point) : Prop :=
  p.x < fieldSize ∧ p.y < fieldSize ∧ mul p.y p.y = add (mul p.x (mul p.x p.x)) 7

instance (p : Point) : Decidable p.OnCurve := inferInstanceAs (Decidable (_ ∧ _ ∧ _))

def generator : Point :=
  ⟨0x79be667ef9dcbbac55a06295ce870b07029bfcdb2dce28d959f2815b16f81798,
    0x483ada7726a3c4655da4fbfc0e1108a8fd17b448a68554199c47d08ffb10d4b8⟩

/-- The point with this abscissa whose ordinate has the given parity, if there is one. -/
def liftX (x : Nat) (odd : Bool) : Option Point :=
  if x < fieldSize then
    let square := add (mul x (mul x x)) 7
    let root := squareRoot square
    if mul root root = square then
      some ⟨x, if (root % 2 = 1) = (odd = true) then root else sub 0 root⟩
    else none
  else none

structure Jacobian where
  x : Nat
  y : Nat
  z : Nat

namespace Jacobian

def neutral : Jacobian := ⟨1, 1, 0⟩

def ofPoint (p : Point) : Jacobian := ⟨p.x, p.y, 1⟩

/-- The affine point, unless the sum is the neutral element. -/
def toPoint? (p : Jacobian) : Option Point :=
  if p.z = 0 then none
  else
    let i := inverseMod fieldSize p.z
    let i2 := mul i i
    some ⟨mul p.x i2, mul p.y (mul i2 i)⟩

def double (p : Jacobian) : Jacobian :=
  if p.z = 0 ∨ p.y = 0 then neutral
  else
    let yy := mul p.y p.y
    let s := mul 4 (mul p.x yy)
    let m := mul 3 (mul p.x p.x)
    let x := sub (mul m m) (mul 2 s)
    ⟨x, sub (mul m (sub s x)) (mul 8 (mul yy yy)), mul 2 (mul p.y p.z)⟩

def sum (p q : Jacobian) : Jacobian :=
  if p.z = 0 then q
  else if q.z = 0 then p
  else
    let pz2 := mul p.z p.z
    let qz2 := mul q.z q.z
    let u1 := mul p.x qz2
    let u2 := mul q.x pz2
    let s1 := mul p.y (mul q.z qz2)
    let s2 := mul q.y (mul p.z pz2)
    if u1 = u2 then
      if s1 = s2 then double p else neutral
    else
      let h := sub u2 u1
      let r := sub s2 s1
      let hh := mul h h
      let hhh := mul h hh
      let v := mul u1 hh
      let x := sub (sub (mul r r) hhh) (mul 2 v)
      ⟨x, sub (mul r (sub v x)) (mul s1 hhh), mul h (mul p.z q.z)⟩

/-- The multiple of a point by a number below `2 ^ 256`, by doubling and adding. -/
def scale (n : Nat) (p : Jacobian) : Jacobian :=
  (bits n).foldl (fun multiple bit =>
    let twice := double multiple
    if bit then sum twice p else twice) neutral

end Jacobian

/-- `a * generator + b * p`, unless it is the neutral element. -/
def combine (a b : Nat) (p : Point) : Option Point :=
  (Jacobian.sum (Jacobian.scale a (Jacobian.ofPoint generator))
    (Jacobian.scale b (Jacobian.ofPoint p))).toPoint?

def multiple (n : Nat) : Option Point :=
  (Jacobian.scale n (Jacobian.ofPoint generator)).toPoint?

end SignedNames.Secp256k1
