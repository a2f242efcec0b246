/-!
# Binary floating-point numbers

A finite number of 64 bits is a sign, a whole number `mantissa` and a power of two. This module
takes the bits apart and reads decimal notation into them.
-/
namespace SignedNames.Decimal

/-- The value `mantissa * 2 ^ exponent`, negated if `negative`. -/
structure Binary64 where
  negative : Bool
  mantissa : Nat
  exponent : Int
deriving DecidableEq

namespace Binary64

/-- The value of the leading bit of a mantissa, which a bit pattern leaves out. -/
def leadingBit : Nat := 0x10000000000000

/-- The parts of a bit pattern, infinities and the like read as if they were finite. -/
def ofBits (bits : UInt64) : Binary64 :=
  let n : Nat := bits.toNat
  let fraction : Nat := n % leadingBit
  let raised : Nat := n / leadingBit % 2048
  ⟨0x8000000000000000 ≤ n,
    if raised = 0 then fraction else fraction + leadingBit,
    if raised = 0 then -1074 else Int.ofNat raised - 1075⟩

/-- Whether the next smaller number is only half as far away as the next larger one. -/
def AtPowerOfTwo (b : Binary64) : Prop := b.mantissa = leadingBit ∧ -1074 < b.exponent

instance (b : Binary64) : Decidable b.AtPowerOfTwo := inferInstanceAs (Decidable (_ ∧ _))

end Binary64

/-- A power of ten up to 308. -/
def powerOfTen (n : Nat) : Float := Float.ofScientific 1 false n

/-- The number `f * 10 ^ exponent` with one rounding for each multiplication or division, and none
if it is too large. Numbers below the smallest become zero after at most three divisions. -/
def scaled : (steps : Nat) → Float → Int → Option Float
  | 0, f, _ => some f
  | steps + 1, f, exponent =>
    if exponent.natAbs ≤ 308 then
      if 0 ≤ exponent then
        let g := f * powerOfTen exponent.toNat
        if g.isInf then none else some g
      else some (f / powerOfTen exponent.natAbs)
    else if f == 0 then some f
    else if 0 ≤ exponent then none
    else scaled steps (f / powerOfTen 308) (exponent + 308)

/-- The bits of `significand * 10 ^ exponent`, negated if `negative`. -/
def bitsOfScientific? (negative : Bool) (significand : UInt64) (exponent : Int) : Option UInt64 :=
  (scaled 8 significand.toFloat exponent).map fun f => (if negative then -f else f).toBits

end SignedNames.Decimal
