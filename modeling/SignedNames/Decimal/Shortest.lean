import SignedNames.Decimal.Binary64

/-!
# Shortest decimal digits

The fewest significant digits that read back as the same floating-point number; among those, the
ones nearest to it. All comparisons are between whole numbers.
-/
namespace SignedNames.Decimal

/-- Digits `d₀d₁…` that stand for `d₀.d₁… * 10 ^ exponent`. -/
structure Digits where
  value : Nat
  count : Nat
  exponent : Int
deriving DecidableEq

namespace Shortest

structure Ratio where
  numerator : Nat
  denominator : Nat

def Ratio.power (base : Nat) (exponent : Int) : Ratio :=
  if 0 ≤ exponent then ⟨base.pow exponent.toNat, 1⟩ else ⟨1, base.pow exponent.natAbs⟩

def Ratio.over (a b : Ratio) : Ratio :=
  ⟨a.numerator * b.denominator, a.denominator * b.numerator⟩

/-- Whether the number is at least a power of ten. -/
def reaches (b : Binary64) (exponent : Int) : Bool :=
  let unit := (Ratio.power 2 b.exponent).over (Ratio.power 10 exponent)
  unit.denominator ≤ b.mantissa * unit.numerator

/-- The exponent of the leading decimal digit of a positive number; `1233 / 4096` is close to the
decimal logarithm of two. -/
def leadingExponent (b : Binary64) : Int :=
  let guess := (b.mantissa.log2 + b.exponent) * 1233 / 4096
  if reaches b (guess + 1) then guess + 1 else if reaches b guess then guess else guess - 1

/-- The nearest number of `count` digits that reads back, if any does. A quarter of the distance
between neighbouring numbers serves as the unit, so that the borders of the interval are whole. -/
def candidate? (b : Binary64) (leading : Int) (count : Nat) : Option Nat :=
  let unit := (Ratio.power 2 (b.exponent - 2)).over (Ratio.power 10 (leading - count + 1))
  let exact := 4 * b.mantissa * unit.numerator
  let low := (4 * b.mantissa - if b.AtPowerOfTwo then 1 else 2) * unit.numerator
  let high := (4 * b.mantissa + 2) * unit.numerator
  let inside (d : Nat) : Bool :=
    let x := d * unit.denominator
    if b.mantissa % 2 = 0 then low ≤ x && x ≤ high else low < x && x < high
  let below := exact / unit.denominator
  let above := below + 1
  let gapBelow := exact - below * unit.denominator
  let gapAbove := above * unit.denominator - exact
  let nearer := if gapBelow < gapAbove ∨ (gapBelow = gapAbove ∧ below % 2 = 0) then below else above
  if inside nearer then some nearer
  else if inside below then some below
  else if inside above then some above
  else none

def digits (b : Binary64) : Digits :=
  let leading := leadingExponent b
  let found := (List.range 17).findSome? fun i => (candidate? b leading (i + 1)).map (·, i + 1)
  match found with
  | some (d, count) => if d = Nat.pow 10 count then ⟨1, 1, leading + 1⟩ else ⟨d, count, leading⟩
  | none => ⟨0, 1, 0⟩

end Shortest

/-- Where numbers are written positionally and how exponents look. -/
structure Layout where
  /-- The least exponent written positionally. -/
  least : Int
  /-- The greatest exponent written positionally. -/
  greatest : Int
  /-- The mark before a positive exponent. -/
  plus : String

/-- A number in scientific or positional notation, always with a fraction in the latter. -/
def Layout.write (layout : Layout) (d : Digits) : String :=
  let ds := (toString d.value).toList
  if layout.least ≤ d.exponent ∧ d.exponent ≤ layout.greatest then
    if d.exponent < 0 then
      String.ofList ('0' :: '.' :: List.replicate (d.exponent.natAbs - 1) '0' ++ ds)
    else
      let whole := d.exponent.toNat + 1
      let padded := ds ++ List.replicate (whole - ds.length) '0'
      let fraction := padded.drop whole
      String.ofList (padded.take whole ++ '.' :: (if fraction = [] then ['0'] else fraction))
  else
    let rest := ds.drop 1
    let head := ds.take 1 ++ (if rest = [] then [] else '.' :: rest)
    let sign := if d.exponent < 0 then "-" else layout.plus
    String.ofList head ++ "e" ++ sign ++ toString d.exponent.natAbs

def Layout.text (layout : Layout) (bits : UInt64) : String :=
  let b := Binary64.ofBits bits
  let d := if b.mantissa = 0 then ⟨0, 1, 0⟩ else Shortest.digits b
  (if b.negative then "-" else "") ++ layout.write d

end SignedNames.Decimal
