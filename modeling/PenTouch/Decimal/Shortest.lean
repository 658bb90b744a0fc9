import PenTouch.Decimal.Quantity
import PenTouch.Scalar.Double

/-!
# Shortest decimals

The decimal of fewest digits that is read back as the same double. All numbers closer to a double
than to its neighbours read back as it; the two midpoints belong to it if its mantissa is even.
On the grids of 1, 2, … 17 digits the two neighbours of the exact value are tried, and the first
grid on which one of them reads back decides.
-/

namespace PenTouch.Decimal

open Double (Binary)

/-- The numbers that are read as one double, in units of a quarter of its last binary place. -/
structure ReadBack where
  low : Nat
  value : Nat
  high : Nat
  /-- The two ends are read as the double too. -/
  closed : Bool
  unit : Int

/-- The numbers that are read as a given double. Below a power of two the doubles lie twice as
close. -/
def ReadBack.ofBinary (b : Binary) : ReadBack :=
  let closer := b.mantissa = Double.leadingBit ∧ -1074 < b.exponent
  { low := 4 * b.mantissa - (if closer then 1 else 2)
    value := 4 * b.mantissa
    high := 4 * b.mantissa + 2
    closed := b.mantissa % 2 = 0
    unit := b.exponent - 2 }

/-- Does `d · 10 ^ k` read back? -/
def ReadBack.contains (r : ReadBack) (d : Nat) (k : Int) : Bool :=
  let point := Quantity.mk (d * tenTo k.toNat) (tenTo (-k).toNat)
  let scale := Quantity.binary 1 r.unit
  let left := point.num * scale.den
  let right (x : Nat) := x * scale.num * point.den
  if r.closed then right r.low ≤ left && left ≤ right r.high
  else right r.low < left && left < right r.high

/-- The one of the two neighbours on the grid of step `10 ^ k` that reads back; if both do, the
nearer, and the upper one of two equally near. -/
def ReadBack.onGrid (r : ReadBack) (k : Int) : Option Digits :=
  let value := (Quantity.binary r.value r.unit).inUnits k
  let d := value.num / value.den
  let upperNearer := value.den ≤ 2 * (value.num % value.den)
  match r.contains d k, r.contains (d + 1) k with
  | true, true => some ⟨if upperNearer then d + 1 else d, k⟩
  | true, false => some ⟨d, k⟩
  | false, true => some ⟨d + 1, k⟩
  | false, false => none

/-- The shortest decimal of a double above zero. -/
def shortest (b : Binary) : Digits :=
  let r := ReadBack.ofBinary b
  let top := (Quantity.binary b.mantissa b.exponent).magnitude
  match (List.range 17).findSome? fun n => r.onGrid (top - (n : Nat)) with
  | some d => d.dropZero
  | none => (Quantity.binary b.mantissa b.exponent).significant 17

end PenTouch.Decimal
