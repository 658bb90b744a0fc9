/-!
# Exact quantities and decimal grids

A `Quantity` is a non-negative fraction. The grid of step `10 ^ k` holds the whole multiples of
`10 ^ k`; rounding a quantity to a grid is one division, done exactly.
-/

namespace PenTouch.Decimal

/-- The whole number closest to `num / den`; of two equally close ones, the even one. -/
def roundDiv (num den : Nat) : Nat :=
  let quotient := num / den
  match compare (2 * (num % den)) den with
  | .lt => quotient
  | .eq => quotient + quotient % 2
  | .gt => quotient + 1

def tenTo (n : Nat) : Nat := Nat.pow 10 n

/-- The fraction `num / den`. -/
structure Quantity where
  num : Nat
  den : Nat

namespace Quantity

/-- The quantity `mantissa · 2 ^ exponent`. -/
def binary (mantissa : Nat) (exponent : Int) : Quantity :=
  ⟨mantissa <<< exponent.toNat, 1 <<< (-exponent).toNat⟩

/-- The quantity in units of `10 ^ k`. -/
def inUnits (q : Quantity) (k : Int) : Quantity :=
  ⟨q.num * tenTo (-k).toNat, q.den * tenTo k.toNat⟩

/-- The multiple of `10 ^ k` closest to the quantity. -/
def round (q : Quantity) (k : Int) : Nat :=
  roundDiv (q.inUnits k).num (q.inUnits k).den

/-- The largest multiple of `10 ^ k` not above the quantity. -/
def floor (q : Quantity) (k : Int) : Nat :=
  (q.inUnits k).num / (q.inUnits k).den

/-- A power of ten that the quantity reaches, and that no quantity reaches a hundredfold. -/
private def magnitudeBelow (q : Quantity) : Int :=
  ((q.num.log2 : Int) - q.den.log2 - 1) * 30103 / 100000

/-- The place of the first digit: the largest `k` with `10 ^ k` not above the quantity. -/
def magnitude (q : Quantity) : Int :=
  let k := q.magnitudeBelow
  if q.floor (k + 2) ≠ 0 then k + 2
  else if q.floor (k + 1) ≠ 0 then k + 1
  else if q.floor k ≠ 0 then k
  else k - 1

end Quantity

/-- The decimal `digits · 10 ^ exponent`. -/
structure Digits where
  digits : Nat
  exponent : Int
  deriving DecidableEq, Repr

/-- The same decimal without its last digit if that is a zero. -/
def Digits.dropZero (d : Digits) : Digits :=
  if d.digits % 10 = 0 then ⟨d.digits / 10, d.exponent + 1⟩ else d

/-- A quantity above zero, rounded to `n` significant digits. -/
def Quantity.significant (q : Quantity) (n : Nat) : Digits :=
  let k := q.magnitude - (n - 1 : Nat)
  let d := q.round k
  if d = tenTo n then ⟨tenTo (n - 1), k + 1⟩ else ⟨d, k⟩

end PenTouch.Decimal
