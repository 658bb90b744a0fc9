import PenTouch.Scalar.Double

/-!
# Reading decimals

The double closest to `± digits · 10 ^ exponent`. Exponents far beyond the range of doubles are
answered without forming the power of ten.
-/

namespace PenTouch.Decimal

/-- The number that a list of digits denotes in base `base`. -/
def ofDigits (base : Nat) (digits : List Nat) : Nat :=
  digits.foldl (fun n d => n * base + d) 0

/-- The double closest to `digits · 10 ^ exponent`. -/
def closest (digits : Nat) (exponent : Int) : Float :=
  let top : Int := (toString digits).length + exponent
  if digits = 0 ∨ top < -330 then 0.0
  else if top > 310 then Double.infinity
  else if exponent < 0 then Float.ofScientific digits true exponent.natAbs
  else Float.ofScientific digits false exponent.toNat

/-- The double closest to `± digits · 10 ^ exponent`; zero keeps its sign. -/
def closestSigned (negative : Bool) (digits : Nat) (exponent : Int) : Float :=
  if negative then -closest digits exponent else closest digits exponent

end PenTouch.Decimal
