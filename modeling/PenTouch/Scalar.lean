/-!
# Scalars

Positions, lengths and intensities are computed over a `Scalar`: an ordered type with the four
operations, the elementary functions that fitting and calibration need, and decimal literals.
Every numeric definition is written once over the class, in the order in which its operations are
carried out; doubles are one instance, and exact numbers can be another.

* `Scalar.clamp` confines a value to an interval and passes an unordered value through.
* `Scalar.positivePart` is `max x 0`, and `0` for an unordered value.
-/

namespace PenTouch

/-- An ordered type of numbers with the elementary functions. -/
class Scalar (α : Type) extends Add α, Sub α, Mul α, Div α, Neg α, LT α, LE α, BEq α,
    OfScientific α where
  decidableLT : DecidableLT α
  decidableLE : DecidableLE α
  /-- The scalar closest to a count. -/
  ofNat : Nat → α
  /-- The number of whole units; `0` below zero and for an unordered value. -/
  toNat : α → Nat
  /-- The value is a number, neither unbounded nor unordered. -/
  isFinite : α → Bool
  /-- A ratio to nothing, above every number. -/
  unbounded : α
  abs : α → α
  sqrt : α → α
  /-- The length of the vector with the given components. -/
  hypot : α → α → α
  log : α → α
  exp : α → α
  pow : α → α → α
  cos : α → α
  /-- The angle of the vector `(x, y)`, given as `atan2 y x`. -/
  atan2 : α → α → α
  pi : α
  /-- A total order that agrees with `<` on numbers and also places the unordered values. -/
  order : α → α → Ordering

namespace Scalar

variable {α : Type} [Scalar α]

instance : DecidableLT α := Scalar.decidableLT

instance : DecidableLE α := Scalar.decidableLE

/-- The distance from one to the next larger double, `2⁻⁵²`. -/
def epsilon : α := 1.0 / ofNat (Nat.pow 2 52)

/-- The point of `[lo, hi]` closest to `x`; an unordered `x` is returned as it is. -/
@[inline] def clamp (x lo hi : α) : α :=
  if x < lo then lo else if x > hi then hi else x

/-- The larger of `x` and zero; zero for an unordered `x`. -/
@[inline] def positivePart (x : α) : α :=
  if x > 0.0 then x else 0.0

/-- The larger of two values; the ordered one of them if the other is unordered. -/
@[inline] def larger (x y : α) : α :=
  if x < y then y else if x == x then x else y

/-- An angle in degrees, in radians. -/
def radians (degrees : α) : α := degrees * (pi / 180.0)

/-- An angle in radians, in degrees. -/
def degrees (radians : α) : α := radians * (180.0 / pi)

end Scalar

end PenTouch
