import PenTouch.Scalar

/-!
# Guarded scalars

The scalars with one value more, which a division by zero gives and no operation gets rid of. What
is computed over them is what would be computed without them as long as no divisor is zero, and is
undefined from the first such division on.

Nothing is done for an undefined value: it is not below or equal to any, itself included, and it
passes for finite, so that it is not mistaken for a number that is too small or too large.
-/

namespace PenTouch

/-- A scalar, or what is left of a division by zero. -/
inductive Guarded (α : Type) where
  | value (x : α)
  | undefined

namespace Guarded

variable {α : Type}

/-- What a function makes of a value. -/
def map (f : α → α) : Guarded α → Guarded α
  | value x => value (f x)
  | undefined => undefined

def map₂ (f : α → α → α) : Guarded α → Guarded α → Guarded α
  | value x, value y => value (f x y)
  | _, _ => undefined

/-- A relation of two values. -/
def Both (r : α → α → Prop) : Guarded α → Guarded α → Prop
  | value x, value y => r x y
  | _, _ => False

instance {r : α → α → Prop} [DecidableRel r] : DecidableRel (Both r)
  | value x, value y => inferInstanceAs (Decidable (r x y))
  | value _, undefined => isFalse not_false
  | undefined, _ => isFalse not_false

variable [Scalar α]

/-- The quotient, unless the divisor is zero. -/
def divide : Guarded α → Guarded α → Guarded α
  | value x, value y => if y == 0.0 then undefined else value (x / y)
  | _, _ => undefined

/-- The order of two values; an undefined one comes last. -/
def compareWith (order : α → α → Ordering) : Guarded α → Guarded α → Ordering
  | value x, value y => order x y
  | value _, undefined => .lt
  | undefined, value _ => .gt
  | undefined, undefined => .eq

instance : Scalar (Guarded α) where
  add := map₂ (· + ·)
  sub := map₂ (· - ·)
  mul := map₂ (· * ·)
  div := divide
  neg := map (-·)
  lt := Both (· < ·)
  le := Both (· ≤ ·)
  beq x y := Both (fun a b => (a == b) = true) x y
  ofScientific mantissa negative exponent :=
    value (OfScientific.ofScientific mantissa negative exponent)
  decidableLT := inferInstanceAs (DecidableRel (Both (· < ·)))
  decidableLE := inferInstanceAs (DecidableRel (Both (· ≤ ·)))
  ofNat n := value (Scalar.ofNat n)
  toNat
    | value x => Scalar.toNat x
    | undefined => 0
  isFinite
    | value x => Scalar.isFinite x
    | undefined => true
  unbounded := value Scalar.unbounded
  abs := map Scalar.abs
  sqrt := map Scalar.sqrt
  hypot := map₂ Scalar.hypot
  log := map Scalar.log
  exp := map Scalar.exp
  pow := map₂ Scalar.pow
  cos := map Scalar.cos
  atan2 := map₂ Scalar.atan2
  pi := value Scalar.pi
  order := compareWith Scalar.order

end Guarded

end PenTouch
