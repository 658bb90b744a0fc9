import PenTouch.Plane

/-!
# Contacts

A `Candidate` is a place where the panel is touched, with the size and direction of its shape. A
`Contact` is a candidate that has been given an identity and judged by its shape.

Positions run from `0` to `1` along each axis. Sizes are fractions of the panel's diagonal.
-/

namespace PenTouch

/-- What a contact's shape says about it. -/
inductive Validity where
  /-- Shaped like a finger. -/
  | valid
  /-- A palm, or an effect of the panel's edge. -/
  | invalid
  /-- The shape could not be measured. -/
  | undetermined
  deriving DecidableEq, Repr

/-- A contact counts as a touch unless it is known not to be one. -/
def Validity.isTouch (v : Validity) : Bool := v ≠ .invalid

/-- A touched place that has no identity yet. -/
structure Candidate (α : Type) where
  mean : Point α
  /-- The length along the principal axis. -/
  major : α
  /-- The length across the principal axis. -/
  minor : α
  /-- The angle of the principal axis, in radians. -/
  orientation : α

/-- A touched place with an identity that it keeps from frame to frame. -/
structure Contact (α : Type) extends Candidate α where
  id : Nat
  /-- The contact has been followed, at a steady size, through enough frames. -/
  stable : Bool
  validity : Validity

variable {α : Type} [Scalar α]

/-- The ratio of major to minor size, unbounded if there is no minor size. -/
def Candidate.aspect (c : Candidate α) : α :=
  if c.minor > 0.0 then c.major / c.minor else Scalar.unbounded

def Contact.physical (c : Contact α) (width height : α) : Point α := c.mean.scale width height

end PenTouch
