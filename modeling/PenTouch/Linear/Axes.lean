import PenTouch.Scalar

/-!
# Principal axes

The eigenvalues of a symmetric matrix of order two, and the angle of its major axis.
-/

namespace PenTouch.Linear

/-- The symmetric matrix `[[xx, xy], [xy, yy]]`. -/
structure Symmetric (α : Type) where
  xx : α
  xy : α
  yy : α

/-- Lengths along and across the principal axis, and its angle in `[0, π)`. -/
structure Axes (α : Type) where
  major : α
  minor : α
  angle : α

variable {α : Type} [Scalar α]

/-- The eigenvalues lie about the mean of the diagonal; half the angle of the vector
`(xx - yy, 2 xy)` is the direction of the larger one. -/
def Symmetric.axes (m : Symmetric α) : Axes α :=
  let mean := (m.xx + m.yy) / 2.0
  let radius := Scalar.hypot ((m.xx - m.yy) / 2.0) m.xy
  let half := 0.5 * Scalar.atan2 (2.0 * m.xy) (m.xx - m.yy)
  { major := mean + radius
    minor := mean - radius
    angle := if half < 0.0 then half + Scalar.pi else half }

end PenTouch.Linear
