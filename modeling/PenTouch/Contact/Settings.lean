import PenTouch.Scalar

/-!
# Contact settings

The thresholds by which contacts are found, followed and judged. `TouchSettings.relative` gives
sizes as fractions of the panel's diagonal, `TouchSettings.metric` gives them in millimetres; all
other fields mean the same in both.
-/

namespace PenTouch

/-- How the level of an untouched panel is estimated. -/
inductive Neutral (α : Type) where
  /-- The most frequent level of the frame. -/
  | mode
  /-- The mean level of the frame. -/
  | average
  /-- A fixed level. -/
  | constant (level : α)

/-- The thresholds by which contacts are found, followed and judged. -/
structure TouchSettings (α : Type) where
  /-- A blob has a cell above this level. -/
  activation : α
  /-- A blob's cells are all above this level. -/
  deactivation : α
  neutral : Neutral α
  /-- The half-width, in cells, of the window in which a peak is fitted. -/
  fittingRadius : Nat
  /-- The farthest that a contact moves from one frame to the next. -/
  trackingDistance : α
  /-- The largest relative change of size from frame to frame of a steady contact. -/
  sizeTolerance : α
  /-- The number of steady frames after which a contact is stable. -/
  stabilityFrames : UInt32
  sizeMin : α
  sizeMax : α
  aspectMin : α
  aspectMax : α
  /-- The number of contacts reported in a frame at most. -/
  maxContacts : Nat

variable {α : Type} [Scalar α]

/-- Settings with sizes relative to the panel's diagonal. -/
def TouchSettings.relative : TouchSettings α where
  activation := 0.24
  deactivation := 0.20
  neutral := .mode
  fittingRadius := 2
  trackingDistance := 0.2
  sizeTolerance := 0.5
  stabilityFrames := 3
  sizeMin := 0.003
  sizeMax := 0.13
  aspectMin := 1.0
  aspectMax := 2.5
  maxContacts := 16

/-- Settings with sizes in millimetres. -/
def TouchSettings.metric : TouchSettings α :=
  { TouchSettings.relative with sizeMin := 1.0, sizeMax := 40.0 }

end PenTouch
