import PenTouch.Scalar

/-!
# Pen settings

How pens are located from antenna readings, and the cone in which a pen's palm is ignored.
-/

namespace PenTouch

/-- How a pen is located from antenna readings. -/
structure PenSettings (α : Type) where
  /-- The smallest amplitude of a usable reading. -/
  minAmplitude : α
  /-- The antennas on each side of the strongest that count towards the position. -/
  windowRadius : Nat
  /-- The distance of the two electrodes that tell the tilt, in millimetres. -/
  tiltDistance : α
  /-- The number of row antennas of a panel that does not report it. -/
  defaultRows : Nat
  /-- The number of column antennas of a panel that does not report it. -/
  defaultColumns : Nat
  /-- The pressure of a fully pressed tip. -/
  maxPressure : α

/-- The cone in which a pen's palm is ignored. -/
structure ConeSettings (α : Type) where
  enabled : Bool
  /-- The half-width, in degrees. -/
  angle : α
  /-- The reach, in millimetres. -/
  distance : α
  /-- The age, in milliseconds, up to which a cone goes on rejecting touches. -/
  timeoutMs : Nat
  /-- The age, in milliseconds, at which a direction counts half as much as a new one. -/
  halfLifeMs : Nat

variable {α : Type} [Scalar α]

def PenSettings.default : PenSettings α where
  minAmplitude := 50.0
  windowRadius := 1
  tiltDistance := 6.0
  defaultRows := 44
  defaultColumns := 64
  maxPressure := 4096.0

def ConeSettings.default : ConeSettings α where
  enabled := true
  angle := 30.0
  distance := 50.0
  timeoutMs := 1000
  halfLifeMs := 1000

end PenTouch
