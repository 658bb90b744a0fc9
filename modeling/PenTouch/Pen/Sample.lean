import PenTouch.Plane

/-!
# Pen samples

A `PenSample` is the state of a pen in device units: positions run from `0` to `maxX` and `maxY`.
A `PenEvent` is the same state with its position in millimetres.
-/

namespace PenTouch

/-- What a pen reports of itself, apart from its position. -/
structure PenState (α : Type) where
  pressure : α
  /-- The tilt to the right, in degrees. -/
  tiltX : α
  /-- The tilt downwards, in degrees. -/
  tiltY : α
  /-- The pressed buttons, one bit each. -/
  buttons : UInt8
  /-- The pen is in range. -/
  proximity : Bool
  /-- The tip touches the panel. -/
  contact : Bool
  /-- The number of the pen; `0` if it is not known. -/
  serial : Nat

/-- The state of a pen in device units. -/
structure PenSample (α : Type) extends PenState α where
  x : α
  y : α

/-- The state of a pen with its position in millimetres. -/
structure PenEvent (α : Type) extends PenState α where
  position : Point α

variable {α : Type} [Scalar α]

/-- The largest horizontal device coordinate. -/
def maxX : α := 9600.0

/-- The largest vertical device coordinate. -/
def maxY : α := 7200.0

namespace PenState

def barrelBit : UInt8 := 1

def eraserBit : UInt8 := 2

def barrel (s : PenState α) : Bool := s.buttons &&& barrelBit ≠ 0

def eraser (s : PenState α) : Bool := s.buttons &&& eraserBit ≠ 0

/-- A pen that is not in range. -/
def outOfRange (serial : Nat) : PenState α where
  pressure := 0.0
  tiltX := 0.0
  tiltY := 0.0
  buttons := 0
  proximity := false
  contact := false
  serial

end PenState

namespace PenSample

/-- A pen that is not in range, without a position. -/
def outOfRange (serial : Nat) : PenSample α :=
  { PenState.outOfRange serial with x := 0.0, y := 0.0 }

/-- The position on a panel of the given size. -/
def physical (s : PenSample α) (width height : α) : Point α :=
  ⟨s.x / maxX * width, s.y / maxY * height⟩

/-- The sample as an event at a position. -/
def toEvent (s : PenSample α) (position : Point α) : PenEvent α :=
  { s.toPenState with position }

end PenSample

end PenTouch
