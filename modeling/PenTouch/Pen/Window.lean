import PenTouch.Scalar
import PenTouch.Time

/-!
# Antenna windows

A window is a burst of complex readings from neighbouring antennas. Row antennas resolve the
vertical axis, column antennas the horizontal one; a pressure window has one reading for each
frequency in its rows.
-/

namespace PenTouch

/-- The reading of one antenna, a complex coefficient. -/
structure Antenna (α : Type) where
  real : α
  imag : α

namespace Antenna

variable {α : Type} [Scalar α]

def amplitude (a : Antenna α) : α := Scalar.hypot a.real a.imag

def phase (a : Antenna α) : α := Scalar.atan2 a.imag a.real

/-- The product of two amplitudes and the cosine of the angle between them: above zero if the two
are in phase. -/
def coherence (a b : Antenna α) : α := a.real * b.real + a.imag * b.imag

def energy (a : Antenna α) : α := a.real * a.real + a.imag * a.imag

end Antenna

/-- What a window measures. -/
inductive WindowKind where
  /-- The position of the tip. -/
  | position
  /-- The position of the second electrode, farther up the pen. -/
  | tilt
  /-- The pressure, as the frequency at which the pen answers. -/
  | pressure
  /-- The buttons, by the phase of the answer. -/
  | button
  /-- Something that is not understood. -/
  | unknown (code : Nat)
  deriving DecidableEq, Repr

/-- A burst of readings. -/
structure Window (α : Type) where
  kind : WindowKind
  rows : List (Antenna α)
  columns : List (Antenna α)
  /-- The number of the first row antenna of the window. -/
  firstRow : Nat
  /-- The number of the first column antenna of the window. -/
  firstColumn : Nat
  time : Time

def Window.energy {α : Type} [Scalar α] (w : Window α) : α :=
  (w.rows ++ w.columns).foldl (fun sum a => sum + a.energy) 0.0

end PenTouch
