import PenTouch.Scalar

/-!
# Time

Times are whole nanoseconds since a common start. An age is cut off at zero, so something from the
future counts as new.
-/

namespace PenTouch

/-- Nanoseconds since a common start. -/
abbrev Time := Nat

/-- A length of time in nanoseconds. -/
abbrev Span := Nat

namespace Span

def ofMilliseconds (ms : Nat) : Span := ms * 1000000

/-- The whole seconds and the rest, as one number. -/
def seconds {α : Type} [Scalar α] (s : Span) : α :=
  Scalar.ofNat (s / 1000000000) + Scalar.ofNat (s % 1000000000) / 1e9

end Span

/-- A value with the time of its latest update. -/
structure Stamped (β : Type) where
  value : β
  time : Time

/-- The time that has passed since the update. -/
def Stamped.age {β : Type} (s : Stamped β) (now : Time) : Span := now - s.time

end PenTouch
