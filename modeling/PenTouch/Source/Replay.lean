import PenTouch.Source.Basic

/-!
# Recorded sessions

A recording gives its events once, in order; disconnecting it keeps the place.
-/

namespace PenTouch

/-- A recorded session and what is left of it. -/
structure Replay where
  events : List Event
  metadata : Option (Metadata Float) := none
  isOpen : Bool := false

namespace Replay

/-- A recording can always be connected. -/
def connect (r : Replay) : Connection × Replay := (.ok r.metadata, { r with isOpen := true })

def next (r : Replay) : Reading × Replay :=
  if !r.isOpen then (.error .notOpen, r)
  else match r.events with
    | [] => (.error .exhausted, r)
    | e :: events => (.ok e, { r with events })

def disconnect (r : Replay) : Replay := { r with isOpen := false }

end Replay

end PenTouch
