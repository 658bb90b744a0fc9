/-!
# Run settings

The limits of a run.
-/

namespace PenTouch

/-- How long a run goes on. -/
structure RunSettings where
  /-- The number of failed readings in a row that end a run. -/
  maxErrors : UInt32 := 50
  /-- The number of events after which a run ends; `0` for no limit. -/
  eventCount : UInt64 := 0

end PenTouch
