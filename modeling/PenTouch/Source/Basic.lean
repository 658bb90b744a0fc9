import PenTouch.Pen.Calibration
import PenTouch.Session.Event

/-!
# Sources

A source is connected, then read one event at a time, then disconnected. Connecting gives what the
device reports of its sensor; reading gives an event or says why there is none.
-/

namespace PenTouch

inductive SourceError where
  /-- The source is not connected. -/
  | notOpen
  /-- The source could not be connected. -/
  | openFailed (reason : String)
  /-- One event could not be read. -/
  | readFailed (reason : String)
  /-- There are no more events. -/
  | exhausted
  deriving DecidableEq, Repr

def SourceError.message : SourceError → String
  | notOpen => "event source not open"
  | openFailed reason => "failed to open event source: " ++ reason
  | readFailed reason => "failed to read event: " ++ reason
  | exhausted => "event source exhausted"

abbrev Connection := Except SourceError (Option (Metadata Float))

/-- The result of reading a source once. -/
abbrev Reading := Except SourceError Event

end PenTouch
