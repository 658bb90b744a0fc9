import PenTouch.Contact.Basic
import PenTouch.Frame
import PenTouch.Pen.Sample
import PenTouch.Pen.Window

/-!
# What goes into a session and what comes out

A device reports heatmap frames, pen samples and antenna windows, in any order. A session answers
each with the contacts of the frame or with an event of the pen, or not at all.
-/

namespace PenTouch

/-- Something that a device reports. -/
inductive Event where
  | frame (frame : Frame)
  | pen (sample : PenSample Float) (time : Time)
  | window (window : Window Float)

def Event.time : Event → Time
  | frame f => f.time
  | pen _ time => time
  | window w => w.time

def Event.receivedAt (time : Time) : Event → Event
  | frame f => frame { f with time }
  | pen sample _ => pen sample time
  | window w => window { w with time }

/-- The event as received later. -/
def Event.delay (span : Span) : Event → Event
  | frame f => frame { f with time := f.time + span }
  | pen sample time => pen sample (time + span)
  | window w => window { w with time := w.time + span }

/-- Something that a session reports. -/
inductive Output where
  /-- All contacts of a frame. -/
  | contacts (contacts : List (Contact Float))
  /-- What a pen did. -/
  | pen (event : PenEvent Float)

/-- The contacts of a frame. -/
def Output.contacts? : Output → Option (List (Contact Float))
  | contacts cs => some cs
  | pen _ => none

/-- What a pen did. -/
def Output.pen? : Output → Option (PenEvent Float)
  | contacts _ => none
  | pen e => some e

end PenTouch
