import PenTouch.Contact.Finder
import PenTouch.Pen.Estimator
import PenTouch.Raster
import PenTouch.Session.Counters
import PenTouch.Session.Event
import PenTouch.Session.Rejection
import PenTouch.Settings.Session

/-!
# Sessions

A session follows one device: it takes the device's events one after the other (`Session.process`)
and answers each with at most one output. Touches and pens meet only where the pens' cones screen
the contacts of a frame.
-/

namespace PenTouch

structure Session where
  settings : SessionSettings
  metadata : Option (Metadata Float)
  /-- The intensities of the latest usable frame. -/
  heat : Grid Float := .empty
  finder : Finder Float
  /-- The contacts of the latest frame. -/
  contacts : List (Contact Float) := []
  estimator : Estimator Float
  pens : PenTable
  counters : Counters := {}

def SettingsError.refusal (e : SettingsError) : String := "invalid configuration: " ++ e.message

namespace Session

def new (settings : SessionSettings) (metadata : Option (Metadata Float)) : Session where
  settings
  metadata
  finder := { settings := settings.contacts }
  estimator := .new settings.pen settings.width settings.height metadata
  pens := .new settings.cone

/-- Starts a session if the settings allow it. -/
def start (settings : SessionSettings) (metadata : Option (Metadata Float)) :
    Except SettingsError Session := do
  settings.validate
  .ok (new settings metadata)

/-- The panel's size in millimetres. -/
def panel (s : Session) : Panel := ⟨s.settings.width, s.settings.height⟩

/-- Counts a frame as received, and as malformed if it is. -/
def countFrame (s : Session) (f : Frame) : Session :=
  { s with counters := { s.counters with
      frames := s.counters.frames + 1
      malformed := s.counters.malformed + if f.isValid then 0 else 1 } }

/-- Finds and screens the contacts of a usable frame, given its intensities. -/
def touchWith (s : Session) (f : Frame) (heat : Grid Float) : Session :=
  let (finder, found) := s.finder.find heat
  let screened := s.pens.screen s.panel found f.time
  let resized := s.heat.rows ≠ f.height ∨ s.heat.cols ≠ f.width
  { s with
    heat
    finder
    contacts := screened.contacts
    pens := screened.pens
    counters := { s.counters with
      contacts := s.counters.contacts + screened.contacts.length
      rejected := s.counters.rejected + screened.rejected
      resizes := s.counters.resizes + if resized then 1 else 0
      activeCones := screened.pens.activeCount f.time } }

/-- A frame: its contacts, or nothing if the frame cannot be used. That memory for its grids is
found is taken for granted, however many cells it has. -/
def processFrame (s : Session) (f : Frame) : Session × Option Output :=
  let s := s.countFrame f
  if f.isUsable then
    let s := s.touchWith f (f.heatOver s.heat)
    (s, some (.contacts s.contacts))
  else ({ s with contacts := [] }, none)

/-- A sample of a pen, as an event with its position in millimetres. -/
def processSample (s : Session) (sample : PenSample Float) (now : Time) :
    Session × Option Output :=
  let position := sample.physical s.settings.width s.settings.height
  ({ s with
      pens := s.pens.report sample position now
      counters := { s.counters with samples := s.counters.samples + 1 } },
    some (.pen (sample.toEvent position)))

/-- An antenna window, as the sample that is estimated after it. -/
def processWindow (s : Session) (w : Window Float) : Session × Option Output :=
  let estimator := s.estimator.input w
  let counters := { s.counters with windows := s.counters.windows + 1 }
  { s with estimator, counters }.processSample estimator.sample w.time

/-- The session after an event, and its answer. -/
def process (s : Session) : Event → Session × Option Output
  | .frame f => s.processFrame f
  | .pen sample time => s.processSample sample time
  | .window w => s.processWindow w

/-- The session after a list of events, and its answers in order. -/
def processAll (s : Session) : List Event → Session × List Output
  | [] => (s, [])
  | e :: es =>
    let (s, answer) := s.process e
    let (s, answers) := s.processAll es
    (s, answer.toList ++ answers)

def summary (s : Session) : String :=
  Text.partialRecord "FrameProcessor"
    [("heatmap", s.heat.raster.summary), ("contacts", toString s.contacts.length),
      ("styli", toString s.pens.pens.length), ("stats", s.counters.summary)]

end Session

end PenTouch
