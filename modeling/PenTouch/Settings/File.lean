import PenTouch.Settings.Run
import PenTouch.Settings.Session
import PenTouch.Toml.Node

/-!
# Settings files

A file has a section for each group of settings. What it leaves out keeps its default, and what is
not known in it is ignored. A section is a table, or an array with the values of its fields in
order. The tree of a file is read by a parser that is given (`FileSettings.ofText`).
-/

namespace PenTouch

/-- Everything that a settings file says. -/
structure FileSettings where
  width : Float := 260.0
  height : Float := 173.0
  touch : TouchSettings Float := .metric
  pen : PenSettings Float := .default
  cone : ConeSettings Float := .default
  run : RunSettings := {}
  /-- The port of the metrics server; `0` for none. -/
  port : Nat := 9090

def FileSettings.session (f : FileSettings) : SessionSettings :=
  { width := f.width, height := f.height, touch := f.touch, pen := f.pen, cone := f.cone }

namespace Toml

/-! ## Fields -/

/-- The fields of a section. -/
inductive Section where
  | named (entries : Entries)
  | listed (items : List Node)

/-- A value as a section. A date is a section without known fields. -/
def Node.section? : Node → Option Section
  | .table _ entries => some (.named entries)
  | .array items => some (.listed items)
  | .tables latest earlier =>
    some (.listed ((latest :: earlier).reverse.map (.table .opened)))
  | .moment => some (.named [])
  | _ => none

/-- The value of a field, found by its name or its place. -/
def Section.find? (s : Section) (place : Nat) (name : String) : Option Node :=
  match s with
  | .named entries => entries.lookup name
  | .listed items => items[place]?

/-- A field read by `decode`, or its default if the section does not have it. -/
def Section.field {β : Type} (s : Section) (place : Nat) (name : String)
    (decode : Node → Option β) (default : β) : Option β :=
  match s.find? place name with
  | none => some default
  | some node => decode node

/-- A number; whole numbers are numbers too. -/
def Node.number? : Node → Option Float
  | .integer n => some (Float.ofInt n)
  | .float x => some x
  | _ => none

/-- A whole number from zero to `most`. -/
def Node.count? (most : Nat) : Node → Option Nat
  | .integer n => if 0 ≤ n ∧ n ≤ most then some n.toNat else none
  | _ => none

def Node.boolean? : Node → Option Bool
  | .boolean b => some b
  | _ => none

/-- A value that says nothing, under a name that needs no value. -/
def Node.isVoid : Node → Bool
  | .table _ entries => entries.isEmpty
  | .array items => items.isEmpty
  | _ => false

/-- The estimate of the untouched level: its name, or a table of its name and its value. -/
def Node.neutral? : Node → Option (Neutral Float)
  | .string "mode" => some .mode
  | .string "average" => some .average
  | .table _ [("mode", node)] => if node.isVoid then some .mode else none
  | .table _ [("average", node)] => if node.isVoid then some .average else none
  | .table _ [("constant", node)] => node.number?.map .constant
  | _ => none

/-! ## Sections -/

/-- The largest whole numbers of 16, 32 and 64 bits. -/
def most16 : Nat := UInt16.size - 1

def most32 : Nat := UInt32.size - 1

def most64 : Nat := UInt64.size - 1

def Section.display? (s : Section) : Option (Float × Float) := do
  let default : FileSettings := {}
  let width ← s.field 0 "width" Node.number? default.width
  let height ← s.field 1 "height" Node.number? default.height
  some (width, height)

def Section.touch? (s : Section) : Option (TouchSettings Float) := do
  let default : TouchSettings Float := .metric
  let activation ← s.field 0 "activation_threshold" Node.number? default.activation
  let deactivation ← s.field 1 "deactivation_threshold" Node.number? default.deactivation
  let neutral ← s.field 2 "neutral" Node.neutral? default.neutral
  let fittingRadius ← s.field 3 "fitting_radius" (Node.count? most64) default.fittingRadius
  let trackingDistance ← s.field 4 "tracking_distance" Node.number? default.trackingDistance
  let sizeTolerance ← s.field 5 "size_tolerance" Node.number? default.sizeTolerance
  let stability ← s.field 6 "stability_frames" (Node.count? most32) default.stabilityFrames.toNat
  let sizeMin ← s.field 7 "size_min" Node.number? default.sizeMin
  let sizeMax ← s.field 8 "size_max" Node.number? default.sizeMax
  let aspectMin ← s.field 9 "aspect_min" Node.number? default.aspectMin
  let aspectMax ← s.field 10 "aspect_max" Node.number? default.aspectMax
  let maxContacts ← s.field 11 "max_contacts" (Node.count? most64) default.maxContacts
  some { activation, deactivation, neutral, fittingRadius, trackingDistance, sizeTolerance,
         stabilityFrames := .ofNat stability, sizeMin, sizeMax, aspectMin, aspectMax, maxContacts }

def Section.pen? (s : Section) : Option (PenSettings Float) := do
  let default : PenSettings Float := .default
  let minAmplitude ← s.field 0 "min_amplitude" Node.number? default.minAmplitude
  let windowRadius ← s.field 1 "window_radius" (Node.count? most64) default.windowRadius
  let tiltDistance ← s.field 2 "tilt_distance" Node.number? default.tiltDistance
  let defaultRows ← s.field 3 "default_rows" (Node.count? most32) default.defaultRows
  let defaultColumns ← s.field 4 "default_columns" (Node.count? most32) default.defaultColumns
  let maxPressure ← s.field 5 "max_pressure" Node.number? default.maxPressure
  some { minAmplitude, windowRadius, tiltDistance, defaultRows, defaultColumns, maxPressure }

def Section.cone? (s : Section) : Option (ConeSettings Float) := do
  let default : ConeSettings Float := .default
  let enabled ← s.field 0 "enabled" Node.boolean? default.enabled
  let angle ← s.field 1 "angle" Node.number? default.angle
  let distance ← s.field 2 "distance" Node.number? default.distance
  let timeoutMs ← s.field 3 "timeout_ms" (Node.count? most64) default.timeoutMs
  let halfLifeMs ← s.field 4 "half_life_ms" (Node.count? most64) default.halfLifeMs
  some { enabled, angle, distance, timeoutMs, halfLifeMs }

def Section.run? (s : Section) : Option RunSettings := do
  let default : RunSettings := {}
  let maxErrors ← s.field 0 "max_errors" (Node.count? most32) default.maxErrors.toNat
  let eventCount ← s.field 1 "event_count" (Node.count? most64) default.eventCount.toNat
  some { maxErrors := .ofNat maxErrors, eventCount := .ofNat eventCount }

def Section.port? (s : Section) : Option Nat :=
  s.field 0 "port" (Node.count? most16) ({} : FileSettings).port

/-- A section of a file read by `decode`; a missing section is an empty one. -/
def Entries.section? {β : Type} (file : Entries) (name : String) (decode : Section → Option β) :
    Option β :=
  match file.lookup name with
  | none => decode (.named [])
  | some node => node.section?.bind decode

/-- What the tree of a file says. -/
def Entries.settings? (file : Entries) : Option FileSettings := do
  let (width, height) ← file.section? "display" Section.display?
  let touch ← file.section? "touch" Section.touch?
  let pen ← file.section? "stylus" Section.pen?
  let cone ← file.section? "cone" Section.cone?
  let run ← file.section? "runner" Section.run?
  let port ← file.section? "metrics" Section.port?
  some { width, height, touch, pen, cone, run, port }

end Toml

/-- Reads the text of a settings file with a parser; a session may start with what it says. -/
def FileSettings.ofText (parse? : String → Option Toml.Entries) (text : String) :
    Except SettingsError FileSettings :=
  match (parse? text).bind Toml.Entries.settings? with
  | none => .error .malformed
  | some f => do
    f.session.validate
    .ok f

end PenTouch
