import PenTouch.Contact.Basic
import PenTouch.Contact.Settings
import PenTouch.Decimal.Text
import PenTouch.Measure

/-!
# A survey of contact shapes

A survey records the size and the aspect ratio of every stable contact, so that the thresholds can
be fitted to a panel and to the hands that touch it. Its summary suggests thresholds that admit
what was observed.
-/

namespace PenTouch

/-- The measured shape of a contact. -/
structure Shape where
  /-- The length along the principal axis in millimetres. -/
  length : Measure
  /-- The ratio of the length to the width. -/
  aspect : Measure

/-- The shape of a contact on a panel with a diagonal in millimetres. -/
def Contact.shape (c : Contact Float) (diagonal : Float) : Shape where
  length := .ofOperation c.major diagonal (c.major * diagonal)
  aspect := .ofOperation c.major c.minor c.aspect

/-- The shapes that have been recorded on a panel. -/
structure Survey where
  /-- The panel's diagonal in millimetres. -/
  diagonal : Float
  shapes : List Shape := []

/-- What a survey has found. -/
structure Survey.Summary where
  /-- The number of recorded contacts. -/
  samples : Nat
  /-- The lengths in millimetres. -/
  length : Distribution
  aspect : Distribution

namespace Survey

/-- Records the stable ones of a frame's contacts. -/
def record (s : Survey) (contacts : List (Contact Float)) : Survey :=
  { s with shapes := s.shapes ++ (contacts.filter (·.stable)).map (·.shape s.diagonal) }

def summary? (s : Survey) : Option Summary := do
  let length ← Distribution.ofMeasures? (s.shapes.map (·.length))
  let aspect ← Distribution.ofMeasures? (s.shapes.map (·.aspect))
  some { samples := s.shapes.length, length, aspect }

/-- The parts of a unit to which a suggested ratio is rounded up. -/
def tenths : Float := 10.0

/-- The settings with limits that admit the surveyed shapes: whole millimetres and tenths of a
ratio, rounded outwards. -/
def Summary.suggest (s : Summary) (touch : TouchSettings Float) : TouchSettings Float :=
  { touch with
    sizeMin := Scalar.positivePart (Double.floor s.length.low.value)
    sizeMax := Double.ceil s.length.high.value
    aspectMin := 1.0
    aspectMax := Double.ceil (s.aspect.high.value * tenths) / tenths }

/-- A number with three decimals. -/
def decimals (x : Float) : String := Decimal.fixed 3 x

/-- The mean of a distribution and its limits, each with a unit. -/
def range (d : Distribution) (unit : String) : String :=
  let amount (x : Float) : String := decimals x ++ unit
  s!"{amount d.mean} (Min: {amount d.low.value}; Max: {amount d.high.value})"

def Summary.lines (s : Summary) : List String :=
  ["Samples: " ++ toString s.samples, "Size:    " ++ range s.length " mm",
    "Aspect:  " ++ range s.aspect ""]

def Summary.text (s : Summary) : String := "\n".intercalate s.lines

end Survey

end PenTouch
