import PenTouch.Pen.Calibration
import PenTouch.Pen.Window
import PenTouch.Statistics
import PenTouch.Word

/-!
# Estimating a pen from antenna windows

Along one axis the position is the mean of the antennas around the strongest one, each weighted
by its amplitude as far as it is in phase with that one (`AxisPeak.ofAntennas?`). The windows of a
burst update one sample, each its own part of it (`Estimator.input`).
-/

namespace PenTouch

variable {α : Type} [Scalar α]

/-! ## One axis -/

/-- The position along an axis, counted in antennas, and the strongest antenna. -/
structure AxisPeak (α : Type) where
  position : α
  peak : Antenna α

namespace AxisPeak

/-- The stronger of the strongest antenna so far and the next one; the earlier of two equal ones. -/
def stronger (best : Option (Antenna α × Nat)) (next : Antenna α × Nat) :
    Option (Antenna α × Nat) :=
  match best with
  | some b => if b.1.amplitude ≥ next.1.amplitude then some b else some next
  | none => some next

/-- The strongest antenna and its place. -/
def strongest? (antennas : List (Antenna α)) : Option (Antenna α × Nat) :=
  antennas.zipIdx.foldl stronger none

/-- The weight of an antenna: its amplitude along the phase of the peak, and nothing for an antenna
in opposite phase. -/
def weight (peak a : Antenna α) : α := Scalar.positivePart (a.coherence peak / peak.amplitude)

/-- The antennas within `radius` of a place, with their places. Their end is a sum of words, so a
huge radius may wrap around and leave out the place itself. -/
def around (antennas : List (Antenna α)) (place radius : Nat) : List (Antenna α × Nat) :=
  (antennas.zipIdx.take (Word.add place radius + 1)).drop (place - radius)

/-- The weighted mean place of the antennas around the strongest, if that one is finite and strong
enough. -/
def ofAntennas? (antennas : List (Antenna α)) (radius : Nat) (minAmplitude : α) :
    Option (AxisPeak α) := do
  let (peak, place) ← strongest? antennas
  if ¬Scalar.isFinite peak.amplitude ∨ peak.amplitude < minAmplitude ∨ peak.amplitude ≤ 0.0 then
    none
  else
    let near := around antennas place radius
    let total := near.foldl (fun sum a => sum + weight peak a.1) 0.0
    let moment := near.foldl (fun sum a => sum + weight peak a.1 * Scalar.ofNat a.2) 0.0
    some { position := moment / total, peak }

end AxisPeak

/-! ## The estimator -/

/-- Follows one pen through the windows of a session. -/
structure Estimator (α : Type) where
  settings : PenSettings α
  calibration : Calibration α
  /-- The width of the panel in millimetres. -/
  width : α
  /-- The height of the panel in millimetres. -/
  height : α
  sample : PenSample α
  /-- The strongest column antenna of the last position, to compare phases with. -/
  reference : Option (Antenna α) := none

namespace Estimator

/-- An estimator that has seen no window. -/
def new (settings : PenSettings α) (width height : α) (metadata : Option (Metadata α)) :
    Estimator α :=
  { settings, calibration := .ofMetadata metadata settings, width, height, sample := .outOfRange 0 }

/-- The position of a window's signal in device units, and the strongest column antenna. -/
def locate? (e : Estimator α) (w : Window α) : Option (Point α × Antenna α) := do
  let x ← AxisPeak.ofAntennas? w.columns e.settings.windowRadius e.settings.minAmplitude
  let y ← AxisPeak.ofAntennas? w.rows e.settings.windowRadius e.settings.minAmplitude
  let antenna : Point α :=
    ⟨Scalar.ofNat w.firstColumn + x.position, Scalar.ofNat w.firstRow + y.position⟩
  some (e.calibration.toDevice antenna, x.peak)

/-- The pen has left the range; only its position and number are kept. -/
def lift (e : Estimator α) : Estimator α :=
  { e with
    sample := { PenState.outOfRange e.sample.serial with x := e.sample.x, y := e.sample.y }
    reference := none }

/-- A position window: where the pen is, or that it has left. -/
def inputPosition (e : Estimator α) (w : Window α) : Estimator α :=
  match e.locate? w with
  | none => e.lift
  | some (position, reference) =>
    { e with
      sample := { e.sample with
        x := position.x
        y := position.y
        proximity := true
        contact := e.sample.pressure > 0.0 }
      reference := some reference }

/-- The angles of a pen in range whose second electrode is at a position. -/
def tiltTo (e : Estimator α) (second : Point α) : α × α :=
  let distance := Scalar.larger e.settings.tiltDistance Scalar.epsilon
  let dx := (second.x - e.sample.x) / maxX * e.width
  let dy := (second.y - e.sample.y) / maxY * e.height
  (Scalar.degrees (Scalar.atan2 dx distance), Scalar.degrees (Scalar.atan2 dy distance))

/-- A tilt window; it says nothing of a pen out of range. -/
def inputTilt (e : Estimator α) (w : Window α) : Estimator α :=
  if !e.sample.proximity then e
  else
    let (tiltX, tiltY) := match e.locate? w with
      | none => (0.0, 0.0)
      | some (second, _) => e.tiltTo second
    { e with sample := { e.sample with tiltX, tiltY } }

/-- The pressure of a window: the mean frequency, weighted by amplitude, as a share of the
frequencies' range. -/
def pressure (settings : PenSettings α) (bins : List (Antenna α)) : α :=
  let total := Statistics.total (bins.map (·.amplitude))
  if bins.length < 2 ∨ ¬Scalar.isFinite total ∨ total < settings.minAmplitude then 0.0
  else
    let moment := bins.zipIdx.foldl (fun sum a => sum + Scalar.ofNat a.2 * a.1.amplitude) 0.0
    Scalar.clamp (moment / total / Scalar.ofNat (bins.length - 1)) 0.0 1.0 * settings.maxPressure

def inputPressure (e : Estimator α) (w : Window α) : Estimator α :=
  let pressure := pressure e.settings w.rows
  { e with sample := { e.sample with
      pressure, contact := e.sample.proximity ∧ pressure > 0.0 } }

/-- A button window: the barrel answers in the phase of the tip, the eraser in the opposite one. -/
def inputButton (e : Estimator α) (w : Window α) : Estimator α :=
  let buttons := match AxisPeak.ofAntennas? w.columns 0 e.settings.minAmplitude, e.reference with
    | some signal, some reference =>
      if signal.peak.coherence reference ≥ 0.0 then PenState.barrelBit else PenState.eraserBit
    | _, _ => 0
  { e with sample := { e.sample with buttons } }

/-- The estimator after one more window. -/
def input (e : Estimator α) (w : Window α) : Estimator α :=
  match w.kind with
  | .position => e.inputPosition w
  | .tilt => e.inputTilt w
  | .pressure => e.inputPressure w
  | .button => e.inputButton w
  | .unknown _ => e

end Estimator

end PenTouch
