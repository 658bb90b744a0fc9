import PenTouch.Scalar.Double
import PenTouch.Source.Basic

/-!
# A synthetic device

A hand writes with a pen while a finger rests on the panel. Each tick gives a pen sample and then
the frame of the same moment; the hand trails the tip of the pen to the lower right, the finger
stays where it is. The events never end, and start over with each connection.
-/

namespace PenTouch

/-- The synthetic device, at a tick. -/
structure Synthetic where
  width : Nat
  height : Nat
  tick : Nat := 0
  /-- The frame of the tick, once the pen sample of the tick has been given. -/
  pending : Option Frame := none
  isOpen : Bool := false

namespace Synthetic

/-! ## The scene -/

/-- A touch whose intensity falls off as a Gaussian, in cells. -/
structure Bump where
  center : Point Float
  /-- The horizontal standard deviation. -/
  spreadX : Float
  /-- The vertical standard deviation. -/
  spreadY : Float
  amplitude : Float

def Bump.intensity (b : Bump) (col row : Float) : Float :=
  let dx := (col - b.center.x) / b.spreadX
  let dy := (row - b.center.y) / b.spreadY
  b.amplitude * ((-0.5) * (dx * dx + dy * dy)).exp

def serial : Nat := 0x5a17

/-- The number of ticks after which the hand is back at its start. -/
def period : Nat := 200

/-- The tip of the pen at a tick, in cells. -/
def tip (width height tick : Nat) : Point Float :=
  let phase := (tick % period).toFloat / period.toFloat
  ⟨width.toFloat * (0.3 + 0.3 * phase), height.toFloat * 0.4⟩

/-- The finger and the hand at a tick. -/
def touches (width height tick : Nat) : List Bump :=
  let tip := tip width height tick
  [ { center := ⟨width.toFloat * 0.12, height.toFloat * 0.2⟩
      spreadX := 1.0
      spreadY := 1.0
      amplitude := 0.8 },
    { center := ⟨tip.x + 8.0, tip.y + 6.0⟩
      spreadX := 4.0
      spreadY := 2.5
      amplitude := 0.9 } ]

/-- The raw reading of a cell that is touched with an intensity. -/
def reading (intensity : Float) : UInt8 :=
  (Double.round (255.0 - (if intensity < 1.0 then intensity else 1.0) * 255.0)).toUInt8

def sample (width height tick : Nat) : PenSample Float :=
  let tip := tip width height tick
  { PenSample.outOfRange serial with
    x := tip.x / width.toFloat * maxX
    y := tip.y / height.toFloat * maxY
    pressure := 1200.0
    proximity := true
    contact := true }

def frame (width height tick : Nat) (time : Time) : Frame :=
  let touches := touches width height tick
  { cells := Array.ofFn fun i : Fin (width * height) =>
      let row := (i.val / width).toFloat
      let col := (i.val % width).toFloat
      reading (touches.foldl (fun sum b => sum + b.intensity col row) 0.0)
    width
    height
    zMin := 0
    zMax := 255
    sequence := tick
    time }

/-! ## The device -/

/-- Connects the device, at its first tick; a panel without cells cannot be connected. -/
def connect (s : Synthetic) : Connection × Synthetic :=
  if s.width = 0 ∨ s.height = 0 then
    (.error (.openFailed s!"invalid heatmap size {s.width}x{s.height}"), s)
  else (.ok none, { s with tick := 0, pending := none, isOpen := true })

/-- The next event. The frame of a tick is taken together with its pen sample, and is given with the
next reading. -/
def next (s : Synthetic) (now : Time) : Reading × Synthetic :=
  if !s.isOpen then (.error .notOpen, s)
  else match s.pending with
    | some taken => (.ok (.frame taken), { s with tick := s.tick + 1, pending := none })
    | none =>
      (.ok (.pen (sample s.width s.height s.tick) now),
        { s with pending := some (frame s.width s.height s.tick now) })

def disconnect (s : Synthetic) : Synthetic := { s with isOpen := false }

/-- The next `count` readings, received at steady intervals from a time on. -/
def take (s : Synthetic) (interval : Span) (now : Time) : Nat → List Reading
  | 0 => []
  | count + 1 =>
    let (reading, s) := s.next now
    reading.map (·.receivedAt now) :: s.take interval (now + interval) count

@[simp] theorem size_cells_frame (width height tick : Nat) (time : Time) :
    (frame width height tick time).cells.size = width * height := by
  simp [frame]

end Synthetic

end PenTouch
