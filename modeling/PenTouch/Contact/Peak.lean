import PenTouch.Contact.Blob
import PenTouch.Linear.Axes
import PenTouch.Linear.System

/-!
# Peaks

The centre and the spread of a blob, finer than its cells. A two-dimensional Gaussian is fitted to
the cells around the highest one: its logarithm is a quadratic, found by least squares with the
squared intensities as weights. Where that is no proper peak, or there are too few cells, the
moments of the intensities take its place.
-/

namespace PenTouch

/-- A fitted peak in units of cells: `x` counts columns and `y` rows. -/
structure Peak (α : Type) where
  x : α
  y : α
  /-- The covariance. -/
  spread : Linear.Symmetric α

/-- The intensity of a cell, and its place relative to the highest cell. -/
structure Sample (α : Type) where
  dx : α
  dy : α
  value : α

variable {α : Type} [Scalar α]

/-! ## Samples -/

/-- Intensities up to this one say nothing about the shape. -/
def Sample.faintest : α := 1e-6

/-- The intensities of a blob's cells within `radius` of its highest cell. -/
def Blob.samples (b : Blob α) (heat : Grid α) (labels : Grid Nat) (radius : Nat) :
    List (Sample α) :=
  (b.peak.window radius heat.rows heat.cols).filterMap fun p =>
    let value := (heat.get? p).getD 0.0
    if labels.get? p = some b.label ∧ value > Sample.faintest then
      some
        { dx := Scalar.ofNat p.col - Scalar.ofNat b.peak.col
          dy := Scalar.ofNat p.row - Scalar.ofNat b.peak.row
          value }
    else none

/-! ## The Gaussian -/

/-- The terms `x², xy, y², x, y, 1` of a quadratic at the sample's place. -/
def Sample.terms (s : Sample α) : Vector α 6 :=
  #v[s.dx * s.dx, s.dx * s.dy, s.dy * s.dy, s.dx, s.dy, 1.0]

def Sample.weight (s : Sample α) : α := s.value * s.value

/-- The equations whose solution is the quadratic that is closest to the logarithms of the
intensities. -/
@[specialize] def Sample.normalEquations (samples : List (Sample α)) : Linear.System α 6 :=
  Vector.ofFn fun i =>
    { coefficients := Vector.ofFn fun j =>
        samples.foldl (fun sum s => sum + s.weight * s.terms[i] * s.terms[j]) 0.0
      constant :=
        samples.foldl (fun sum s => sum + s.weight * s.terms[i] * Scalar.log s.value) 0.0 }

/-- The peak of the exponential of `a x² + b xy + c y² + d x + e y + f`, if the quadratic opens
downwards. -/
def Peak.summit? (a b c d e : α) : Option (Peak α) :=
  let det := 4.0 * a * c - b * b
  if a ≥ 0.0 ∨ c ≥ 0.0 ∨ det ≤ Scalar.epsilon then none
  else some
    { x := (b * e - 2.0 * c * d) / det
      y := (b * d - 2.0 * a * e) / det
      spread := { xx := -2.0 * c / det, xy := b / det, yy := -2.0 * a / det } }

/-- The peak lies in a window of the given half-width and is no wider than it. -/
def Peak.fits (p : Peak α) (radius : α) : Bool :=
  let axes := p.spread.axes
  let width := 2.0 * radius + 1.0
  ¬(Scalar.abs p.x > radius + 0.5 ∨ Scalar.abs p.y > radius + 0.5) ∧
    axes.minor > 0.0 ∧ axes.major < width * width ∧ Scalar.isFinite axes.major

/-- The Gaussian through the samples, relative to the highest cell. -/
def Peak.gaussian? (samples : List (Sample α)) (radius : α) : Option (Peak α) :=
  if samples.length < 6 then none
  else do
    let q ← (Sample.normalEquations samples).solve?
    let p ← Peak.summit? q[0] q[1] q[2] q[3] q[4]
    if p.fits radius then some p else none

/-! ## Moments -/

/-- The variance of a position that is only known to lie in a cell. -/
def cellVariance : α := 1.0 / 12.0

/-- The mean and covariance of the samples' places, weighted by their intensities. -/
def Peak.moments? (samples : List (Sample α)) : Option (Peak α) :=
  let sum (f : Sample α → α) : α := samples.foldl (fun acc s => acc + f s) 0.0
  let total := sum (·.value)
  if total ≤ 0.0 ∨ ¬Scalar.isFinite total then none
  else
    let x := sum (fun s => s.value * s.dx) / total
    let y := sum (fun s => s.value * s.dy) / total
    some
      { x, y
        spread :=
          { xx := sum (fun s => s.value * (s.dx - x) * (s.dx - x)) / total + cellVariance
            xy := sum (fun s => s.value * (s.dx - x) * (s.dy - y)) / total
            yy := sum (fun s => s.value * (s.dy - y) * (s.dy - y)) / total + cellVariance } }

/-! ## The fit -/

/-- The peak of a blob, from its cells within `radius` of the highest one. -/
def Blob.fit? (b : Blob α) (heat : Grid α) (labels : Grid Nat) (radius : Nat) :
    Option (Peak α) := do
  let samples := b.samples heat labels radius
  let p ← Peak.gaussian? samples (Scalar.ofNat radius) <|> Peak.moments? samples
  some { p with x := Scalar.ofNat b.peak.col + p.x, y := Scalar.ofNat b.peak.row + p.y }

end PenTouch
