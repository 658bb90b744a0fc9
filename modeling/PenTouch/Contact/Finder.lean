import PenTouch.Contact.Peak
import PenTouch.Contact.Tracker

/-!
# Finding contacts

A frame's intensities become contacts in one pass: the level of the untouched panel is taken off,
blobs are collected, each of the strongest is fitted with a peak, and the peaks are tracked. The
heights and the labels of a frame stand until the next frame is written over them; of all that is
kept, only the tracks are read again.
-/

namespace PenTouch

variable {α : Type} [Scalar α]

/-- The candidate of a peak on a panel of the given number of rows and columns. The length of an
axis is twice the standard deviation along it. -/
def Peak.candidate (p : Peak α) (rows cols : α) : Candidate α :=
  let axes := p.spread.axes
  let diagonal := Scalar.hypot cols rows
  { mean :=
      { x := Scalar.clamp ((p.x + 0.5) / cols) 0.0 1.0
        y := Scalar.clamp ((p.y + 0.5) / rows) 0.0 1.0 }
    major := 2.0 * Scalar.sqrt (Scalar.positivePart axes.major) / diagonal
    minor := 2.0 * Scalar.sqrt (Scalar.positivePart axes.minor) / diagonal
    orientation := axes.angle }

/-- The candidates of a frame's blobs, in the scan order of the blobs. -/
def Finder.candidates (settings : TouchSettings α) (heights : Grid α) (found : Labelling α) :
    List (Candidate α) :=
  (Blob.strongest settings.maxContacts found.blobs.toList).filterMap fun b =>
    (b.fit? heights found.labels settings.fittingRadius).map fun p =>
      p.candidate (Scalar.ofNat heights.rows) (Scalar.ofNat heights.cols)

/-- Finds the contacts of one frame after the other. -/
structure Finder (α : Type) where
  settings : TouchSettings α
  tracker : Tracker α := {}
  /-- The heights of the last frame with cells. -/
  heights : Grid α := .empty
  /-- The labels of the last frame with cells. -/
  labels : Grid Nat := .empty

/-- Arrays that each frame empties and fills again, so that their memory is used again. -/
structure Finder.Buffers (α : Type) where
  candidates : Array (Candidate α) := #[]
  contacts : Array (Contact α) := #[]

namespace Finder

/-- The contacts of a frame; a frame without cells has none. -/
def find (f : Finder α) (heat : Grid α) : Finder α × List (Contact α) :=
  if heat.cells.isEmpty then
    let (tracker, contacts) := f.tracker.update f.settings []
    ({ f with tracker }, contacts)
  else
    let heights := heat.baseline (f.settings.neutral.level heat) f.heights
    let found := findBlobs heights f.settings.activation f.settings.deactivation f.labels
    let (tracker, contacts) := f.tracker.update f.settings (candidates f.settings heights found)
    ({ f with tracker, heights, labels := found.labels }, contacts)

/-- Finds the contacts of a frame and writes them, and the candidates, over those of an earlier
frame. -/
def findInto (f : Finder α) (heat : Grid α) (b : Buffers α) : Finder α × Buffers α :=
  let emptied := b.candidates.shrink 0
  if heat.cells.isEmpty then
    let (tracker, contacts) := f.tracker.updateInto f.settings emptied b.contacts
    ({ f with tracker }, { candidates := emptied, contacts })
  else
    let heights := heat.baseline (f.settings.neutral.level heat) f.heights
    let found := findBlobs heights f.settings.activation f.settings.deactivation f.labels
    let filled := (candidates f.settings heights found).foldl Array.push emptied
    let (tracker, contacts) := f.tracker.updateInto f.settings filled b.contacts
    ({ f with tracker, heights, labels := found.labels }, { candidates := filled, contacts })

def reset (f : Finder α) : Finder α := { f with tracker := f.tracker.reset }

end Finder

end PenTouch
