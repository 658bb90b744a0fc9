import PenTouch.Contact.Settings
import PenTouch.Grid
import PenTouch.Statistics
import PenTouch.Word

/-!
# Blobs

A blob is a maximal set of cells above the deactivation level that hang together by their sides and
corners, and of which at least one is above the activation level. `findBlobs` numbers the blobs in
the scan order of their first active cell and labels every cell with the number of its blob, `0` for
none. Numbers are counted without end here. A scan starts at most one blob at a cell, so they stay
below `2 ^ 32` on every grid of fewer cells than that.

The flood that collects a blob ends because each cell is labelled once: `Front.flood` falls in the
measure "twice the unlabelled cells, and the cells still on the stack".
-/

namespace PenTouch

variable {α : Type} [Scalar α]

/-! ## The level of the panel -/

/-- The resolution of the most frequent level. -/
def modeBins : Nat := 256

/-- The level of the untouched panel, estimated from a frame. -/
def Neutral.level (n : Neutral α) (heat : Grid α) : α :=
  match n with
  | .mode => Statistics.mode modeBins heat.cells.toList
  | .average => Statistics.mean heat.cells.toList
  | .constant level => level

/-- The height of a value above a level; zero below it, and where it is not a number. -/
@[inline] def heightOver (level v : α) : α :=
  if Scalar.isFinite (v - level) then Scalar.positivePart (v - level) else 0.0

/-- The height of each cell above the level, written over the cells of `out`. -/
@[specialize] def Grid.baseline (heat : Grid α) (level : α) (out : Grid α) : Grid α where
  rows := (out.resize heat.rows heat.cols 0.0).1.rows
  cols := (out.resize heat.rows heat.cols 0.0).1.cols
  cells := Array.zipWith (fun _ v => heightOver level v)
    (out.resize heat.rows heat.cols 0.0).1.cells heat.cells
  size_cells := by simp [Grid.size_cells]

/-! ## Windows -/

/-- The numbers below `n` from `first` to `last`, ascending. -/
def Cell.span (first last n : Nat) : List Nat :=
  List.range' first (min last (n - 1) + 1 - first)

/-- The cells of a grid between two corners, in scan order. -/
def Cell.rectangle (first last : Cell) (rows cols : Nat) : List Cell :=
  (Cell.span first.row last.row rows).flatMap fun row =>
    (Cell.span first.col last.col cols).map fun col => ⟨row, col⟩

/-- A cell of a grid and the cells beside it, in scan order. -/
def Cell.neighbours (p : Cell) (rows cols : Nat) : List Cell :=
  Cell.rectangle ⟨p.row - 1, p.col - 1⟩ ⟨p.row + 1, p.col + 1⟩ rows cols

/-- The cells of a grid within `radius` rows and columns of a cell, in scan order. The last row and
column are sums of words, so a huge radius may wrap around and leave out the cell itself. -/
def Cell.window (p : Cell) (radius rows cols : Nat) : List Cell :=
  Cell.rectangle ⟨p.row - radius, p.col - radius⟩ ⟨Word.add p.row radius, Word.add p.col radius⟩
    rows cols

/-! ## Flood -/

def Grid.unlabelled (labels : Grid Nat) : Nat := labels.count (· == 0)

/-- The labels, and the cells whose neighbours have still to be looked at. -/
abbrev Front := Grid Nat × List Cell

/-- Labels a cell and puts it on the stack, if it is above the level and carries no label yet. -/
@[specialize] def Front.spread (heat : Grid α) (level : α) (index : Nat) (f : Front) (p : Cell) :
    Front :=
  if f.1.get? p = some 0 ∧ (heat.get? p).any (fun v => v > level) then
    (f.1.set p (index + 1), p :: f.2)
  else f

/-- What a front has left to do. -/
def Front.work (f : Front) : Nat := 2 * f.1.unlabelled + f.2.length

theorem Front.work_spread (heat : Grid α) (level : α) (index : Nat) (f : Front) (p : Cell) :
    (f.spread heat level index p).work ≤ f.work := by
  unfold Front.spread
  split
  · rename_i h
    have hc : (f.1.set p (index + 1)).count (· == 0) + _ = f.1.count (· == 0) + _ :=
      Grid.count_set (· == 0) h.1
    simp only [Front.work, Grid.unlabelled, List.length_cons]
    simp at hc
    omega
  · exact Nat.le_refl _

theorem Front.work_foldl_spread (heat : Grid α) (level : α) (index : Nat) (cells : List Cell)
    (f : Front) : (cells.foldl (Front.spread heat level index) f).work ≤ f.work := by
  induction cells generalizing f with
  | nil => exact Nat.le_refl _
  | cons p cells ih =>
    exact Nat.le_trans (ih _) (Front.work_spread heat level index f p)

/-- Labels all cells that are reached from the front, and adds them to `visited`, the last first. -/
@[specialize] def Front.flood (heat : Grid α) (level : α) (index : Nat) (f : Front)
    (visited : List Cell) : Grid Nat × List Cell :=
  match f with
  | (labels, []) => (labels, visited)
  | (labels, p :: stack) =>
    Front.flood heat level index
      ((p.neighbours heat.rows heat.cols).foldl (Front.spread heat level index) (labels, stack))
      (p :: visited)
termination_by f.work
decreasing_by
  refine Nat.lt_of_le_of_lt (Front.work_foldl_spread heat level index _ _) ?_
  simp [Front.work]

/-! ## Blobs -/

/-- A set of touched cells that hang together. -/
structure Blob (α : Type) where
  /-- The label of its cells, at most the number of cells of the grid. -/
  label : Nat
  /-- The highest cell; the first one in scan order if several are equally high. -/
  peak : Cell
  peakValue : α
  /-- The number of its cells. -/
  area : Nat

@[specialize] def Blob.add (heat : Grid α) (b : Blob α) (p : Cell) : Blob α :=
  let v := (heat.get? p).getD 0.0
  if v > b.peakValue ∨ (v == b.peakValue ∧ p.before b.peak) then
    { b with peak := p, peakValue := v, area := b.area + 1 }
  else { b with area := b.area + 1 }

/-- The labels given so far, and the blobs found so far in the order of their labels. -/
structure Labelling (α : Type) where
  labels : Grid Nat
  blobs : Array (Blob α)

/-- Looks at one cell of the scan: an active cell without a label starts a blob. -/
@[specialize] def Labelling.visit (heat : Grid α) (activation deactivation : α) (s : Labelling α)
    (entry : Cell × α) : Labelling α :=
  if entry.2 ≤ activation ∨ s.labels.get? entry.1 ≠ some 0 then s
  else
    let index := s.blobs.size
    let (labels, visited) :=
      Front.flood heat deactivation index (s.labels.set entry.1 (index + 1), [entry.1]) []
    let seed : Blob α := { label := index + 1, peak := entry.1, peakValue := entry.2, area := 0 }
    { labels, blobs := s.blobs.push (visited.reverse.foldl (Blob.add heat) seed) }

/-- Labels all blobs of a grid. The labels are written over those of an earlier grid. -/
@[specialize] def findBlobs (heat : Grid α) (activation deactivation : α) (labels : Grid Nat) :
    Labelling α :=
  heat.indexed.foldl (Labelling.visit heat activation deactivation)
    ⟨(labels.resize heat.rows heat.cols 0).1.fill 0, #[]⟩

/-- The strongest blobs, at most `limit` of them, in the order of their labels. Of equally strong
blobs the first come before the others. -/
def Blob.strongest (limit : Nat) (blobs : List (Blob α)) : List (Blob α) :=
  if blobs.length ≤ limit then blobs
  else
    let ranked := blobs.mergeSort fun a b =>
      ((Scalar.order b.peakValue a.peakValue).then (compare a.label b.label)).isLE
    (ranked.take limit).mergeSort fun a b => a.label ≤ b.label

end PenTouch
