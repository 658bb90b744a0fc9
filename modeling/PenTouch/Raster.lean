import PenTouch.Grid
import PenTouch.Text.Record
import PenTouch.Word

/-!
# Rasters

A raster holds samples, row after row, and the dimensions that they are said to have. The number of
samples and the places of cells are computed in words. So dimensions may promise more samples than
there are, and the program ends where one of those is read or written.

As long as rows and columns have a product below `Word.limit`, nothing wraps around, and a raster is
a grid: what is done to the raster of a grid (`Grid.raster`) is done to the grid. That memory for
the samples can run out is left aside.
-/

namespace PenTouch

/-- Samples with their dimensions. -/
structure Raster (α : Type) where
  rows : Nat
  cols : Nat
  samples : Array α

/-- The program ends, since an index lies behind the last sample. -/
structure Panic where
  size : Nat
  index : Nat

variable {α : Type}

namespace Raster

def empty : Raster α := ⟨0, 0, #[]⟩

def replicate (rows cols : Nat) (value : α) : Raster α :=
  ⟨rows, cols, Array.replicate (Word.mul rows cols) value⟩

/-- The raster of the given samples, if their number is right. -/
def ofSamples? (rows cols : Nat) (samples : Array α) : Option (Raster α) :=
  if samples.size = Word.mul rows cols then some ⟨rows, cols, samples⟩ else none

/-- The place of a cell among the samples. -/
def index (r : Raster α) (p : Cell) : Nat := Word.add (Word.mul p.row r.cols) p.col

/-- The value of a cell; nothing outside the dimensions. -/
def get (r : Raster α) (p : Cell) : Except Panic (Option α) :=
  if p.row < r.rows ∧ p.col < r.cols then
    match r.samples[r.index p]? with
    | some value => .ok (some value)
    | none => .error ⟨r.samples.size, r.index p⟩
  else .ok none

/-- The raster with a new value in one cell; a cell outside the dimensions is ignored. -/
def set (r : Raster α) (p : Cell) (value : α) : Except Panic (Raster α) :=
  if p.row < r.rows ∧ p.col < r.cols then
    if r.index p < r.samples.size then
      .ok { r with samples := r.samples.setIfInBounds (r.index p) value }
    else .error ⟨r.samples.size, r.index p⟩
  else .ok r

def fill (r : Raster α) (value : α) : Raster α :=
  { r with samples := r.samples.map fun _ => value }

/-- The raster with other dimensions and whether they differ from the old ones. A raster that
changes loses its samples to `value`. -/
def resize (r : Raster α) (rows cols : Nat) (value : α) : Raster α × Bool :=
  if r.rows = rows ∧ r.cols = cols then (r, false) else (replicate rows cols value, true)

/-- All samples with their cells, in scan order. -/
def indexed (r : Raster α) : List (Cell × α) :=
  r.samples.toList.zipIdx.map fun (value, i) => (⟨i / max r.cols 1, i % max r.cols 1⟩, value)

def summary (r : Raster α) : String :=
  Text.partialRecord "Image" [("rows", toString r.rows), ("cols", toString r.cols)]

end Raster

/-! ## Grids -/

namespace Grid

/-- The cells of a grid as samples. -/
def raster (g : Grid α) : Raster α := ⟨g.rows, g.cols, g.cells⟩

variable {g : Grid α}

@[simp] theorem rows_raster : g.raster.rows = g.rows := rfl

@[simp] theorem cols_raster : g.raster.cols = g.cols := rfl

@[simp] theorem samples_raster : g.raster.samples = g.cells := rfl

theorem replicate_raster {rows cols : Nat} (h : rows * cols < Word.limit) (value : α) :
    Raster.replicate rows cols value = (replicate rows cols value).raster := by
  unfold Raster.replicate
  rw [Word.mul_of_lt h]
  rfl

/-- No place of a grid wraps around. -/
theorem index_raster (h : g.rows * g.cols < Word.limit) {p : Cell}
    (hp : p.row < g.rows ∧ p.col < g.cols) :
    g.index? p = some (g.raster.index p) ∧ g.raster.index p < g.cells.size := by
  have hindex : g.index? p = some (p.row * g.cols + p.col) := if_pos hp
  have hlt := index?_lt hindex
  rw [g.size_cells] at hlt
  have hsame : g.raster.index p = p.row * g.cols + p.col := by
    unfold Raster.index
    rw [cols_raster, Word.mul_of_lt (by omega), Word.add_of_lt (by omega)]
  rw [hsame, g.size_cells]
  exact ⟨hindex, hlt⟩

theorem get_raster (h : g.rows * g.cols < Word.limit) (p : Cell) :
    g.raster.get p = .ok (g.get? p) := by
  unfold Raster.get
  rw [rows_raster, cols_raster, samples_raster]
  by_cases hp : p.row < g.rows ∧ p.col < g.cols
  · obtain ⟨hindex, hlt⟩ := index_raster h hp
    rw [if_pos hp, get?_eq hindex, Array.getElem?_eq_getElem hlt]
  · rw [if_neg hp, get?_eq_none.mpr hp]

theorem set_raster (h : g.rows * g.cols < Word.limit) (p : Cell) (value : α) :
    g.raster.set p value = .ok (g.set p value).raster := by
  unfold Raster.set
  rw [rows_raster, cols_raster, samples_raster]
  by_cases hp : p.row < g.rows ∧ p.col < g.cols
  · obtain ⟨hindex, hlt⟩ := index_raster h hp
    rw [if_pos hp, if_pos hlt]
    unfold raster
    rw [rows_set, cols_set, cells_set hindex]
    rfl
  · rw [if_neg hp, set_eq_self (if_neg hp)]

theorem fill_raster (g : Grid α) (value : α) : g.raster.fill value = (g.fill value).raster := by
  have hcells : g.cells.map (fun _ => value) = Array.replicate (g.rows * g.cols) value := by
    rw [← g.size_cells]
    exact Array.map_const'
  exact congrArg (Raster.mk g.rows g.cols) hcells

theorem resize_raster {rows cols : Nat} (h : rows * cols < Word.limit) (g : Grid α) (value : α) :
    g.raster.resize rows cols value =
      ((g.resize rows cols value).1.raster, (g.resize rows cols value).2) := by
  unfold Raster.resize resize
  rw [rows_raster, cols_raster]
  by_cases hsame : g.rows = rows ∧ g.cols = cols
  · rw [if_pos hsame, if_pos hsame]
  · rw [if_neg hsame, if_neg hsame, replicate_raster h]

theorem indexed_raster (g : Grid α) : g.raster.indexed = g.indexed := rfl

end Grid

end PenTouch
