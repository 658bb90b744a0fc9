import PenTouch.Grid
import PenTouch.Scalar
import PenTouch.Text.Record
import PenTouch.Time
import PenTouch.Word

/-!
# Heatmap frames

A frame holds one raw reading for each cell of the panel, lower the stronger the touch, together
with the dimensions and the range that the device declares. What it declares need not be true:

* `Frame.isValid`: the readings are as many as declared and the range is not empty.
* `Frame.isUsable`: the frame has an area and a range, so that intensities can be computed.
* `Frame.heat`: the intensities, from `0` for an untouched cell to `1`; a reading that is missing
  counts as untouched, and one too many is ignored. Memory for the declared cells is taken to be
  there, however many they are.
-/

namespace PenTouch

/-- One reading of the whole panel. -/
structure Frame where
  /-- The raw readings, row after row. -/
  cells : Array UInt8
  /-- The number of columns, a half word. -/
  width : Nat
  /-- The number of rows, a half word. -/
  height : Nat
  /-- The lowest reading. -/
  zMin : UInt8
  /-- The highest reading, that of an untouched cell. -/
  zMax : UInt8
  sequence : Nat
  time : Time

namespace Frame

/-- The number of cells that the frame declares. -/
def cellCount (f : Frame) : Nat := f.width * f.height

def isUsable (f : Frame) : Bool := 0 < f.width && 0 < f.height && f.zMin < f.zMax

def isValid (f : Frame) : Bool :=
  0 < f.cellCount && f.cells.size == f.cellCount && f.zMin < f.zMax

variable {α : Type} [Scalar α]

/-- The intensity of a reading, confined to `[0, 1]`. -/
def intensity (f : Frame) (raw : UInt8) : α :=
  let lowest : α := Scalar.ofNat f.zMin.toNat
  let range : α := Scalar.ofNat f.zMax.toNat - lowest
  Scalar.clamp (1.0 - (Scalar.ofNat raw.toNat - lowest) / range) 0.0 1.0

/-- The intensity of the `i`-th cell; that of an untouched cell if the reading is missing. -/
def level (f : Frame) (i : Nat) : α :=
  match f.cells[i]? with
  | some raw => f.intensity raw
  | none => 0.0

/-- The intensities of a usable frame. -/
def heat (f : Frame) : Grid α := .ofFn f.height f.width f.level

/-- The intensities of a usable frame, written over those of an earlier one. -/
def heatOver (f : Frame) (buffer : Grid α) : Grid α :=
  (buffer.resize f.height f.width 0.0).1.overwrite f.level

def summary (f : Frame) : String :=
  Text.record "HeatmapFrame"
    [("width", toString f.width), ("height", toString f.height),
      ("z_min", toString f.zMin.toNat), ("z_max", toString f.zMax.toNat),
      ("sequence", toString f.sequence), ("cell_bytes", toString f.cells.size)]

theorem isUsable_iff {f : Frame} :
    f.isUsable = true ↔ 0 < f.width ∧ 0 < f.height ∧ f.zMin < f.zMax := by
  simp [isUsable, and_assoc]

theorem isUsable_of_isValid {f : Frame} (h : f.isValid = true) : f.isUsable = true := by
  simp only [isValid, cellCount, Bool.and_eq_true, decide_eq_true_eq] at h
  have hw : f.width ≠ 0 := fun e => by simp [e] at h
  have hh : f.height ≠ 0 := fun e => by simp [e] at h
  exact isUsable_iff.mpr ⟨Nat.pos_of_ne_zero hw, Nat.pos_of_ne_zero hh, h.2⟩

/-- The number of declared cells does not wrap around. -/
theorem mul_sides_lt {f : Frame} (hheight : f.height < Word.half) (hwidth : f.width < Word.half) :
    f.height * f.width < Word.limit :=
  Word.mul_lt_of_half hheight hwidth

/-- It does not matter what was there before. -/
theorem heatOver_eq (f : Frame) (buffer : Grid α) : f.heatOver buffer = f.heat :=
  buffer.overwrite_resize _ _ _ _

@[simp] theorem rows_heat (f : Frame) : (f.heat : Grid α).rows = f.height := rfl

@[simp] theorem cols_heat (f : Frame) : (f.heat : Grid α).cols = f.width := rfl

end Frame

end PenTouch
