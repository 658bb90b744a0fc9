import PenTouch.Proofs.Scalar.Arithmetic
import PenTouch.Proofs.Session.Separation

/-!
# Frames with too few or too many readings

A usable frame whose readings are not as many as declared is processed as if it had been `repaired`
first: readings that are missing are those of an untouched cell, and readings over the number are
dropped.

The one thing to compute is that the reading of an untouched cell has no intensity
(`intensity_zMax`). The range is exact, so the share of the range is exactly one. Then the two
frames have the same intensities (`heat_repaired`), and intensities are all that the session takes
from the readings (`process_repaired`).
-/

namespace PenTouch

theorem Grid.ofFn_congr {α : Type} {rows cols : Nat} {f g : Nat → α}
    (h : ∀ i < rows * cols, f i = g i) : ofFn rows cols f = ofFn rows cols g := by
  have hcells : (fun i : Fin (rows * cols) => f i) = fun i : Fin (rows * cols) => g i :=
    funext fun i => h i i.isLt
  unfold ofFn
  simp only [hcells]

namespace Frame

variable {f g : Frame}

/-- The frame with the readings that it declares. -/
def repaired (f : Frame) : Frame :=
  { f with
    cells := f.cells.take f.cellCount ++ Array.replicate (f.cellCount - f.cells.size) f.zMax }

theorem size_repaired (f : Frame) : f.repaired.cells.size = f.cellCount := by
  simp [repaired]
  omega

theorem getElem?_repaired (f : Frame) {i : Nat} (hi : i < f.cellCount) :
    f.repaired.cells[i]? = some (f.cells[i]?.getD f.zMax) := by
  by_cases h : i < f.cells.size
  · simp [repaired, Array.getElem?_append, h, hi]
  · have hreplicate : i - f.cells.size < f.cellCount - f.cells.size := by omega
    have hmin : min f.cellCount f.cells.size = f.cells.size := by omega
    simp [repaired, Array.getElem?_append, h, hmin, hreplicate]

theorem isValid_repaired (hf : f.isUsable = true) : f.repaired.isValid = true := by
  obtain ⟨hw, hh, hz⟩ := isUsable_iff.mp hf
  have hcount : 0 < f.repaired.cellCount := Nat.mul_pos hw hh
  have hsize : f.repaired.cells.size = f.repaired.cellCount := f.size_repaired
  have hrange : f.repaired.zMin < f.repaired.zMax := hz
  simp [isValid, hcount, hsize, hrange]

/-! ## Intensities -/

theorem intensity_zMax (hz : f.zMin < f.zMax) : (f.intensity f.zMax : Float) = 0.0 := by
  have hlt : f.zMin.toNat < f.zMax.toNat := UInt8.lt_iff_toNat_lt.mp hz
  have hmax := f.zMax.toNat_lt
  obtain ⟨hfinite, hvalue⟩ := Double.value_sub_ofNat
    (show f.zMax.toNat < 2 ^ 53 by omega) hlt.le
  have hne : Double.value (Float.ofNat f.zMax.toNat - Float.ofNat f.zMin.toNat) ≠ 0 := by
    rw [hvalue, Nat.cast_ne_zero]
    omega
  have hshare : (Float.ofNat f.zMax.toNat - Float.ofNat f.zMin.toNat) /
      (Float.ofNat f.zMax.toNat - Float.ofNat f.zMin.toNat) = 1.0 :=
    Double.div_self_eq_one hfinite hne
  show Scalar.clamp (1.0 - (Float.ofNat f.zMax.toNat - Float.ofNat f.zMin.toNat) /
    (Float.ofNat f.zMax.toNat - Float.ofNat f.zMin.toNat)) 0.0 1.0 = _
  rw [hshare]
  rfl

theorem level_repaired (hz : f.zMin < f.zMax) {i : Nat} (hi : i < f.cellCount) :
    (f.repaired.level i : Float) = f.level i := by
  unfold level
  rw [getElem?_repaired f hi]
  cases f.cells[i]? with
  | some raw => rfl
  | none => exact intensity_zMax hz

theorem heat_repaired (hf : f.isUsable = true) : (f.repaired.heat : Grid Float) = f.heat := by
  obtain ⟨-, -, hz⟩ := isUsable_iff.mp hf
  refine Grid.ofFn_congr fun i hi => level_repaired hz ?_
  rw [cellCount, Nat.mul_comm]
  exact hi

theorem level_congr {i j : Nat} (hmin : f.zMin = g.zMin) (hmax : f.zMax = g.zMax)
    (hcell : f.cells[i]? = g.cells[j]?) : (f.level i : Float) = g.level j := by
  unfold level intensity
  rw [hmin, hmax, hcell]

end Frame

namespace Session

variable {f : Frame}

/-- Counts one more malformed frame. -/
def countMalformed (s : Session) : Session :=
  { s with counters := { s.counters with malformed := s.counters.malformed + 1 } }

theorem heat_process_usable (s : Session) (hf : f.isUsable = true) :
    (s.process (.frame f)).1.heat = f.heat := by
  rw [process_usable s hf]
  rfl

theorem get?_heat_process (s : Session) (hf : f.isUsable = true) {p : Cell}
    (hrow : p.row < f.height) (hcol : p.col < f.width) :
    (s.process (.frame f)).1.heat.get? p = some (f.level (p.row * f.width + p.col)) := by
  rw [heat_process_usable s hf, Frame.heat, Grid.get?_ofFn, if_pos ⟨hrow, hcol⟩]

/-- All that a session takes from the readings are their intensities, and whether they are as many
as declared. -/
theorem process_repaired (s : Session) (hf : f.isUsable = true)
    (hsize : f.cells.size ≠ f.cellCount) :
    s.process (.frame f) =
      ((s.process (.frame f.repaired)).1.countMalformed, (s.process (.frame f.repaired)).2) := by
  have hvalid : f.isValid = false := by
    simp [Frame.isValid, hsize]
  have hvalid' := Frame.isValid_repaired hf
  have hheat := Frame.heat_repaired hf
  rw [process_usable s hf, process_usable s (f := f.repaired) hf]
  unfold touch touchWith countFrame countMalformed
  rw [hheat, hvalid, hvalid']
  rfl

/-- **Repair.** A usable frame with too few or too many readings is processed as the repaired frame,
which is what it declares to be, but for being counted as malformed. The heatmap has the declared
dimensions, and each of its cells is told by the reading in its own place and the range: it is the
same in any other session, after whatever frames, if these agree. -/
theorem usable_frame_repaired (s : Session) (f : Frame) (hf : f.isUsable = true)
    (hsize : f.cells.size ≠ f.cellCount) :
    f.repaired.isValid = true ∧
    s.process (.frame f) =
      ((s.process (.frame f.repaired)).1.countMalformed, (s.process (.frame f.repaired)).2) ∧
    (s.process (.frame f)).1.heat.rows = f.height ∧
    (s.process (.frame f)).1.heat.cols = f.width ∧
    ∀ p : Cell, p.row < f.height → p.col < f.width →
      (s.process (.frame f)).1.heat.get? p = some (f.level (p.row * f.width + p.col)) ∧
      ∀ (t : Session) (g : Frame), g.isUsable = true → p.row < g.height → p.col < g.width →
        g.zMin = f.zMin → g.zMax = f.zMax →
        g.cells[p.row * g.width + p.col]? = f.cells[p.row * f.width + p.col]? →
        (t.process (.frame g)).1.heat.get? p = (s.process (.frame f)).1.heat.get? p := by
  refine ⟨Frame.isValid_repaired hf, s.process_repaired hf hsize, ?_, ?_, fun p hrow hcol => ?_⟩
  · rw [heat_process_usable s hf, Frame.rows_heat]
  · rw [heat_process_usable s hf, Frame.cols_heat]
  · refine ⟨s.get?_heat_process hf hrow hcol, fun t g hg hrow' hcol' hmin hmax hcell => ?_⟩
    rw [s.get?_heat_process hf hrow hcol, t.get?_heat_process hg hrow' hcol']
    rw [Frame.level_congr hmin hmax hcell]

/-- Of four cells, only the first has a reading. -/
theorem usable_frame_repaired_short :
    let start := Session.new {} none
    let f : Frame :=
      { cells := #[0], width := 2, height := 2, zMin := 0, zMax := 255, sequence := 0, time := 0 }
    (start.process (.frame f)).1.counters.malformed = 1 ∧
      (start.process (.frame f)).1.heat.get? ⟨0, 0⟩ = some 1.0 ∧
      (start.process (.frame f)).1.heat.get? ⟨1, 1⟩ = some 0.0 := by
  intro start f
  obtain ⟨-, hprocess, -, -, hcells⟩ := usable_frame_repaired start f (by decide) (by decide)
  refine ⟨?_, ?_, ?_⟩
  · rw [hprocess]
    rfl
  · rw [(hcells ⟨0, 0⟩ (by decide) (by decide)).1]
    decide +kernel
  · rw [(hcells ⟨1, 1⟩ (by decide) (by decide)).1]
    rfl

end Session

end PenTouch
