import Mathlib
import PenTouch.Proofs.Scalar.Exact
import PenTouch.Statistics

/-!
# The mean of the fullest bin

A bin of a histogram counts and adds up the samples that fall into it (`toList_histogram`), and the
scan for the fullest bin stays at the first that no other exceeds (`exists_fullest`). So the mode is
the mean of the samples in that bin (`mode_eq_mean`). Copies of one sample share a bin, whatever the
number of the bins is, and their mode is their running sum by their count (`mode_replicate`), which
is the sample itself if nothing is rounded (`mode_replicate_exact`).
-/

namespace PenTouch.Statistics

variable {α : Type} [Scalar α]

/-- The samples added one after the other to zero. -/
def runningSum (samples : List α) : α := samples.foldl (· + ·) 0.0

@[simp] theorem runningSum_nil : runningSum ([] : List α) = 0.0 := rfl

@[simp] theorem runningSum_concat (samples : List α) (v : α) :
    runningSum (samples ++ [v]) = runningSum samples + v := by
  simp [runningSum]

/-- The samples that fall into a bin, cut to the range of the histogram. -/
def samplesIn (bins : ℕ) (values : List α) (k : ℕ) : List α :=
  (values.map fun v => Scalar.clamp v 0.0 1.0).filter fun v => binOf bins v == k

theorem samplesIn_concat (bins : ℕ) (values : List α) (v : α) (k : ℕ) :
    samplesIn bins (values ++ [v]) k = samplesIn bins values k ++
      if binOf bins (Scalar.clamp v 0.0 1.0) = k then [Scalar.clamp v 0.0 1.0] else [] := by
  simp [samplesIn, List.filter_cons]

theorem binOf_lt {bins : ℕ} (hb : 0 < bins) (v : α) : binOf bins v < bins := by
  unfold binOf
  omega

/-- The bin that holds these samples. -/
def Bin.ofSamples (samples : List α) : Bin α := ⟨samples.length, runningSum samples⟩

/-! ## Filling the bins -/

@[simp] theorem histogram_concat (bins : ℕ) (values : List α) (v : α) :
    histogram bins (values ++ [v]) =
      (histogram bins values).modify (binOf bins (Scalar.clamp v 0.0 1.0)) fun b =>
        ⟨b.count + 1, b.sum + Scalar.clamp v 0.0 1.0⟩ := by
  simp [histogram]

theorem toList_histogram (bins : ℕ) (values : List α) :
    (histogram bins values).toList =
      (List.range bins).map fun k => .ofSamples (samplesIn bins values k) := by
  induction values using List.reverseRecOn with
  | nil => simp [histogram, samplesIn, Bin.ofSamples, List.map_const']
  | append_singleton values v ih =>
    rw [histogram_concat, Array.toList_modify, ih]
    refine List.ext_getElem? fun k => ?_
    simp only [List.getElem?_modify, List.getElem?_map, samplesIn_concat, Functor.map, Option.map_map]
    refine Option.map_congr fun j hj => ?_
    obtain ⟨-, rfl⟩ : j < bins ∧ k = j := by grind
    by_cases hbin : binOf bins (Scalar.clamp v 0.0 1.0) = k <;> simp [hbin, Bin.ofSamples]

theorem histogram_eq (bins : ℕ) (values : List α) :
    histogram bins values =
      ((List.range bins).map fun k => Bin.ofSamples (samplesIn bins values k)).toArray := by
  rw [← toList_histogram, Array.toArray_toList]

/-! ## The fullest bin -/

/-- Number `k` of so many bins holds more than those before it and no less than any. -/
structure Fullest (count : ℕ → ℕ) (bins k : ℕ) : Prop where
  lt : k < bins
  pos : 0 < count k
  first : ∀ j < k, count j < count k
  most : ∀ j < bins, count j ≤ count k

/-- A further bin is the fullest if it exceeds all, and changes nothing if it does not. -/
theorem Fullest.step {count : ℕ → ℕ} {bins k : ℕ} (h : Fullest count bins k) :
    Fullest count (bins + 1) (if count k < count bins then bins else k) := by
  obtain ⟨hlt, hpos, hfirst, hmost⟩ := h
  split_ifs with hmore
  · exact ⟨by omega, by omega, fun j hj => (hmost j hj).trans_lt hmore, fun j hj => by
      rcases Nat.lt_succ_iff_lt_or_eq.mp hj with hj | rfl
      · exact (hmost j hj).trans hmore.le
      · exact le_rfl⟩
  · exact ⟨by omega, hpos, hfirst, fun j hj => by
      rcases Nat.lt_succ_iff_lt_or_eq.mp hj with hj | rfl
      · exact hmost j hj
      · exact not_lt.mp hmore⟩

theorem exists_fullest (bars : ℕ → Bin α) (bins : ℕ) :
    ((∀ k < bins, (bars k).count = 0) ∧
      fullest ((List.range bins).map bars).toArray = ⟨0, 0.0⟩) ∨
    ∃ k, Fullest (fun j => (bars j).count) bins k ∧
      fullest ((List.range bins).map bars).toArray = bars k := by
  unfold fullest
  simp only [List.foldl_toArray]
  induction bins with
  | zero => exact .inl ⟨by simp, rfl⟩
  | succ bins ih =>
    simp only [List.range_succ, List.map_append, List.map_singleton, List.foldl_concat]
    rcases ih with ⟨hempty, heq⟩ | ⟨k, hk, heq⟩
    · rw [heq]
      split_ifs with hpos
      · exact .inr ⟨bins, ⟨by omega, hpos, fun j hj => (hempty j hj).trans_lt hpos, by grind⟩, rfl⟩
      · exact .inl ⟨by grind, rfl⟩
    · rw [heq]
      refine .inr ⟨_, hk.step, ?_⟩
      split_ifs <;> rfl

/-! ## The mode -/

theorem exists_samplesIn {bins : ℕ} (hb : 0 < bins) {values : List α} (hne : values ≠ []) :
    ∃ k < bins, 0 < (samplesIn bins values k).length := by
  obtain ⟨v, hv⟩ := List.exists_mem_of_ne_nil values hne
  have hmem : Scalar.clamp v 0.0 1.0 ∈
      samplesIn bins values (binOf bins (Scalar.clamp v 0.0 1.0)) := by
    simpa [samplesIn] using ⟨v, hv, rfl⟩
  exact ⟨_, binOf_lt hb _, List.length_pos_of_mem hmem⟩

/-- **The fullest bin.** The mode is the mean of those in the first bin that no other exceeds. -/
theorem mode_eq_mean (bins : ℕ) {values : List α} (hne : values ≠ []) :
    ∃ k, Fullest (fun j => (samplesIn (max bins 1) values j).length) (max bins 1) k ∧
      mode bins values = runningSum (samplesIn (max bins 1) values k) /
        Scalar.ofNat (samplesIn (max bins 1) values k).length := by
  unfold mode
  generalize hmax : max bins 1 = size
  obtain ⟨j, hj, hpos⟩ := exists_samplesIn (show 0 < size by omega) hne
  rw [histogram_eq]
  rcases exists_fullest (fun k => Bin.ofSamples (samplesIn size values k)) size with
    ⟨hempty, -⟩ | ⟨k, hk, heq⟩
  · exact absurd (hempty j hj) hpos.ne'
  · exact ⟨k, hk, by rw [heq]; exact if_neg hk.pos.ne'⟩

/-- The running sum of copies of a sample. -/
def sumOfCopies (n : ℕ) (v : α) : α := runningSum (List.replicate n v)

@[simp] theorem sumOfCopies_zero (v : α) : sumOfCopies 0 v = 0.0 := rfl

@[simp] theorem sumOfCopies_succ (n : ℕ) (v : α) :
    sumOfCopies (n + 1) v = sumOfCopies n v + v := by
  simp [sumOfCopies, List.replicate_succ']

theorem samplesIn_replicate {v : α} (hv : Scalar.clamp v 0.0 1.0 = v) (bins n k : ℕ) :
    samplesIn bins (List.replicate n v) k = if binOf bins v = k then List.replicate n v else [] := by
  simp [samplesIn, hv, List.filter_replicate]

theorem mode_replicate {v : α} (hv : Scalar.clamp v 0.0 1.0 = v) (bins : ℕ) {n : ℕ} (hn : 0 < n) :
    mode bins (List.replicate n v) = sumOfCopies n v / Scalar.ofNat n := by
  obtain ⟨k, hk, hmode⟩ := mode_eq_mean bins (show List.replicate n v ≠ [] by simp; omega)
  have hpos := hk.pos
  simp only [samplesIn_replicate hv] at hmode hpos
  split_ifs at hmode hpos with hbin
  · rw [hmode, List.length_replicate, sumOfCopies]
  · exact absurd hpos (by simp)

open scoped Exact in
/-- If nothing is rounded, the mode of copies of a sample is that sample. -/
theorem mode_replicate_exact {v : ℝ} (hv : v ∈ Set.Icc 0 1) (bins : ℕ) {n : ℕ} (hn : 0 < n) :
    mode bins (List.replicate n v) = v := by
  have hsum : sumOfCopies n v = n * v := by
    simpa [sumOfCopies, runningSum] using Scalar.foldl_add_eq_sum id (List.replicate n v)
  rw [mode_replicate (Scalar.clamp_of_mem_Icc hv) bins hn, hsum, Scalar.ofNat_eq_cast]
  exact mul_div_cancel_left₀ v (by positivity)

end PenTouch.Statistics
