import Mathlib
import PenTouch.Proofs.Scalar.Nearest

/-!
# The range of the angles

The angle of a vector is computed in whole numbers and cut after each step, so it is never above
what the exact series gives. Half a turn comes out above the double nearest to `π`, but by less than
half of the distance to the next double, and so rounding does not lead beyond it: the angles of all
vectors are doubles from `-pi` to `pi` (`abs_value_atan2_le`).
-/

namespace PenTouch.Double

/-! ## The series -/

/-- The series without cuts. -/
def eulerSum (s : ℚ) : (terms k : ℕ) → ℚ
  | 0, _ => 1
  | terms + 1, k => 1 + eulerSum s terms (k + 1) * (2 * k * s) / (2 * k + 1)

section Series

variable {num den : ℕ} (unit : ℕ)

theorem eulerSeries_le_eulerSum (hden : 0 < den) (terms k : ℕ) :
    (eulerSeries num den unit terms k : ℚ) ≤ unit * eulerSum (num / den) terms k := by
  have hden' : (0 : ℚ) < den := Nat.cast_pos.mpr hden
  induction terms generalizing k with
  | zero => simp [eulerSeries, eulerSum]
  | succ terms ih =>
    have hcut := Nat.cast_div_le (α := ℚ)
      (m := eulerSeries num den unit terms (k + 1) * (2 * k * num)) (n := (2 * k + 1) * den)
    push_cast at hcut
    unfold eulerSeries eulerSum
    push_cast
    calc (unit + ((eulerSeries num den unit terms (k + 1) * (2 * k * num) / ((2 * k + 1) * den) : ℕ)
          : ℚ) : ℚ)
        ≤ unit + eulerSeries num den unit terms (k + 1) * (2 * k * num) / ((2 * k + 1) * den) := by
          gcongr
      _ ≤ unit + unit * eulerSum (num / den) terms (k + 1) * (2 * k * num) /
            ((2 * k + 1) * den) := by gcongr; exact ih (k + 1)
      _ = unit * (1 + eulerSum (num / den) terms (k + 1) * (2 * k * (num / den)) / (2 * k + 1)) := by
          field_simp

theorem unit_le_eulerSeries (terms k : ℕ) : unit ≤ eulerSeries num den unit terms k := by
  cases terms <;> simp [eulerSeries]

/-- Below an eighth of a turn each term is less than half of the one before. -/
theorem eulerSeries_le (h : 2 * num ≤ den) (terms k : ℕ) :
    eulerSeries num den unit terms k ≤ 2 * unit := by
  induction terms generalizing k with
  | zero => simp [eulerSeries]; omega
  | succ terms ih =>
    have hterm : eulerSeries num den unit terms (k + 1) * (2 * k * num) / ((2 * k + 1) * den) ≤
        unit := by
      refine Nat.div_le_of_le_mul ?_
      calc eulerSeries num den unit terms (k + 1) * (2 * k * num)
          ≤ 2 * unit * (2 * k * num) := Nat.mul_le_mul_right _ (ih (k + 1))
        _ = 2 * k * (2 * num) * unit := by ring
        _ ≤ (2 * k + 1) * den * unit := by gcongr; omega
    unfold eulerSeries
    omega

theorem arctan_le {x y : ℕ} (h : y ≤ x) : arctan y x unit ≤ unit := by
  have hsquare : 2 * (y * y) ≤ x * x + y * y := by nlinarith
  have hproduct : 2 * (y * x) ≤ x * x + y * y := by nlinarith [sq_nonneg ((x : ℤ) - y)]
  refine Nat.div_le_of_le_mul ?_
  calc y * x * eulerSeries (y * y) (x * x + y * y) unit angleBits 1
      ≤ y * x * (2 * unit) := Nat.mul_le_mul_left _ (eulerSeries_le unit hsquare _ _)
    _ = 2 * (y * x) * unit := by ring
    _ ≤ (x * x + y * y) * unit := Nat.mul_le_mul_right _ hproduct

theorem bearing_le (left : Bool) (x y : ℕ) : bearing left x y unit ≤ 2 * quarterTurn unit := by
  have hquarter : unit ≤ quarterTurn unit := unit_le_eulerSeries unit _ _
  unfold bearing
  split_ifs with h
  · exact Nat.sub_le _ _
  · have := arctan_le unit h
    omega
  · have := arctan_le unit (Nat.le_of_not_le h)
    omega
  · omega

end Series

/-! ## Half a turn -/

/-- Twice the bits of `pi`, and one more: the middle between `pi` and the next double. -/
def afterPi : ℕ := 14148475504056881

theorem roundBinary_afterPi : roundBinary afterPi (-52) = pi := by decide +kernel

/-- Half a turn is not beyond the middle between `pi` and the next double. -/
theorem quarterTurn_le (unit : ℕ) : (2 * quarterTurn unit : ℚ) ≤ unit * (afterPi / 2 ^ 52) := by
  have hseries : (quarterTurn unit : ℚ) ≤ unit * eulerSum (1 / 2) angleBits 1 := by
    exact_mod_cast eulerSeries_le_eulerSum unit two_pos angleBits 1
  have hsum : 2 * eulerSum (1 / 2) angleBits 1 ≤ afterPi / 2 ^ 52 := by decide +kernel
  calc (2 * quarterTurn unit : ℚ) ≤ 2 * (unit * eulerSum (1 / 2) angleBits 1) := by gcongr
    _ = unit * (2 * eulerSum (1 / 2) angleBits 1) := by ring
    _ ≤ unit * (afterPi / 2 ^ 52) := by gcongr

theorem bearing_le_afterPi (left : Bool) (x y bits : ℕ) :
    (bearing left x y (1 <<< bits) * 2 ^ (-bits : ℤ) : ℝ) ≤ afterPi * 2 ^ (-52 : ℤ) := by
  have hunit : 1 <<< bits = 2 ^ bits := by rw [Nat.shiftLeft_eq, one_mul]
  have hbearing : (bearing left x y (2 ^ bits) : ℝ) ≤ 2 * quarterTurn (2 ^ bits) := by
    exact_mod_cast bearing_le (2 ^ bits) left x y
  have hquarter : (2 * quarterTurn (2 ^ bits) : ℝ) ≤ 2 ^ bits * (afterPi / 2 ^ 52) := by
    have h := (Rat.cast_le (K := ℝ)).mpr (quarterTurn_le (2 ^ bits))
    push_cast at h
    exact h
  rw [hunit, zpow_neg, zpow_natCast, ← div_eq_mul_inv, div_le_iff₀ (by positivity)]
  calc (bearing left x y (2 ^ bits) : ℝ) ≤ 2 ^ bits * (afterPi / 2 ^ 52) := hbearing.trans hquarter
    _ = afterPi * 2 ^ (-52 : ℤ) * 2 ^ bits := by
      rw [zpow_neg, show ((2 : ℝ) ^ (52 : ℤ)) = 2 ^ 52 from rfl]
      ring

/-! ## Angles -/

theorem roundBinary_mem_Icc {m : ℕ} {e : ℤ} (h : (m * 2 ^ e : ℝ) ≤ afterPi * 2 ^ (-52 : ℤ)) :
    (roundBinary m e).isFinite = true ∧ value (roundBinary m e) ∈ Set.Icc 0 (value pi) := by
  have hnonneg : (0 : ℝ) ≤ m * 2 ^ e := by positivity
  have hrounds := roundsNearest_roundBinary m e
  have hpi := roundBinary_afterPi ▸ roundsNearest_roundBinary afterPi (-52)
  have hfour : |(m * 2 ^ e : ℝ)| ≤ 2 ^ (2 : ℤ) := by
    rw [abs_of_nonneg hnonneg]
    exact h.trans (by norm_num [afterPi])
  have hfinite := (hrounds.abs_value_le (by omega) (by omega) hfour).1
  exact ⟨hfinite, hrounds.value_nonneg hfinite hnonneg,
    (le_iff_value hfinite rfl).mp (hrounds.mono hpi hfinite rfl h)⟩

/-- **Range of the angles.** The angle of any vector is a number from `-pi` to `pi`. -/
theorem abs_value_atan2_le {x y : Float} (hx : x.isNaN = false) (hy : y.isNaN = false) :
    (atan2 y x).isFinite = true ∧ |value (atan2 y x)| ≤ value pi := by
  obtain ⟨hfinite, hlow, hhigh⟩ := roundBinary_mem_Icc (bearing_le_afterPi (binary x).negative
    (ratio x y).1 (ratio x y).2 (angleBits + ((ratio x y).1.log2 - (ratio x y).2.log2)))
  unfold atan2
  simp only [hx, hy, Bool.or_self, Bool.false_eq_true, if_false]
  split_ifs
  · rw [isFinite_neg, value_neg, abs_neg, abs_of_nonneg hlow]
    exact ⟨hfinite, hhigh⟩
  · rw [abs_of_nonneg hlow]
    exact ⟨hfinite, hhigh⟩

end PenTouch.Double
