import Mathlib
import PenTouch.Proofs.Scalar.Nearest
import PenTouch.Proofs.Scalar.Nonnegative
import PenTouch.Proofs.Statistics.Histogram

/-!
# The level of a constant background

The mode of copies of a double is their running sum by their count, and both steps round.

1. `add_copy`: one more copy costs the sum at most one part in `2 ^ 53`, and never more than the
   copy. So the sum of `n` copies is off by at most `n (n - 2)` such parts of a copy
   (`sumOfCopies_error`).
2. `mean_error`: the level itself is a double, and none is nearer to the mean than the rounded
   quotient; so the division at most doubles the error.
3. `mode_of_background`: the mode is close to the level, and is the level as long as its multiples
   have no more than 53 bits. Three copies may already be too many (`mode_misses_background`).
-/

namespace PenTouch.Statistics

open Double Float.Model UnpackedFloat

/-- From here on, adding one more changes nothing. -/
def sumLimit : Float := 9007199254740992.0

theorem value_sumLimit : value sumLimit = 2 ^ 53 := by
  have h : sumLimit.toModel.unpack = .finite .positive (2 ^ 52) 1 (by decide) := rfl
  unfold value
  rw [h]
  norm_num [unpackedValue, Sign.apply]

theorem sumLimit_add_one : sumLimit + 1.0 = sumLimit := by decide +kernel

/-- What one more copy costs a sum that is off by as much as its copies allow. -/
theorem error_step {n : ℕ} (hn : 2 ≤ n) {s x d u : ℝ} (hx : 0 ≤ x) (hu : 0 ≤ u)
    (hs : |s - n * x| ≤ (n - 2) * n * (u * x)) (hd : d ≤ x) (hd' : d ≤ u * (s + x)) :
    d ≤ (2 * n - 1) * (u * x) := by
  have hn' : (2 : ℝ) ≤ n := by exact_mod_cast hn
  rcases le_or_gt (n * u) 1 with hfew | hmany
  · have hpart : (n - 2) * n * (u * x) ≤ (n - 2) * x := by
      calc (n - 2) * n * (u * x) = (n - 2) * x * (n * u) := by ring
        _ ≤ (n - 2) * x := mul_le_of_le_one_right (mul_nonneg (by linarith) hx) hfew
    have hsum : s + x ≤ (2 * n - 1) * x := by linarith [(abs_le.mp hs).2]
    calc d ≤ u * ((2 * n - 1) * x) := hd'.trans (mul_le_mul_of_nonneg_left hsum hu)
      _ = (2 * n - 1) * (u * x) := by ring
  · calc d ≤ x := hd
      _ ≤ n * u * x := le_mul_of_one_le_left hx hmany.le
      _ = n * (u * x) := by ring
      _ ≤ (2 * n - 1) * (u * x) :=
        mul_le_mul_of_nonneg_right (by linarith) (mul_nonneg hu hx)

section Background

variable {v : Float} (h0 : 0.0 ≤ v) (h1 : v ≤ 1.0)

include h0 h1

theorem value_mem_Icc : v.isFinite = true ∧ value v ∈ Set.Icc 0 1 := by
  have hv := isFinite_of_le_of_le rfl rfl h0 h1
  rw [zero_le_iff_value hv] at h0
  rw [le_iff_value hv rfl, value_one] at h1
  exact ⟨hv, h0, h1⟩

/-! ## The sum -/

theorem sumOfCopies_mem_Icc (n : ℕ) :
    (sumOfCopies n v).isFinite = true ∧ value (sumOfCopies n v) ∈ Set.Icc 0 (2 ^ 53) := by
  obtain ⟨hv, hpos, hle⟩ := value_mem_Icc h0 h1
  induction n with
  | zero =>
    rw [sumOfCopies_zero]
    exact ⟨rfl, by simp [value_zero]⟩
  | succ n ih =>
    obtain ⟨hs, hs0, hs1⟩ := ih
    rw [sumOfCopies_succ]
    have hadd := roundsNearest_add hs hv
    obtain ⟨hfinite, -⟩ := hadd.abs_value_le (k := 54) (by decide) (by decide) (by
      rw [abs_of_nonneg (by positivity)]
      norm_num at hs1 ⊢
      linarith)
    have hlimit := hadd.mono (roundsNearest_add (x := sumLimit) (y := 1.0) rfl rfl) hfinite rfl (by
      rw [value_sumLimit, value_one]
      linarith)
    rw [sumLimit_add_one, le_iff_value hfinite rfl, value_sumLimit] at hlimit
    exact ⟨hfinite, hadd.value_nonneg hfinite (by positivity), hlimit⟩

theorem leastUnits_add_copy (n : ℕ) : LeastUnits (value (sumOfCopies n v) + value v) :=
  (leastUnits_value (sumOfCopies_mem_Icc h0 h1 n).1).add
    (leastUnits_value (value_mem_Icc h0 h1).1)

/-- One more copy costs at most one part in `2 ^ 53`, and never more than the copy. -/
theorem add_copy (n : ℕ) :
    |value (sumOfCopies n v) + value v - value (sumOfCopies (n + 1) v)| ≤ value v ∧
    |value (sumOfCopies n v) + value v - value (sumOfCopies (n + 1) v)| ≤
      2 ^ (-53 : ℤ) * (value (sumOfCopies n v) + value v) := by
  obtain ⟨hv, hpos, -⟩ := value_mem_Icc h0 h1
  obtain ⟨hs, hs0, -⟩ := sumOfCopies_mem_Icc h0 h1 n
  obtain ⟨hfinite, -⟩ := sumOfCopies_mem_Icc h0 h1 (n + 1)
  have hunits := leastUnits_add_copy h0 h1 n
  rw [sumOfCopies_succ] at hfinite ⊢
  have hadd := roundsNearest_add hs hv
  constructor
  · have := hadd.abs_sub_le hfinite hs
    rwa [add_sub_cancel_left, abs_of_nonneg hpos] at this
  · have := hadd.relative_error hfinite hunits
    rwa [abs_of_nonneg (add_nonneg hs0 hpos)] at this

theorem sumOfCopies_exact {n : ℕ} (h : ∀ k ≤ n, Short (k * value v)) :
    value (sumOfCopies n v) = n * value v := by
  induction n with
  | zero => simp [value_zero]
  | succ n ih =>
    have hsum : value (sumOfCopies n v) + value v = (n + 1 : ℕ) * value v := by
      rw [ih fun k hk => h k (by omega)]
      push_cast
      ring
    have hunits := leastUnits_add_copy h0 h1 n
    obtain ⟨hfinite, -⟩ := sumOfCopies_mem_Icc h0 h1 (n + 1)
    obtain ⟨hs, -⟩ := sumOfCopies_mem_Icc h0 h1 n
    rw [sumOfCopies_succ] at hfinite ⊢
    rw [← hsum]
    exact (roundsNearest_add hs (value_mem_Icc h0 h1).1).eq_of_short hfinite hunits
      (hsum ▸ h (n + 1) le_rfl)

theorem sumOfCopies_of_le_two {n : ℕ} (hn : n ≤ 2) :
    value (sumOfCopies n v) = n * value v := by
  have hshort := short_value (value_mem_Icc h0 h1).1
  refine sumOfCopies_exact h0 h1 fun k hk => ?_
  obtain rfl | rfl | rfl : k = 0 ∨ k = 1 ∨ k = 2 := by omega
  · exact ⟨0, 0, by simp⟩
  · simpa using hshort
  · exact_mod_cast hshort.two_mul

theorem sumOfCopies_error {n : ℕ} (hn : 2 ≤ n) :
    |value (sumOfCopies n v) - n * value v| ≤ (n - 2) * n * (2 ^ (-53 : ℤ) * value v) := by
  obtain ⟨-, hpos, -⟩ := value_mem_Icc h0 h1
  induction n, hn using Nat.le_induction with
  | base =>
    rw [sumOfCopies_of_le_two h0 h1 le_rfl]
    simp
  | succ n hn ih =>
    obtain ⟨hcopy, hpart⟩ := add_copy h0 h1 n
    have hstep := error_step hn hpos (zpow_nonneg two_pos.le (-53)) ih hcopy hpart
    rw [abs_sub_comm] at hstep
    generalize value (sumOfCopies n v) = s at *
    generalize value (sumOfCopies (n + 1) v) = s' at *
    generalize value v = x at *
    push_cast
    calc |s' - (n + 1) * x| = |(s' - (s + x)) + (s - n * x)| := by ring_nf
      _ ≤ |s' - (s + x)| + |s - n * x| := abs_add_le _ _
      _ ≤ (2 * n - 1) * (2 ^ (-53 : ℤ) * x) + (n - 2) * n * (2 ^ (-53 : ℤ) * x) :=
        add_le_add hstep ih
      _ = (n + 1 - 2) * (n + 1) * (2 ^ (-53 : ℤ) * x) := by ring

theorem sumOfCopies_le (n : ℕ) : value (sumOfCopies n v) ≤ 2 * n * value v := by
  induction n with
  | zero => simp [value_zero]
  | succ n ih =>
    have hcopy := (abs_le.mp (add_copy h0 h1 n).1).1
    push_cast
    linarith

/-! ## The mean -/

theorem rounds_mean {n : ℕ} (hn : 0 < n) (hcount : (Float.ofNat n).isFinite = true) :
    (sumOfCopies n v / Float.ofNat n).isFinite = true ∧
      RoundsNearest (sumOfCopies n v / Float.ofNat n)
        (value (sumOfCopies n v) / value (Float.ofNat n)) := by
  obtain ⟨hs, hs0, hs1⟩ := sumOfCopies_mem_Icc h0 h1 n
  have hone : (1 : ℝ) ≤ value (Float.ofNat n) := by
    have hpos : (2 : ℝ) ^ (0 : ℤ) ≤ n := by
      rw [zpow_zero]
      exact_mod_cast hn
    simpa using (rounds_ofNat n).le_value (by decide) (by decide) hcount hpos
  have hdiv := roundsNearest_div hs hcount (by positivity)
  refine ⟨(hdiv.abs_value_le (k := 53) (by decide) (by decide) ?_).1, hdiv⟩
  rw [abs_of_nonneg (by positivity)]
  exact (div_le_self hs0 hone).trans hs1

theorem isFinite_mean {n : ℕ} (hn : 0 < n) :
    (sumOfCopies n v / Float.ofNat n).isFinite = true := by
  rcases isFinite_or_infinity (zero_le_ofNat n) with hcount | hcount
  · exact (rounds_mean h0 h1 hn hcount).1
  · exact (div_infinity (sumOfCopies_mem_Icc h0 h1 n).1 hcount).1

theorem mean_of_exact {n : ℕ} (hn : 0 < n) (hle : n ≤ 2 ^ 53)
    (h : value (sumOfCopies n v) = n * value v) :
    value (sumOfCopies n v / Float.ofNat n) = value v := by
  have hdiv := (rounds_mean h0 h1 hn (isFinite_ofNat (hle.trans (by decide)))).2
  rw [h, value_ofNat_of_le hle, mul_div_cancel_left₀ _ (by positivity)] at hdiv
  exact (hdiv.exact (value_mem_Icc h0 h1).1 rfl).2

/-- The level is a double, and none is nearer to the mean than the quotient. -/
theorem mean_error_of_le {n : ℕ} (hn : 2 ≤ n) (hle : n ≤ 2 ^ 53) :
    |value (sumOfCopies n v / Float.ofNat n) - value v| ≤ (n - 2) * 2 ^ (-52 : ℤ) * value v := by
  obtain ⟨hfinite, hdiv⟩ := rounds_mean h0 h1 (show 0 < n by omega)
    (isFinite_ofNat (hle.trans (by decide)))
  have hnear := hdiv.abs_sub_le hfinite (value_mem_Icc h0 h1).1
  have hsum := sumOfCopies_error h0 h1 hn
  rw [value_ofNat_of_le hle] at hnear
  have hpos : (0 : ℝ) < n := by exact_mod_cast (show 0 < n by omega)
  have hmean : |value (sumOfCopies n v) / n - value v| ≤ (n - 2) * (2 ^ (-53 : ℤ) * value v) := by
    rw [div_sub' hpos.ne', abs_div, abs_of_pos hpos, div_le_iff₀ hpos]
    linarith
  rw [abs_sub_comm] at hnear
  calc |value (sumOfCopies n v / Float.ofNat n) - value v|
      ≤ |value (sumOfCopies n v / Float.ofNat n) - value (sumOfCopies n v) / n| +
          |value (sumOfCopies n v) / n - value v| := abs_sub_le _ _ _
    _ ≤ (n - 2) * (2 ^ (-53 : ℤ) * value v) + (n - 2) * (2 ^ (-53 : ℤ) * value v) :=
        add_le_add (hnear.trans hmean) hmean
    _ = (n - 2) * 2 ^ (-52 : ℤ) * value v := by norm_num; ring

theorem quotient_le {n : ℕ} (hn : 0 < n) (hcount : (Float.ofNat n).isFinite = true) :
    value (sumOfCopies n v) / value (Float.ofNat n) ≤ 11 / 5 * value v := by
  obtain ⟨-, hpos, -⟩ := value_mem_Icc h0 h1
  have hn' : (0 : ℝ) < n := by exact_mod_cast hn
  have hround := (roundsNearest_ofNat n).relative_error hcount (leastUnits_natCast n)
  rw [abs_of_pos hn'] at hround
  have hlow := (abs_le.mp hround).2
  have hcount' : n ≤ 11 / 10 * value (Float.ofNat n) := by
    norm_num at hlow
    linarith
  rw [div_le_iff₀ (by linarith)]
  calc value (sumOfCopies n v) ≤ 2 * value v * n := by linarith [sumOfCopies_le h0 h1 n]
    _ ≤ 2 * value v * (11 / 10 * value (Float.ofNat n)) :=
        mul_le_mul_of_nonneg_left hcount' (by positivity)
    _ = 11 / 5 * value v * value (Float.ofNat n) := by ring

/-- Beyond all counts that are doubles the mean may be anything up to a few times the level. -/
theorem mean_error_of_ge {n : ℕ} (hn : 2 ^ 53 ≤ n) :
    |value (sumOfCopies n v / Float.ofNat n) - value v| ≤ (n - 2) * 2 ^ (-52 : ℤ) * value v := by
  obtain ⟨hv, hpos, -⟩ := value_mem_Icc h0 h1
  obtain ⟨hs, hs0, -⟩ := sumOfCopies_mem_Icc h0 h1 n
  have hn' : (9007199254740992 : ℝ) ≤ n := by exact_mod_cast hn
  have hmany : (3 / 2 : ℝ) ≤ (n - 2) * 2 ^ (-52 : ℤ) := by
    norm_num
    linarith
  refine le_trans ?_ (mul_le_mul_of_nonneg_right hmany hpos)
  rcases isFinite_or_infinity (zero_le_ofNat n) with hcount | hcount
  · obtain ⟨hfinite, hdiv⟩ := rounds_mean h0 h1 (show 0 < n by omega) hcount
    have hmean := hdiv.value_nonneg hfinite (div_nonneg hs0 ((zero_le_iff_value hcount).mp
      (zero_le_ofNat n)))
    -- The quotient is little more than twice the level, and twice the level is a double.
    have hnear := hdiv.abs_sub_le hfinite (sumOfCopies_mem_Icc h0 h1 2).1
    rw [sumOfCopies_of_le_two h0 h1 le_rfl, Nat.cast_ofNat] at hnear
    have hle : value (sumOfCopies n v) / value (Float.ofNat n) ≤ 11 / 5 * value v :=
      quotient_le h0 h1 (by omega) hcount
    generalize value (sumOfCopies n v) / value (Float.ofNat n) = q at hnear hle
    have hupper := (abs_le.mp hnear).1
    rw [abs_le]
    rcases abs_cases (q - 2 * value v) with ⟨habs, -⟩ | ⟨habs, -⟩ <;> rw [habs] at hupper <;>
      constructor <;> linarith
  · rw [(div_infinity hs hcount).2, zero_sub, abs_neg, abs_of_nonneg hpos]
    linarith

theorem mean_error {n : ℕ} (hn : 0 < n) :
    |value (sumOfCopies n v / Float.ofNat n) - value v| ≤
      (n - 2 : ℕ) * 2 ^ (-52 : ℤ) * value v := by
  rcases le_or_gt n 2 with hfew | hmore
  · rw [mean_of_exact h0 h1 hn (by omega) (sumOfCopies_of_le_two h0 h1 hfew), sub_self, abs_zero,
      Nat.sub_eq_zero_of_le hfew]
    simp
  · rw [Nat.cast_sub hmore.le]
    rcases le_total n (2 ^ 53) with hle | hge
    · exact mean_error_of_le h0 h1 hmore.le hle
    · exact mean_error_of_ge h0 h1 hge

/-- Nothing is rounded while the multiples of the level have no more than 53 bits. -/
theorem mean_of_short {n m : ℕ} {e : ℤ} (hn : 0 < n) (hv : value v = m * 2 ^ e)
    (hm : n * m ≤ 2 ^ 53) : value (sumOfCopies n v / Float.ofNat n) = value v := by
  rcases Nat.eq_zero_or_pos m with rfl | hpos
  · have herror := mean_error h0 h1 hn
    rw [show value v = 0 by simpa using hv, sub_zero, mul_zero] at herror
    rw [abs_nonpos_iff.mp herror, hv]
    simp
  · refine mean_of_exact h0 h1 hn ((Nat.le_mul_of_pos_right n hpos).trans hm)
      (sumOfCopies_exact h0 h1 fun k hk => ?_)
    refine ⟨k * m, e, (Nat.mul_le_mul_right m hk).trans hm, ?_⟩
    rw [hv, abs_of_nonneg (by positivity)]
    push_cast
    ring

/-! ## The mode -/

/-- **A constant background.** Whatever the number of bins is, the level of a background of copies
of one double is the running sum of the copies by their count. It is a number, and is off by at most
one part in `2 ^ 52` for each copy beyond the second. It is exactly the double for one copy and for
two, and as long as the sum has no more bits than a double. -/
theorem mode_of_background {n : ℕ} (hn : 0 < n) (bins : ℕ) :
    let level := mode bins (List.replicate n v)
    level = sumOfCopies n v / Float.ofNat n ∧ level.isFinite = true ∧
      |value level - value v| ≤ (n - 2 : ℕ) * 2 ^ (-52 : ℤ) * value v ∧
      (n ≤ 2 → (level == v) = true) ∧
      ∀ (m : ℕ) (e : ℤ), value v = m * 2 ^ e → n * m ≤ 2 ^ 53 → (level == v) = true := by
  intro level
  have hv := (value_mem_Icc h0 h1).1
  have hlevel : level = sumOfCopies n v / Float.ofNat n := mode_replicate (clamp_eq h0 h1) bins hn
  have hfinite := isFinite_mean h0 h1 hn
  rw [hlevel, beq_iff_value hfinite hv]
  refine ⟨rfl, hfinite, mean_error h0 h1 hn, fun hfew => ?_, fun m e hme hm => ?_⟩
  · exact mean_of_exact h0 h1 hn (by omega) (sumOfCopies_of_le_two h0 h1 hfew)
  · exact mean_of_short h0 h1 hn hme hm

end Background

/-- Three quarters have two bits, and their sum has no more than twelve. -/
theorem mode_of_background_quarters :
    0.0 ≤ (0.75 : Float) ∧ (0.75 : Float) ≤ 1.0 ∧ 0 < 1000 ∧
      (mode 64 (List.replicate 1000 (0.75 : Float)) == 0.75) = true := by
  have h0 : 0.0 ≤ (0.75 : Float) := by decide +kernel
  have h1 : (0.75 : Float) ≤ 1.0 := by decide +kernel
  have hunpack : (0.75 : Float).toModel.unpack =
    .finite .positive (3 * 2 ^ 51) (-53) (by decide) := rfl
  have hvalue : value 0.75 = (3 : ℕ) * 2 ^ (-2 : ℤ) := by
    unfold value
    rw [hunpack]
    norm_num [unpackedValue, Sign.apply]
  obtain ⟨-, -, -, -, hexact⟩ := mode_of_background h0 h1 (show 0 < 1000 by decide) 64
  exact ⟨h0, h1, by decide, hexact 3 (-2) hvalue (by decide)⟩

/-- Three copies of a double may already have a level that is not that double. -/
theorem mode_misses_background :
    ¬∀ (v : Float) (n bins : ℕ), 0.0 ≤ v → v ≤ 1.0 → 0 < n →
      (mode bins (List.replicate n v) == v) = true := by
  intro h
  have hmode := h 0.1000000275 3 64 (by decide +kernel) (by decide +kernel) (by decide)
  exact absurd hmode (by decide +kernel)

end PenTouch.Statistics
