import Mathlib
import PenTouch.Scalar

/-!
# Exact scalars

The real numbers are scalars too, with the exact operations and functions. What is computed over
them is what would be computed if nothing were rounded. They are scalars where `Exact` is open.
-/

namespace PenTouch

namespace Exact

/-- Exact arithmetic. No real number is above all others; a ratio to nothing is zero here. -/
noncomputable scoped instance : Scalar ℝ where
  decidableLT := inferInstance
  decidableLE := inferInstance
  ofNat n := n
  toNat x := ⌊x⌋₊
  isFinite _ := true
  unbounded := 1 / 0
  abs x := |x|
  sqrt := Real.sqrt
  hypot x y := √(x ^ 2 + y ^ 2)
  log := Real.log
  exp := Real.exp
  pow x y := x ^ y
  cos := Real.cos
  atan2 y x := Complex.arg ⟨x, y⟩
  pi := Real.pi
  order := compare

end Exact

namespace Scalar

open scoped Exact

theorem ofNat_eq_cast (n : Nat) : (ofNat n : ℝ) = n := rfl

theorem decimal_zero : (0.0 : ℝ) = 0 := by norm_num

theorem decimal_half : (0.5 : ℝ) = 1 / 2 := by norm_num

theorem decimal_one : (1.0 : ℝ) = 1 := by norm_num

theorem decimal_two : (2.0 : ℝ) = 2 := by norm_num

theorem decimal_four : (4.0 : ℝ) = 4 := by norm_num

theorem epsilon_pos : (0 : ℝ) < epsilon := by
  show (0 : ℝ) < 1.0 / (Nat.pow 2 52 : ℕ)
  norm_num

theorem epsilon_lt_one : (epsilon : ℝ) < 1 := by
  show (1.0 / (Nat.pow 2 52 : ℕ) : ℝ) < 1
  norm_num

theorem larger_eq_max (x y : ℝ) : larger x y = max x y := by
  unfold larger
  split_ifs with hlt hself
  · exact (max_eq_right hlt.le).symm
  · exact (max_eq_left (not_lt.mp hlt)).symm
  · exact absurd (beq_self_eq_true x) hself

theorem clamp_of_mem_Icc {x : ℝ} (h : x ∈ Set.Icc 0 1) : clamp x 0.0 1.0 = x := by
  unfold clamp
  rw [decimal_zero, decimal_one, if_neg h.1.not_gt, if_neg h.2.not_gt]

theorem foldl_add_eq_sum {β : Type} (f : β → ℝ) (list : List β) :
    list.foldl (fun sum x => sum + f x) 0.0 = (list.map f).sum := by
  have hfold : ∀ c : ℝ, list.foldl (fun sum x => sum + f x) c = c + (list.map f).sum := by
    induction list with
    | nil => intro c; simp
    | cons x list ih =>
      intro c
      rw [List.foldl_cons, ih, List.map_cons, List.sum_cons, add_assoc]
  rw [hfold, decimal_zero, zero_add]

end Scalar

end PenTouch
