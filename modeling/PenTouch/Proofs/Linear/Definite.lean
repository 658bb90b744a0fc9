import Mathlib
import PenTouch.Linear.Axes
import PenTouch.Proofs.Scalar.Exact

/-!
# Definite matrices of order two

In exact arithmetic, the axes of a symmetric matrix tell whether it is positive definite.

1. `posDef_iff`: by the entries of the matrix.
2. `posDef_iff_form`: by the quadratic form of the matrix.
3. `minor_pos_iff`: by the smaller eigenvalue.
-/

namespace PenTouch.Linear.Symmetric

open scoped Exact Matrix

/-- The matrix with both halves. -/
def matrix (m : Symmetric ℝ) : Matrix (Fin 2) (Fin 2) ℝ := !![m.xx, m.xy; m.xy, m.yy]

variable {m : Symmetric ℝ}

theorem form_eq (m : Symmetric ℝ) (u : Fin 2 → ℝ) :
    star u ⬝ᵥ m.matrix *ᵥ u = m.xx * u 0 ^ 2 + 2 * m.xy * u 0 * u 1 + m.yy * u 1 ^ 2 := by
  simp only [matrix, star_trivial, dotProduct, Matrix.mulVec, Fin.sum_univ_two, Matrix.of_apply,
    Matrix.cons_val_zero, Matrix.cons_val_one]
  ring

theorem isHermitian_matrix (m : Symmetric ℝ) : m.matrix.IsHermitian := by
  ext i j
  fin_cases i <;> fin_cases j <;> rfl

theorem posDef_iff_form : m.matrix.PosDef ↔
    ∀ u v : ℝ, 0 < u ^ 2 + v ^ 2 → 0 < m.xx * u ^ 2 + 2 * m.xy * u * v + m.yy * v ^ 2 := by
  constructor
  · intro h u v huv
    have hne : ![u, v] ≠ 0 := by
      intro h0
      have hu : u = 0 := congrFun h0 0
      have hv : v = 0 := congrFun h0 1
      simp [hu, hv] at huv
    have hform := h.dotProduct_mulVec_pos hne
    rwa [form_eq] at hform
  · intro h
    refine .of_dotProduct_mulVec_pos m.isHermitian_matrix fun u hu => ?_
    rw [form_eq]
    refine h (u 0) (u 1) ?_
    obtain ⟨i, hi⟩ := Function.ne_iff.mp hu
    have hi : u i ≠ 0 := hi
    fin_cases i
    · exact add_pos_of_pos_of_nonneg (sq_pos_of_ne_zero hi) (sq_nonneg _)
    · exact add_pos_of_nonneg_of_pos (sq_nonneg _) (sq_pos_of_ne_zero hi)

theorem posDef_iff : m.matrix.PosDef ↔ 0 < m.xx ∧ m.xy ^ 2 < m.xx * m.yy := by
  rw [posDef_iff_form]
  constructor
  · intro h
    have hxx : 0 < m.xx := by simpa using h 1 0 (by norm_num)
    have hdet := h (-m.xy) m.xx (by positivity)
    refine ⟨hxx, ?_⟩
    have hmul : 0 < m.xx * (m.xx * m.yy - m.xy ^ 2) := by linarith
    exact sub_pos.mp ((mul_pos_iff_of_pos_left hxx).mp hmul)
  · rintro ⟨hxx, hdet⟩ u v huv
    -- Complete the square.
    have hsquare : m.xx * (m.xx * u ^ 2 + 2 * m.xy * u * v + m.yy * v ^ 2) =
        (m.xx * u + m.xy * v) ^ 2 + (m.xx * m.yy - m.xy ^ 2) * v ^ 2 := by ring
    refine (mul_pos_iff_of_pos_left hxx).mp ?_
    rw [hsquare]
    rcases eq_or_ne v 0 with rfl | hv
    · have hu : 0 < u ^ 2 := by simpa using huv
      rw [mul_zero, add_zero, mul_pow]
      positivity
    · have hpos : 0 < (m.xx * m.yy - m.xy ^ 2) * v ^ 2 :=
        mul_pos (sub_pos.mpr hdet) (by positivity)
      positivity

theorem minor_eq (m : Symmetric ℝ) :
    m.axes.minor = (m.xx + m.yy) / 2 - √(((m.xx - m.yy) / 2) ^ 2 + m.xy ^ 2) := by
  show (m.xx + m.yy) / 2.0 - √(((m.xx - m.yy) / 2.0) ^ 2 + m.xy ^ 2) = _
  norm_num

theorem major_eq (m : Symmetric ℝ) :
    m.axes.major = (m.xx + m.yy) / 2 + √(((m.xx - m.yy) / 2) ^ 2 + m.xy ^ 2) := by
  show (m.xx + m.yy) / 2.0 + √(((m.xx - m.yy) / 2.0) ^ 2 + m.xy ^ 2) = _
  norm_num

theorem minor_pos_iff : 0 < m.axes.minor ↔ m.matrix.PosDef := by
  rw [minor_eq, posDef_iff, sub_pos]
  constructor
  · intro h
    have hmean : 0 < (m.xx + m.yy) / 2 := (Real.sqrt_nonneg _).trans_lt h
    rw [Real.sqrt_lt' hmean] at h
    have hdet : m.xy ^ 2 < m.xx * m.yy := by linarith
    refine ⟨?_, hdet⟩
    by_contra hxx
    nlinarith [sq_nonneg m.xy]
  · rintro ⟨hxx, hdet⟩
    have hyy : 0 < m.yy := (mul_pos_iff_of_pos_left hxx).mp ((sq_nonneg _).trans_lt hdet)
    rw [Real.sqrt_lt' (by linarith)]
    linarith

end PenTouch.Linear.Symmetric
