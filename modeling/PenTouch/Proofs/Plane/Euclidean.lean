import Mathlib
import PenTouch.Plane
import PenTouch.Proofs.Scalar.Exact

/-!
# Exact vectors

Over exact scalars the vectors of the plane are those of the Euclidean plane (`euclidean`), with its
multiples, lengths and products, so that angles between them are those of geometry.
-/

namespace PenTouch

open scoped Exact

namespace Vector2

/-- The vector of the Euclidean plane. -/
noncomputable def euclidean (v : Vector2 ℝ) : EuclideanSpace ℝ (Fin 2) := .toLp _ ![v.x, v.y]

variable {u v w : Vector2 ℝ}

@[simp] theorem euclidean_scale (v : Vector2 ℝ) (k : ℝ) :
    (v.scale k).euclidean = k • v.euclidean := by
  ext i
  fin_cases i
  · exact mul_comm v.x k
  · exact mul_comm v.y k

protected theorem add_comm (v w : Vector2 ℝ) : v + w = w + v := by
  show (⟨v.x + w.x, v.y + w.y⟩ : Vector2 ℝ) = ⟨w.x + v.x, w.y + v.y⟩
  rw [add_comm v.x, add_comm v.y]

theorem add_self (v : Vector2 ℝ) : v + v = v.scale 2 := by
  show (⟨v.x + v.x, v.y + v.y⟩ : Vector2 ℝ) = ⟨v.x * 2, v.y * 2⟩
  rw [mul_two, mul_two]

theorem norm_eq (v : Vector2 ℝ) : v.norm = ‖v.euclidean‖ := by
  rw [EuclideanSpace.norm_eq, Fin.sum_univ_two, Real.norm_eq_abs, Real.norm_eq_abs, sq_abs, sq_abs]
  rfl

theorem norm_of_sq {n : ℝ} (hn : 0 ≤ n) (h : v.x ^ 2 + v.y ^ 2 = n ^ 2) : v.norm = n := by
  show √(v.x ^ 2 + v.y ^ 2) = n
  rw [h, Real.sqrt_sq hn]

theorem dot_eq (v w : Vector2 ℝ) : v.dot w = inner ℝ v.euclidean w.euclidean := by
  rw [PiLp.inner_apply, Fin.sum_univ_two]
  show v.x * w.x + v.y * w.y = w.x * v.x + w.y * v.y
  ring

theorem normalized?_eq_some :
    v.normalized? = some u ↔ Scalar.epsilon < v.norm ∧ v.scale v.norm⁻¹ = u := by
  unfold normalized?
  split
  case isTrue h =>
    rw [Option.some_inj]
    exact (and_iff_right h.1).symm
  case isFalse h => exact iff_of_false nofun fun hu => h ⟨hu.1, rfl⟩

theorem norm_of_normalized? (h : v.normalized? = some u) : u.norm = 1 := by
  obtain ⟨hlong, rfl⟩ := normalized?_eq_some.mp h
  have hpos : 0 < v.norm := Scalar.epsilon_pos.trans hlong
  rw [norm_eq, euclidean_scale, norm_smul, ← norm_eq, norm_inv, Real.norm_of_nonneg hpos.le]
  exact inv_mul_cancel₀ hpos.ne'

end Vector2

namespace Point

@[simp] theorem mk_sub_mk (x y x' y' : ℝ) :
    ((⟨x, y⟩ : Point ℝ) - (⟨x', y'⟩ : Point ℝ) : Vector2 ℝ) = ⟨x - x', y - y'⟩ := rfl

theorem distance_eq (p q : Point ℝ) : p.distance q = ‖(q - p : Vector2 ℝ).euclidean‖ :=
  Vector2.norm_eq _

theorem distance_self (p : Point ℝ) : p.distance p = 0 := by
  have hzero : (p - p : Vector2 ℝ).euclidean = 0 := by
    ext i
    fin_cases i
    · exact sub_self p.x
    · exact sub_self p.y
  rw [distance_eq, hzero, norm_zero]

theorem add_sub_self (p : Point ℝ) (v : Vector2 ℝ) : (p + v - p : Vector2 ℝ) = v := by
  show (⟨p.x + v.x - p.x, p.y + v.y - p.y⟩ : Vector2 ℝ) = v
  rw [add_sub_cancel_left, add_sub_cancel_left]

end Point

end PenTouch
