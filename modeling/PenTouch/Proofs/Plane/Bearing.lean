import Mathlib
import PenTouch.Proofs.Plane.Euclidean

/-!
# Bearings

The unit vectors of the Euclidean plane, by their angle in radians.

1. `ofAngle_add_ofAngle`: two of them add up to a vector halfway between them.
2. `Fan`: between bearings less than half a turn apart, no two cancel (`Fan.normalized?_add`), and
   each unit vector has one bearing (`Fan.ofAngle_inj`).
3. `Fan.exists_blend`: a multiple of one of them, no longer than that, and another one add up to
   one in between, or to nothing.
-/

namespace PenTouch

open scoped Exact

namespace Vector2

/-- The unit vector at a bearing. -/
noncomputable def ofAngle (θ : ℝ) : Vector2 ℝ := ⟨Real.cos θ, Real.sin θ⟩

@[simp] theorem norm_ofAngle (θ : ℝ) : (ofAngle θ).norm = 1 :=
  norm_of_sq zero_le_one ((Real.cos_sq_add_sin_sq θ).trans (one_pow 2).symm)

theorem normalized?_scale {u : Vector2 ℝ} (hu : u.norm = 1) {k : ℝ} (hk : 0 < k) :
    (u.scale k).normalized? = if Scalar.epsilon < k then some u else none := by
  have hnorm : (u.scale k).norm = k := by
    rw [norm_eq, euclidean_scale, norm_smul, ← norm_eq, hu, mul_one, Real.norm_of_nonneg hk.le]
  have hscale : (u.scale k).scale k⁻¹ = u := by
    show (⟨u.x * k * k⁻¹, u.y * k * k⁻¹⟩ : Vector2 ℝ) = u
    rw [mul_inv_cancel_right₀ hk.ne', mul_inv_cancel_right₀ hk.ne']
  split
  case isTrue h => exact normalized?_eq_some.mpr ⟨by rwa [hnorm], by rwa [hnorm]⟩
  case isFalse h =>
    refine Option.eq_none_iff_forall_not_mem.mpr fun v hv => h ?_
    rw [← hnorm]
    exact (normalized?_eq_some.mp hv).1

/-! ## Sums -/

theorem midpoint_eq (a b : ℝ) : midpoint ℝ a b = (a + b) / 2 := by
  rw [midpoint_eq_smul_add, smul_eq_mul, invOf_eq_inv, inv_mul_eq_div]

theorem midpoint_swap_iff {a b x y : ℝ} : midpoint ℝ a y = midpoint ℝ b x ↔ a - x = b - y := by
  rw [midpoint_eq, midpoint_eq]
  constructor <;> intro h <;> linarith

theorem ofAngle_add_ofAngle (a b : ℝ) :
    ofAngle a + ofAngle b = (ofAngle ((a + b) / 2)).scale (2 * Real.cos ((a - b) / 2)) := by
  show (⟨Real.cos a + Real.cos b, Real.sin a + Real.sin b⟩ : Vector2 ℝ) =
    ⟨Real.cos ((a + b) / 2) * (2 * Real.cos ((a - b) / 2)),
      Real.sin ((a + b) / 2) * (2 * Real.cos ((a - b) / 2))⟩
  rw [Real.cos_add_cos, Real.sin_add_sin]
  congr 1 <;> ring

theorem scale_add_ofAngle (w μ δ : ℝ) :
    (ofAngle (μ - δ)).scale w + ofAngle (μ + δ) =
      ⟨(1 + w) * Real.cos δ * Real.cos μ - (1 - w) * Real.sin δ * Real.sin μ,
        (1 + w) * Real.cos δ * Real.sin μ + (1 - w) * Real.sin δ * Real.cos μ⟩ := by
  show (⟨Real.cos (μ - δ) * w + Real.cos (μ + δ), Real.sin (μ - δ) * w + Real.sin (μ + δ)⟩ :
    Vector2 ℝ) = _
  rw [Real.cos_sub, Real.cos_add, Real.sin_sub, Real.sin_add]
  congr 1 <;> ring

theorem abs_arctan (x : ℝ) : |Real.arctan x| = Real.arctan |x| := by
  rcases le_total 0 x with h | h
  · rw [abs_of_nonneg h, abs_of_nonneg (Real.arctan_nonneg.mpr h)]
  · rw [abs_of_nonpos h, abs_of_nonpos (Real.arctan_le_zero.mpr h), Real.arctan_neg]

/-- A multiple of a unit vector, no longer than that, and another one add up to a vector between
them. -/
theorem exists_scale_add_ofAngle {w m x : ℝ} (hw : 0 ≤ w) (hw' : w ≤ 1)
    (h : |(x - m) / 2| < Real.pi / 2) :
    ∃ α r, |α| ≤ |(x - m) / 2| ∧ 0 < r ∧
      (ofAngle m).scale w + ofAngle x = (ofAngle ((m + x) / 2 + α)).scale r := by
  generalize hμ : (m + x) / 2 = μ
  generalize hδ : (x - m) / 2 = δ at h ⊢
  obtain rfl : m = μ - δ := by linarith
  obtain rfl : x = μ + δ := by linarith
  obtain ⟨hlo, hhi⟩ := abs_lt.mp h
  have hcos : 0 < Real.cos δ := Real.cos_pos_of_mem_Ioo ⟨hlo, hhi⟩
  -- Seen from the middle, the sum goes this far sideways for each step forwards.
  generalize ht : (1 - w) / (1 + w) * Real.tan δ = t
  have hsideways : (1 + w) * Real.cos δ * t = (1 - w) * Real.sin δ := by
    rw [← ht, Real.tan_eq_sin_div_cos]
    field_simp
  have hα : 0 < Real.cos (Real.arctan t) := Real.cos_arctan_pos t
  have hsin : Real.sin (Real.arctan t) = t * Real.cos (Real.arctan t) := by
    rw [← Real.tan_mul_cos hα.ne', Real.tan_arctan]
  refine ⟨Real.arctan t, (1 + w) * Real.cos δ / Real.cos (Real.arctan t), ?_, by positivity, ?_⟩
  · have hle : |t| ≤ |Real.tan δ| := by
      rw [← ht, abs_mul, abs_of_nonneg (div_nonneg (sub_nonneg.mpr hw') (by positivity))]
      refine mul_le_of_le_one_left (abs_nonneg _) ((div_le_one (by positivity)).mpr ?_)
      linarith
    calc |Real.arctan t| = Real.arctan |t| := abs_arctan t
      _ ≤ Real.arctan |Real.tan δ| := Real.arctan_strictMono.monotone hle
      _ = |δ| := by rw [← abs_arctan, Real.arctan_tan hlo hhi]
  · rw [scale_add_ofAngle]
    show _ = (⟨Real.cos (μ + Real.arctan t) * _, Real.sin (μ + Real.arctan t) * _⟩ : Vector2 ℝ)
    rw [Real.cos_add, Real.sin_add, hsin, ← hsideways]
    congr 1 <;> field_simp

/-! ## Fans -/

/-- Bearings less than half a turn apart, by a margin: unit vectors at two bearings between them add
up to one that is longer than `Scalar.epsilon`, `2 ^ -52`, and so no rounding error. -/
structure Fan (lo hi : ℝ) : Prop where
  sub_le_pi : hi - lo ≤ Real.pi
  epsilon_lt : Scalar.epsilon < 2 * Real.cos ((hi - lo) / 2)

namespace Fan

variable {lo hi : ℝ} (h : Fan lo hi)

include h

theorem sub_lt_pi : hi - lo < Real.pi := by
  refine h.sub_le_pi.lt_of_ne fun heq => ?_
  have hlt := h.epsilon_lt
  rw [heq, Real.cos_pi_div_two, mul_zero] at hlt
  exact hlt.not_gt Scalar.epsilon_pos

variable {a b : ℝ} (ha : a ∈ Set.Icc lo hi) (hb : b ∈ Set.Icc lo hi)

include ha hb

omit h in
theorem abs_sub_le : |a - b| ≤ hi - lo :=
  abs_sub_le_iff.mpr ⟨by linarith [ha.2, hb.1], by linarith [ha.1, hb.2]⟩

theorem normalized?_add :
    (ofAngle a + ofAngle b).normalized? = some (ofAngle (midpoint ℝ a b)) := by
  have hle : Real.cos ((hi - lo) / 2) ≤ Real.cos ((a - b) / 2) := by
    rw [← Real.cos_abs ((a - b) / 2), abs_div, abs_two]
    refine Real.cos_le_cos_of_nonneg_of_le_pi (by positivity) ?_ ?_
    · linarith [h.sub_le_pi, Real.pi_pos]
    · linarith [abs_sub_le ha hb]
  have hlt : Scalar.epsilon < 2 * Real.cos ((a - b) / 2) := by linarith [h.epsilon_lt]
  rw [ofAngle_add_ofAngle, midpoint_eq,
    normalized?_scale (norm_ofAngle _) (Scalar.epsilon_pos.trans hlt), if_pos hlt]

theorem ofAngle_inj : ofAngle a = ofAngle b ↔ a = b := by
  refine ⟨fun hab => ?_, congrArg ofAngle⟩
  obtain ⟨hcos, hsin⟩ : Real.cos a = Real.cos b ∧ Real.sin a = Real.sin b := Vector2.mk.inj hab
  have hone : Real.cos (a - b) = 1 := by
    rw [Real.cos_sub, hcos, hsin, ← sq, ← sq, Real.cos_sq_add_sin_sq]
  obtain ⟨hlo, hhi⟩ := abs_lt.mp ((abs_sub_le ha hb).trans_lt h.sub_lt_pi)
  refine sub_eq_zero.mp ((Real.cos_eq_one_iff_of_lt_of_lt ?_ ?_).mp hone)
  · linarith [Real.pi_pos]
  · linarith [Real.pi_pos]

/-- What a multiple of a unit vector and another one blend to has a bearing between them. Where the
two cancel, it is the other one. -/
theorem exists_blend {w : ℝ} (hw : 0 ≤ w) (hw' : w ≤ 1) :
    ∃ k ∈ Set.Icc lo hi,
      ((ofAngle a).scale w + ofAngle b).normalized?.getD (ofAngle b) = ofAngle k := by
  have habs : |(b - a) / 2| < Real.pi / 2 := by
    rw [abs_div, abs_two]
    linarith [abs_sub_le hb ha, h.sub_lt_pi]
  obtain ⟨α, r, hα, hr, hsum⟩ := exists_scale_add_ofAngle hw hw' habs
  rw [hsum, normalized?_scale (norm_ofAngle _) hr]
  split
  case isFalse => exact ⟨b, hb, rfl⟩
  case isTrue =>
    obtain ⟨hlow, hhigh⟩ := abs_le.mp hα
    rcases abs_cases ((b - a) / 2) with ⟨heq, -⟩ | ⟨heq, -⟩ <;> rw [heq] at hlow hhigh
    · exact ⟨_, ⟨by linarith [ha.1], by linarith [hb.2]⟩, rfl⟩
    · exact ⟨_, ⟨by linarith [hb.1], by linarith [ha.2]⟩, rfl⟩

end Fan

end Vector2

end PenTouch
