import Mathlib
import PenTouch.Contact.Peak
import PenTouch.Proofs.Linear.Definite

/-!
# Summits in exact arithmetic

`Peak.summit?` finds the highest point of a quadratic that opens downwards, and the inverse of its
curvature.

1. `Quadratic.hessian_value`: the second derivatives of a quadratic are the same everywhere.
2. `Quadratic.value_combo`, `Quadratic.value_eq_of_gradient`: with them, a quadratic is told by two
   of its values, and by one where its gradient is zero.
3. `Peak.isSummit_of_summit?`: so the peak is the summit.
4. `Peak.IsSummit.eq_of_gaussian`: the summit of a Gaussian's logarithm is the Gaussian's mean, and
   the inverse of its curvature is the covariance.
-/

namespace PenTouch

open scoped Exact Matrix

/-! ## Quadratics -/

/-- The quadratic `a x² + b xy + c y² + d x + e y + f`. -/
@[ext] structure Quadratic where
  a : ℝ
  b : ℝ
  c : ℝ
  d : ℝ
  e : ℝ
  f : ℝ

/-- The matrix of the second derivatives along the axes. -/
noncomputable def hessian (f : (Fin 2 → ℝ) → ℝ) (u : Fin 2 → ℝ) : Matrix (Fin 2) (Fin 2) ℝ :=
  .of fun i j => lineDeriv ℝ (fun w => lineDeriv ℝ f w (Pi.single i 1)) u (Pi.single j 1)

namespace Quadratic

def value (q : Quadratic) (u : Fin 2 → ℝ) : ℝ :=
  q.a * u 0 ^ 2 + q.b * (u 0 * u 1) + q.c * u 1 ^ 2 + q.d * u 0 + q.e * u 1 + q.f

/-- The second derivatives, with the other sign. -/
def bend (q : Quadratic) : Linear.Symmetric ℝ := ⟨-(q.a + q.a), -q.b, -(q.c + q.c)⟩

theorem lineDeriv_value (q : Quadratic) (u v : Fin 2 → ℝ) : lineDeriv ℝ q.value u v =
    (2 * q.a * u 0 + q.b * u 1 + q.d) * v 0 + (q.b * u 0 + 2 * q.c * u 1 + q.e) * v 1 := by
  have hline : ∀ t : ℝ, q.value (u + t • v) = q.value u +
      t * ((2 * q.a * u 0 + q.b * u 1 + q.d) * v 0 + (q.b * u 0 + 2 * q.c * u 1 + q.e) * v 1) +
      t ^ 2 * (q.a * v 0 ^ 2 + q.b * (v 0 * v 1) + q.c * v 1 ^ 2) := by
    intro t
    simp only [value, Pi.add_apply, Pi.smul_apply, smul_eq_mul]
    ring
  unfold lineDeriv
  simp only [hline]
  generalize (2 * q.a * u 0 + q.b * u 1 + q.d) * v 0 + (q.b * u 0 + 2 * q.c * u 1 + q.e) * v 1 = k
  generalize q.a * v 0 ^ 2 + q.b * (v 0 * v 1) + q.c * v 1 ^ 2 = l
  have hlinear : HasDerivAt (fun t : ℝ => q.value u + t * k) k 0 := by
    simpa using ((hasDerivAt_id (0 : ℝ)).mul_const k).const_add (q.value u)
  have hsquare : HasDerivAt (fun t : ℝ => t ^ 2 * l) 0 0 := by
    simpa using (hasDerivAt_pow 2 (0 : ℝ)).mul_const l
  simpa using (hlinear.fun_add hsquare).deriv

theorem hessian_value (q : Quadratic) (u : Fin 2 → ℝ) : hessian q.value u = -q.bend.matrix := by
  have hfirst : ∀ i : Fin 2, (fun w => lineDeriv ℝ q.value w (Pi.single i 1)) =
      (![⟨0, 0, 0, 2 * q.a, q.b, q.d⟩, ⟨0, 0, 0, q.b, 2 * q.c, q.e⟩] i : Quadratic).value := by
    intro i
    funext w
    rw [lineDeriv_value]
    fin_cases i <;> simp [value]
  ext i j
  show lineDeriv ℝ (fun w => lineDeriv ℝ q.value w (Pi.single i 1)) u (Pi.single j 1) = _
  rw [hfirst, lineDeriv_value]
  fin_cases i <;> fin_cases j <;> simp [bend, Linear.Symmetric.matrix, two_mul]

/-- The second derivatives tell how far a quadratic is above a chord. -/
theorem value_combo (q : Quadratic) (u v : Fin 2 → ℝ) {s t : ℝ} (h : s + t = 1) :
    q.value (s • u + t • v) = s * q.value u + t * q.value v +
      s * t / 2 * (star (u - v) ⬝ᵥ q.bend.matrix *ᵥ (u - v)) := by
  obtain rfl := eq_sub_of_add_eq' h
  rw [Linear.Symmetric.form_eq]
  simp only [value, bend, Pi.add_apply, Pi.sub_apply, Pi.smul_apply, smul_eq_mul]
  ring

/-- The second derivatives tell how far a quadratic is below its value where its gradient is
zero. -/
theorem value_eq_of_gradient (q : Quadratic) {m : Fin 2 → ℝ}
    (hx : 2 * q.a * m 0 + q.b * m 1 + q.d = 0) (hy : q.b * m 0 + 2 * q.c * m 1 + q.e = 0)
    (u : Fin 2 → ℝ) :
    q.value u = q.value m - 1 / 2 * (star (u - m) ⬝ᵥ q.bend.matrix *ᵥ (u - m)) := by
  rw [Linear.Symmetric.form_eq]
  simp only [value, bend, Pi.sub_apply]
  linear_combination (u 0 - m 0) * hx + (u 1 - m 1) * hy

end Quadratic

/-! ## Summits -/

/-- The quadratic is strictly concave, the peak is where it is highest, and the peak's covariance is
the inverse of its second derivatives with the other sign. -/
structure Peak.IsSummit (p : Peak ℝ) (q : Quadratic) : Prop where
  concave : StrictConcaveOn ℝ Set.univ q.value
  highest : ∀ u, u ≠ ![p.x, p.y] → q.value u < q.value ![p.x, p.y]
  inverse : ∀ u, p.spread.matrix * -hessian q.value u = 1

theorem Quadratic.strictConcaveOn {q : Quadratic} (h : q.bend.matrix.PosDef) :
    StrictConcaveOn ℝ Set.univ q.value := by
  refine ⟨convex_univ, fun u _ v _ huv s t hs ht hst => ?_⟩
  have hform := h.dotProduct_mulVec_pos (sub_ne_zero.mpr huv)
  rw [q.value_combo u v hst, smul_eq_mul, smul_eq_mul, lt_add_iff_pos_right]
  positivity

/-- What `summit?` computes: where the gradient is zero, and the inverse of the second derivatives,
if they are those of a quadratic that opens downwards. -/
theorem Peak.summit?_spec {q : Quadratic} {p : Peak ℝ}
    (h : summit? q.a q.b q.c q.d q.e = some p) :
    q.bend.matrix.PosDef ∧ p.spread.matrix * q.bend.matrix = 1 ∧
      2 * q.a * p.x + q.b * p.y + q.d = 0 ∧ q.b * p.x + 2 * q.c * p.y + q.e = 0 := by
  unfold summit? at h
  simp only [Scalar.decimal_two, Scalar.decimal_four, Scalar.decimal_zero] at h
  split_ifs at h with hdown
  obtain ⟨ha, hdown⟩ := not_or.mp hdown
  have hpos := Scalar.epsilon_pos.trans (not_le.mp (not_or.mp hdown).2)
  generalize hdet : 4 * q.a * q.c - q.b * q.b = det at h hpos
  obtain rfl := Option.some.inj h
  refine ⟨Linear.Symmetric.posDef_iff.mpr ⟨?_, ?_⟩, ?_, ?_, ?_⟩
  · show 0 < -(q.a + q.a)
    linarith [not_le.mp ha]
  · show (-q.b) ^ 2 < -(q.a + q.a) * -(q.c + q.c)
    linarith
  · have hdiagonal : -2 * q.c / det * -(q.a + q.a) + q.b / det * -q.b = 1 := by
      field_simp
      linear_combination hdet
    have hdiagonal' : q.b / det * -q.b + -2 * q.a / det * -(q.c + q.c) = 1 := by
      field_simp
      linear_combination hdet
    have hbeside : -2 * q.c / det * -q.b + q.b / det * -(q.c + q.c) = 0 := by ring
    have hbeside' : q.b / det * -(q.a + q.a) + -2 * q.a / det * -q.b = 0 := by ring
    simp only [Linear.Symmetric.matrix, Quadratic.bend, Matrix.mul_fin_two, Matrix.one_fin_two,
      hdiagonal, hdiagonal', hbeside, hbeside']
  · field_simp
    linear_combination -q.d * hdet
  · field_simp
    linear_combination -q.e * hdet

/-- **The summit.** -/
theorem Peak.isSummit_of_summit? {q : Quadratic} {p : Peak ℝ}
    (h : summit? q.a q.b q.c q.d q.e = some p) : p.IsSummit q := by
  obtain ⟨hposDef, hinverse, hx, hy⟩ := summit?_spec h
  refine ⟨Quadratic.strictConcaveOn hposDef, fun u hu => ?_, fun u => ?_⟩
  · have hform := hposDef.dotProduct_mulVec_pos (sub_ne_zero.mpr hu)
    rw [Quadratic.value_eq_of_gradient (m := ![p.x, p.y]) q hx hy u, sub_lt_self_iff]
    positivity
  · rw [Quadratic.hessian_value, neg_neg, hinverse]

/-! ## Gaussians -/

/-- The function is a Gaussian of any height. -/
structure IsGaussian (g : (Fin 2 → ℝ) → ℝ) (mean : Fin 2 → ℝ)
    (covariance : Matrix (Fin 2) (Fin 2) ℝ) : Prop where
  posDef : covariance.PosDef
  shape : ∃ height > 0, ∀ u, g u =
    height * Real.exp (-(1 / 2) * (star (u - mean) ⬝ᵥ covariance⁻¹ *ᵥ (u - mean)))

section Gaussian

variable {g : (Fin 2 → ℝ) → ℝ} {mean : Fin 2 → ℝ} {covariance : Matrix (Fin 2) (Fin 2) ℝ}

theorem IsGaussian.log_eq (h : IsGaussian g mean covariance) (u : Fin 2 → ℝ) :
    Real.log (g u) = Real.log (g mean) -
      1 / 2 * (star (u - mean) ⬝ᵥ covariance⁻¹ *ᵥ (u - mean)) := by
  obtain ⟨height, hheight, hshape⟩ := h.shape
  rw [hshape, hshape, sub_self, star_zero, zero_dotProduct, mul_zero, Real.exp_zero, mul_one,
    Real.log_mul hheight.ne' (Real.exp_pos _).ne', Real.log_exp]
  ring

/-- The logarithm of a Gaussian is a quadratic, and the inverse of the covariance is its second
derivatives with the other sign. -/
theorem IsGaussian.exists_log (h : IsGaussian g mean covariance) :
    ∃ q : Quadratic, q.bend.matrix = covariance⁻¹ ∧ ∀ u, Real.log (g u) = q.value u := by
  have hsymm : covariance⁻¹ 1 0 = covariance⁻¹ 0 1 := h.posDef.inv.isHermitian.apply 0 1
  let q : Quadratic :=
    { a := -(1 / 2) * covariance⁻¹ 0 0
      b := -covariance⁻¹ 0 1
      c := -(1 / 2) * covariance⁻¹ 1 1
      d := covariance⁻¹ 0 0 * mean 0 + covariance⁻¹ 0 1 * mean 1
      e := covariance⁻¹ 0 1 * mean 0 + covariance⁻¹ 1 1 * mean 1
      f := Real.log (g mean) - 1 / 2 * (star mean ⬝ᵥ covariance⁻¹ *ᵥ mean) }
  have hbend : q.bend.matrix = covariance⁻¹ := by
    ext i j
    fin_cases i <;> fin_cases j <;>
      simp [q, Quadratic.bend, Linear.Symmetric.matrix, hsymm] <;> ring
  refine ⟨q, hbend, fun u => ?_⟩
  have hconstant : q.f = Real.log (g mean) - 1 / 2 * (star mean ⬝ᵥ q.bend.matrix *ᵥ mean) := by
    rw [hbend]
  rw [Linear.Symmetric.form_eq] at hconstant
  rw [h.log_eq, ← hbend, Linear.Symmetric.form_eq]
  unfold Quadratic.value
  rw [hconstant]
  simp only [q, Quadratic.bend, Pi.sub_apply]
  ring

/-- **Gaussians.** -/
theorem Peak.IsSummit.eq_of_gaussian {p : Peak ℝ} {q : Quadratic} (h : p.IsSummit q)
    (hbend : q.bend.matrix = covariance⁻¹) (hg : IsGaussian g mean covariance)
    (hvalue : ∀ u, Real.log (g u) = q.value u) :
    ![p.x, p.y] = mean ∧ p.spread.matrix = covariance := by
  constructor
  · by_contra hne
    have hlt := h.highest mean (Ne.symm hne)
    have hpos := hg.posDef.inv.posSemidef.dotProduct_mulVec_nonneg (![p.x, p.y] - mean)
    rw [← hvalue, ← hvalue, hg.log_eq ![p.x, p.y]] at hlt
    linarith
  · have hinverse := h.inverse mean
    rw [Quadratic.hessian_value, neg_neg, hbend] at hinverse
    have hdet : IsUnit covariance.det := (Matrix.isUnit_iff_isUnit_det _).mp hg.posDef.isUnit
    calc p.spread.matrix = p.spread.matrix * (covariance⁻¹ * covariance) := by
          rw [Matrix.nonsing_inv_mul _ hdet, mul_one]
      _ = covariance := by rw [← mul_assoc, hinverse, one_mul]

end Gaussian

end PenTouch
