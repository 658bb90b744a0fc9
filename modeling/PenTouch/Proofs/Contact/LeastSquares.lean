import Mathlib
import PenTouch.Proofs.Contact.Summit
import PenTouch.Proofs.Linear.Elimination

/-!
# Least squares in exact arithmetic

The quadratic of a Gaussian fit is the one that is closest to the logarithms of the intensities, and
the peak is its summit.

1. `Quadratic.solves_iff_stationary`: the normal equations hold just if the weighted distances
   cancel each other in every term.
2. `Quadratic.error_eq`: then every other quadratic is farther away by what it differs at the
   samples.
3. `Quadratic.closest_iff`: so if the normal equations have one solution, it is the closest
   quadratic and no other one is.
-/

namespace PenTouch

open scoped Exact

def Sample.place (s : Sample ℝ) : Fin 2 → ℝ := ![s.dx, s.dy]

namespace Quadratic

/-- The coefficients in the order of `Sample.terms`. -/
def coefficients (q : Quadratic) : Fin 6 → ℝ := ![q.a, q.b, q.c, q.d, q.e, q.f]

def of (k : Fin 6 → ℝ) : Quadratic := ⟨k 0, k 1, k 2, k 3, k 4, k 5⟩

/-- How far the quadratic is above a sample's logarithm. -/
noncomputable def excess (q : Quadratic) (s : Sample ℝ) : ℝ := q.value s.place - Real.log s.value

/-- The sum of the squared distances to the logarithms, weighted by the squared intensities. -/
noncomputable def error (q : Quadratic) (samples : List (Sample ℝ)) : ℝ :=
  (samples.map fun s => s.value ^ 2 * q.excess s ^ 2).sum

/-- No quadratic is closer to the logarithms. -/
def Closest (q : Quadratic) (samples : List (Sample ℝ)) : Prop :=
  ∀ r : Quadratic, q.error samples ≤ r.error samples

/-- The weighted distances cancel each other in every term. -/
def Stationary (q : Quadratic) (samples : List (Sample ℝ)) : Prop :=
  ∀ i, (samples.map fun s => s.value ^ 2 * s.terms.get i * q.excess s).sum = 0

theorem coefficients_of (k : Fin 6 → ℝ) : (of k).coefficients = k := by
  funext i
  fin_cases i <;> rfl

theorem coefficients_inj {q r : Quadratic} : q.coefficients = r.coefficients ↔ q = r := by
  refine ⟨fun h => ?_, congrArg coefficients⟩
  exact Quadratic.ext (congrFun h 0) (congrFun h 1) (congrFun h 2) (congrFun h 3) (congrFun h 4)
    (congrFun h 5)

theorem value_place (q : Quadratic) (s : Sample ℝ) :
    q.value s.place = ∑ k, s.terms.get k * q.coefficients k := by
  rw [Fin.sum_univ_six]
  show _ = s.dx * s.dx * q.a + s.dx * s.dy * q.b + s.dy * s.dy * q.c + s.dx * q.d + s.dy * q.e +
    1.0 * q.f
  rw [Scalar.decimal_one]
  show q.a * s.dx ^ 2 + q.b * (s.dx * s.dy) + q.c * s.dy ^ 2 + q.d * s.dx + q.e * s.dy + q.f = _
  ring

section Samples

variable {q r : Quadratic} {samples : List (Sample ℝ)}

theorem sum_map_sum (f : Sample ℝ → Fin 6 → ℝ) (c : Fin 6 → ℝ) (samples : List (Sample ℝ)) :
    ∑ k, (samples.map fun s => f s k).sum * c k = (samples.map fun s => ∑ k, f s k * c k).sum := by
  induction samples with
  | nil => simp
  | cons s samples ih =>
    simp only [List.map_cons, List.sum_cons, add_mul, Finset.sum_add_distrib, ih]

theorem solves_iff_stationary :
    Linear.System.Solves (Sample.normalEquations samples) q.coefficients ↔ q.Stationary samples := by
  unfold Linear.System.Solves Sample.normalEquations Stationary
  simp only [Vector.mem_ofFn, forall_exists_index, forall_apply_eq_imp_iff]
  refine forall_congr' fun i => ?_
  have hterm : ∀ s : Sample ℝ,
      ∑ k, s.weight * s.terms.get i * s.terms.get k * q.coefficients k =
        s.weight * s.terms.get i * Real.log s.value +
          s.value ^ 2 * s.terms.get i * q.excess s := by
    intro s
    have hweight : s.weight = s.value ^ 2 := (sq s.value).symm
    unfold excess
    rw [value_place, hweight, mul_sub, Finset.mul_sum, add_sub_cancel]
    exact Finset.sum_congr rfl fun k _ => by ring
  unfold Linear.Equation.Holds Linear.Equation.left
  simp only [Vector.get_eq_getElem, Fin.getElem_fin, Vector.getElem_ofFn,
    Scalar.foldl_add_eq_sum] at hterm ⊢
  rw [sum_map_sum, List.map_congr_left fun s _ => hterm s, List.sum_map_add]
  exact add_eq_left

theorem stationary_of_excess (h : ∀ s ∈ samples, q.excess s = 0) : q.Stationary samples := by
  refine fun i => List.sum_eq_zero fun x hx => ?_
  obtain ⟨s, hs, rfl⟩ := List.mem_map.mp hx
  rw [h s hs, mul_zero]

/-- Every quadratic is farther away than a stationary one by what it differs at the samples. -/
theorem error_eq (h : q.Stationary samples) (r : Quadratic) : r.error samples = q.error samples +
    (samples.map fun s => s.value ^ 2 * (r.value s.place - q.value s.place) ^ 2).sum := by
  have hcross : (samples.map fun s =>
      s.value ^ 2 * q.excess s * (r.value s.place - q.value s.place)).sum = 0 := by
    calc (samples.map fun s => s.value ^ 2 * q.excess s * (r.value s.place - q.value s.place)).sum
        = (samples.map fun s => ∑ k, s.value ^ 2 * s.terms.get k * q.excess s *
            (r.coefficients k - q.coefficients k)).sum := by
          refine congrArg List.sum (List.map_congr_left fun s _ => ?_)
          rw [value_place, value_place, ← Finset.sum_sub_distrib, Finset.mul_sum]
          exact Finset.sum_congr rfl fun k _ => by ring
      _ = ∑ k, (samples.map fun s => s.value ^ 2 * s.terms.get k * q.excess s).sum *
            (r.coefficients k - q.coefficients k) := (sum_map_sum _ _ samples).symm
      _ = 0 := Finset.sum_eq_zero fun k _ => by rw [h k, zero_mul]
  have hsplit : ∀ s : Sample ℝ, s.value ^ 2 * r.excess s ^ 2 =
      s.value ^ 2 * q.excess s ^ 2 + s.value ^ 2 * (r.value s.place - q.value s.place) ^ 2 +
        2 * (s.value ^ 2 * q.excess s * (r.value s.place - q.value s.place)) := by
    intro s
    unfold excess
    ring
  unfold error
  simp only [hsplit, List.sum_map_add, List.sum_map_mul_left, hcross, mul_zero, add_zero]

/-- A stationary quadratic is the closest one, and if no other one is stationary, then no other one
is as close. -/
theorem closest_iff (h : q.Stationary samples)
    (hunique : ∀ r : Quadratic, r.Stationary samples → r = q) : r.Closest samples ↔ r = q := by
  have hnonneg : ∀ r : Quadratic, ∀ x ∈ samples.map fun s =>
      s.value ^ 2 * (r.value s.place - q.value s.place) ^ 2, 0 ≤ x := by
    intro r x hx
    obtain ⟨s, -, rfl⟩ := List.mem_map.mp hx
    positivity
  constructor
  · intro hclosest
    refine hunique r fun i => ?_
    have hzero : (samples.map fun s =>
        s.value ^ 2 * (r.value s.place - q.value s.place) ^ 2).sum = 0 := by
      have hle := hclosest q
      rw [error_eq h r, add_le_iff_nonpos_right] at hle
      exact le_antisymm hle (List.sum_nonneg (hnonneg r))
    -- The two differ only at samples without weight.
    have hsame : ∀ s ∈ samples, s.value ^ 2 * r.excess s = s.value ^ 2 * q.excess s := by
      intro s hs
      have hterm := List.all_zero_of_le_zero_le_of_sum_eq_zero (hnonneg r) hzero
        (List.mem_map_of_mem hs)
      rcases mul_eq_zero.mp hterm with hweight | hdiff
      · rw [hweight, zero_mul, zero_mul]
      · unfold excess
        rw [sub_eq_zero.mp (pow_eq_zero_iff two_ne_zero |>.mp hdiff)]
    rw [← h i]
    refine congrArg List.sum (List.map_congr_left fun s hs => ?_)
    rw [mul_right_comm, hsame s hs, mul_right_comm]
  · rintro rfl t
    rw [error_eq h t]
    exact le_add_of_nonneg_right (List.sum_nonneg (hnonneg t))

end Samples

end Quadratic

/-! ## The fit -/

namespace Peak

variable {samples : List (Sample ℝ)} {radius : ℝ} {p : Peak ℝ}

/-- A fit is the summit of the one quadratic that is stationary. -/
theorem exists_quadratic_of_gaussian (h : gaussian? samples radius = some p) :
    ∃ q : Quadratic, q.Stationary samples ∧ (∀ r : Quadratic, r.Stationary samples → r = q) ∧
      summit? q.a q.b q.c q.d q.e = some p := by
  unfold gaussian? at h
  split_ifs at h
  obtain ⟨x, hsolve, h⟩ := Option.bind_eq_some_iff.mp h
  obtain ⟨p', hsummit, h⟩ := Option.bind_eq_some_iff.mp h
  split_ifs at h
  obtain rfl := Option.some.inj h
  have hiff : ∀ r : Quadratic, r.Stationary samples ↔ r = .of x.get := by
    intro r
    rw [← Quadratic.solves_iff_stationary, Linear.System.solve?_eq_some hsolve,
      ← Quadratic.coefficients_inj, Quadratic.coefficients_of]
  exact ⟨.of x.get, (hiff _).mpr rfl, fun r => (hiff r).mp, hsummit⟩

/-- Samples that lie on a quadratic are fitted by its summit, unless their equations are given
up. -/
theorem gaussian?_of_excess_eq_zero {q : Quadratic} (hlength : 6 ≤ samples.length)
    (hsolve : (Sample.normalEquations samples).solve? ≠ none) (hq : ∀ s ∈ samples, q.excess s = 0)
    (hsummit : summit? q.a q.b q.c q.d q.e = some p) (hfits : p.fits radius = true) :
    gaussian? samples radius = some p := by
  obtain ⟨x, hx⟩ := Option.ne_none_iff_exists'.mp hsolve
  have hget : q.coefficients = x.get := (Linear.System.solve?_eq_some hx q.coefficients).mp
    (Quadratic.solves_iff_stationary.mpr (Quadratic.stationary_of_excess hq))
  unfold gaussian?
  rw [if_neg (not_lt.mpr hlength), hx]
  have hentries : summit? x[0] x[1] x[2] x[3] x[4] = some p := by
    rw [← hsummit]
    show summit? (x.get 0) (x.get 1) (x.get 2) (x.get 3) (x.get 4) = _
    rw [← hget]
    rfl
  show (summit? x[0] x[1] x[2] x[3] x[4]).bind _ = some p
  rw [hentries]
  exact if_pos hfits

end Peak

/-! ## Samples of one Gaussian -/

/-- Samples of `4 · 2^-(x² + y²)`. -/
noncomputable def Sample.round : List (Sample ℝ) :=
  [⟨0, 0, Scalar.ofNat 4⟩, ⟨1, 0, Scalar.ofNat 2⟩, ⟨-1, 0, Scalar.ofNat 2⟩, ⟨0, 1, Scalar.ofNat 2⟩,
    ⟨0, -1, Scalar.ofNat 2⟩, ⟨1, 1, 1⟩]

/-- The logarithm of `4 · 2^-(x² + y²)`, with `l` for that of `2`. -/
def Quadratic.round (l : ℝ) : Quadratic := ⟨-l, 0, -l, 0, 0, l + l⟩

/-- Its summit. -/
noncomputable def Peak.round (l : ℝ) : Peak ℝ := ⟨0, 0, ⟨(l + l)⁻¹, 0, (l + l)⁻¹⟩⟩

theorem Sample.left_round (u : Fin 6 → ℝ) (i : Fin 6) : ((normalEquations round).get i).left u =
    ![9 * u 0 + u 1 + u 2 + u 3 + u 4 + 9 * u 5,
      u 0 + u 1 + u 2 + u 3 + u 4 + u 5,
      u 0 + u 1 + 9 * u 2 + u 3 + u 4 + 9 * u 5,
      u 0 + u 1 + u 2 + 9 * u 3 + u 4 + u 5,
      u 0 + u 1 + u 2 + u 3 + 9 * u 4 + u 5,
      9 * u 0 + u 1 + 9 * u 2 + u 3 + u 4 + 33 * u 5] i := by
  unfold Linear.Equation.left normalEquations round
  rw [Fin.sum_univ_six]
  simp only [Vector.get_eq_getElem, Fin.getElem_fin, Vector.getElem_ofFn, Scalar.foldl_add_eq_sum,
    List.map_cons, List.map_nil, List.sum_cons, List.sum_nil, weight, terms]
  fin_cases i <;> simp [Scalar.decimal_one, Scalar.ofNat_eq_cast] <;> norm_num

theorem Sample.solve?_round : (normalEquations round).solve? ≠ none := by
  intro hnone
  have hle : (normalEquations round).scale ≤ 33 := by
    refine Linear.System.scale_le_iff.mpr ⟨by norm_num, fun i => ?_⟩
    rw [← Linear.Equation.left_single, left_round]
    fin_cases i <;> simp <;> norm_num
  have hne : (normalEquations round).scale ≠ 0 := by
    intro hzero
    have hfirst : |((normalEquations round).get 0).left (Pi.single 0 1)| ≤ 0 := by
      rw [Linear.Equation.left_single]
      exact (Linear.System.scale_le_iff.mp hzero.le).2 0
    have hnine := (left_round (Pi.single 0 1) 0).symm.trans (abs_nonpos_iff.mp hfirst)
    simp at hnine
  obtain ⟨u, ⟨k, hk⟩, hu⟩ := Linear.System.solve?_eq_none hne hnone
  have hrows : ∀ i, |((normalEquations round).get i).left u| ≤ 33e-10 := fun i =>
    (hu _ (Vector.getElem_mem i.isLt)).trans (by linarith)
  simp only [left_round, abs_le, Fin.forall_fin_succ] at hrows
  simp at hrows
  fin_cases k <;> simp at hk <;> linarith

theorem Quadratic.excess_round : ∀ s ∈ Sample.round, (round (Real.log 2)).excess s = 0 := by
  have hlog : Real.log 4 = Real.log 2 + Real.log 2 := by
    rw [← Real.log_mul two_ne_zero two_ne_zero]
    norm_num
  intro s hs
  simp only [Sample.round, List.mem_cons, List.not_mem_nil, or_false] at hs
  rcases hs with rfl | rfl | rfl | rfl | rfl | rfl <;>
    simp [round, excess, value, Sample.place, Scalar.ofNat_eq_cast, hlog]

section Round

variable {l : ℝ}

theorem Peak.summit?_round (hl : 1 / 2 < l) : summit? (-l) 0 (-l) 0 0 = some (round l) := by
  have hdet : 4 * -l * -l - 0 * 0 = (l + l) ^ 2 := by ring
  have hdown : ¬(-l ≥ 0 ∨ -l ≥ 0 ∨ (l + l) ^ 2 ≤ Scalar.epsilon) := by
    refine not_or.mpr ⟨not_le.mpr (by linarith), not_or.mpr ⟨not_le.mpr (by linarith), ?_⟩⟩
    exact not_le.mpr (Scalar.epsilon_lt_one.trans (one_lt_pow₀ (by linarith) two_ne_zero))
  have hvariance : -2 * -l / (l + l) ^ 2 = (l + l)⁻¹ := by
    have hne : l ≠ 0 := by linarith
    field_simp
    ring
  unfold summit?
  simp only [Scalar.decimal_two, Scalar.decimal_four, Scalar.decimal_zero, hdet]
  rw [if_neg hdown, hvariance]
  simp [round]

theorem Peak.fits_round (hl : 1 / 2 < l) : (round l).fits 1 = true := by
  have hinv : 0 < (l + l)⁻¹ := inv_pos.mpr (by linarith)
  have hlt : (l + l)⁻¹ < 1 := inv_lt_one_of_one_lt₀ (by linarith)
  have hminor : 0 < (round l).spread.axes.minor := by
    rw [Linear.Symmetric.minor_pos_iff, Linear.Symmetric.posDef_iff]
    refine ⟨hinv, ?_⟩
    show (0 : ℝ) ^ 2 < (l + l)⁻¹ * (l + l)⁻¹
    rw [zero_pow two_ne_zero]
    exact mul_pos hinv hinv
  have hmajor : (round l).spread.axes.major = (l + l)⁻¹ := by
    rw [Linear.Symmetric.major_eq]
    show ((l + l)⁻¹ + (l + l)⁻¹) / 2 + √((((l + l)⁻¹ - (l + l)⁻¹) / 2) ^ 2 + 0 ^ 2) = (l + l)⁻¹
    simp
  have hcentre : ¬(1 : ℝ) + 1 / 2 < |0| := by
    rw [abs_zero]
    norm_num
  refine decide_eq_true ⟨?_, ?_, ?_, rfl⟩
  · rw [Scalar.decimal_half]
    exact not_or.mpr ⟨hcentre, hcentre⟩
  · rw [Scalar.decimal_zero]
    exact hminor
  · rw [hmajor, Scalar.decimal_two, Scalar.decimal_one]
    linarith

end Round

/-! ## The closest quadratic -/

/-- **Least squares.** If samples are fitted by a Gaussian, then one quadratic is closest to the
logarithms of their intensities, and only one. It is strictly concave, the peak is where it is
highest, and the covariance is the inverse of its second derivatives with the other sign. In
particular, where the logarithms are those of a Gaussian of any height, the peak is its mean and the
covariance its own. -/
theorem gaussian_of_least_squares (samples : List (Sample ℝ)) (radius : ℝ) (p : Peak ℝ)
    (h : Peak.gaussian? samples radius = some p) :
    (∃! q : Quadratic, q.Closest samples) ∧
    (∀ q : Quadratic, q.Closest samples → p.IsSummit q) ∧
    ∀ (g : (Fin 2 → ℝ) → ℝ) (mean : Fin 2 → ℝ) (covariance : Matrix (Fin 2) (Fin 2) ℝ),
      IsGaussian g mean covariance →
      (∀ s ∈ samples, Real.log s.value = Real.log (g s.place)) →
      ![p.x, p.y] = mean ∧ p.spread.matrix = covariance := by
  obtain ⟨q, hstationary, hunique, hsummit⟩ := Peak.exists_quadratic_of_gaussian h
  have hclosest : ∀ r : Quadratic, r.Closest samples ↔ r = q :=
    fun r => Quadratic.closest_iff hstationary hunique
  have hpeak : p.IsSummit q := Peak.isSummit_of_summit? hsummit
  refine ⟨⟨q, (hclosest q).mpr rfl, fun r => (hclosest r).mp⟩, ?_, ?_⟩
  · intro r hr
    rwa [(hclosest r).mp hr]
  · intro g mean covariance hg hlog
    obtain ⟨r, hbend, hvalue⟩ := hg.exists_log
    have hexcess : ∀ s ∈ samples, r.excess s = 0 := fun s hs =>
      sub_eq_zero.mpr ((hvalue s.place).symm.trans (hlog s hs).symm)
    obtain rfl := hunique r (Quadratic.stationary_of_excess hexcess)
    exact hpeak.eq_of_gaussian hbend hg hvalue

/-- The samples of a Gaussian about the origin are fitted by its covariance. -/
theorem gaussian_of_least_squares_round :
    Peak.gaussian? Sample.round 1 = some (Peak.round (Real.log 2)) ∧
      (∃! q : Quadratic, q.Closest Sample.round) ∧
      (∀ q : Quadratic, q.Closest Sample.round → (Peak.round (Real.log 2)).IsSummit q) ∧
      (Peak.round (Real.log 2)).spread.matrix = (2 * Real.log 2)⁻¹ • 1 := by
  have hhalf : 1 / 2 < Real.log 2 := by linarith [Real.log_two_gt_d9]
  have hpos : 0 < 2 * Real.log 2 := by linarith
  have hfit : Peak.gaussian? Sample.round 1 = some (Peak.round (Real.log 2)) :=
    Peak.gaussian?_of_excess_eq_zero le_rfl Sample.solve?_round Quadratic.excess_round
      (Peak.summit?_round hhalf) (Peak.fits_round hhalf)
  have hinverse : ((2 * Real.log 2)⁻¹ • 1 : Matrix (Fin 2) (Fin 2) ℝ)⁻¹ = (2 * Real.log 2) • 1 := by
    refine Matrix.inv_eq_right_inv ?_
    rw [Matrix.smul_mul, one_mul, smul_smul, inv_mul_cancel₀ hpos.ne', one_smul]
  have hgaussian : IsGaussian (fun u => Real.exp ((Quadratic.round (Real.log 2)).value u)) 0
      ((2 * Real.log 2)⁻¹ • 1) := by
    refine ⟨Matrix.PosDef.one.smul (inv_pos.mpr hpos), Real.exp (2 * Real.log 2), Real.exp_pos _,
      fun u => ?_⟩
    rw [hinverse, ← Real.exp_add]
    simp [Quadratic.round, Quadratic.value, dotProduct, Fin.sum_univ_two, Matrix.smul_mulVec]
    ring
  obtain ⟨hunique, hpeak, hfits⟩ := gaussian_of_least_squares Sample.round 1 _ hfit
  obtain ⟨-, hcovariance⟩ := hfits _ 0 _ hgaussian fun s hs => by
    rw [Real.log_exp]
    exact (sub_eq_zero.mp (Quadratic.excess_round s hs)).symm
  exact ⟨hfit, hunique, hpeak, hcovariance⟩

end PenTouch
