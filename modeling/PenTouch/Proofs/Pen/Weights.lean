import Mathlib
import PenTouch.Pen.Estimator
import PenTouch.Proofs.Scalar.Length

/-!
# The mean place along an axis

The position along an axis is the weighted mean place of the antennas around the strongest one. No
weight is below zero, so neither is the mean, if there is one. There is none if all weights vanish,
and none if their sum overflows together with the sum of the weighted places: an axis is `Weighable`
if neither happens.

1. `position_nonneg`, `isNaN_position`: a position is a number just if the axis is weighable.
2. `weighable_of_moderate`: an axis is weighable if its readings are moderate in size, its strongest
   antenna is not too weak and the radius does not wrap around. The weight of the strongest antenna
   is then above zero, and the weights are so far from the largest double that their sum stays below
   it.
-/

namespace PenTouch

open Double

/-- The coefficients of the reading are moderate in size. -/
def Antenna.Moderate (a : Antenna Float) : Prop :=
  (-1e90 ≤ a.real ∧ a.real ≤ 1e90) ∧ (-1e90 ≤ a.imag ∧ a.imag ≤ 1e90)

instance (a : Antenna Float) : Decidable a.Moderate :=
  inferInstanceAs (Decidable ((_ ∧ _) ∧ (_ ∧ _)))

/-- The radius wraps around at no place of the window. -/
structure Window.Holds {α : Type} (w : Window α) (radius : Nat) : Prop where
  rows : w.rows.length + radius ≤ Word.limit
  columns : w.columns.length + radius ≤ Word.limit

namespace AxisPeak

/-! ## The antennas around a place -/

section Around

variable {α : Type} {antennas : List (Antenna α)} {place radius : Nat}

theorem mem_around {peak : Antenna α} (h : antennas[place]? = some peak)
    (hradius : antennas.length + radius ≤ Word.limit) :
    (peak, place) ∈ around antennas place radius := by
  have hend := Word.add_of_place (List.getElem?_eq_some_iff.mp h).1 hradius
  refine List.mem_iff_getElem?.mpr ⟨place - (place - radius), ?_⟩
  have hplace : place - radius + (place - (place - radius)) = place := by omega
  simp [around, hend, hplace, h]

theorem lt_length_of_mem_around {a : Antenna α × Nat} (h : a ∈ around antennas place radius) :
    a.2 < antennas.length := by
  have := List.mem_zipIdx (List.mem_of_mem_take (List.mem_of_mem_drop h))
  omega

theorem mem_of_mem_around {a : Antenna α × Nat} (h : a ∈ around antennas place radius) :
    a.1 ∈ antennas :=
  List.fst_mem_of_mem_zipIdx (List.mem_of_mem_take (List.mem_of_mem_drop h))

theorem length_around_le : (around antennas place radius).length ≤ antennas.length := by
  simp [around]

end Around

/-! ## The strongest antenna -/

section Strongest

variable {α : Type} [Scalar α]

theorem stronger_eq_or (best : Option (Antenna α × Nat)) (next : Antenna α × Nat) :
    stronger best next = best ∨ stronger best next = some next := by
  unfold stronger
  split
  · split
    · exact Or.inl rfl
    · exact Or.inr rfl
  · exact Or.inr rfl

theorem mem_of_foldl_stronger {antennas : List (Antenna α × Nat)}
    {best : Option (Antenna α × Nat)} {a : Antenna α × Nat}
    (h : antennas.foldl stronger best = some a) : best = some a ∨ a ∈ antennas := by
  induction antennas generalizing best with
  | nil => exact Or.inl h
  | cons next antennas ih =>
    rcases ih h with hbest | hmem
    · rcases stronger_eq_or best next with heq | heq
      · exact Or.inl (heq ▸ hbest)
      · cases heq.symm.trans hbest
        exact Or.inr List.mem_cons_self
    · exact Or.inr (List.mem_cons_of_mem next hmem)

theorem getElem?_of_strongest? {antennas : List (Antenna α)} {peak : Antenna α} {place : Nat}
    (h : strongest? antennas = some (peak, place)) : antennas[place]? = some peak :=
  List.mem_zipIdx_iff_getElem?.mp ((mem_of_foldl_stronger h).resolve_left nofun)

theorem strongest?_concat (antennas : List (Antenna α)) (a : Antenna α) :
    strongest? (antennas ++ [a]) = stronger (strongest? antennas) (a, antennas.length) := by
  unfold strongest?
  rw [List.zipIdx_append, List.foldl_append, List.zipIdx_singleton, Nat.zero_add]
  rfl

def total (peak : Antenna α) (near : List (Antenna α × Nat)) : α :=
  near.foldl (fun sum a => sum + weight peak a.1) 0.0

/-- The sum of the weighted places. -/
def moment (peak : Antenna α) (near : List (Antenna α × Nat)) : α :=
  near.foldl (fun sum a => sum + weight peak a.1 * Scalar.ofNat a.2) 0.0

theorem of_ofAntennas? {antennas : List (Antenna α)} {radius : Nat} {minAmplitude : α}
    {p : AxisPeak α} (h : ofAntennas? antennas radius minAmplitude = some p) :
    ∃ place, strongest? antennas = some (p.peak, place) ∧
      Scalar.isFinite p.peak.amplitude = true ∧ ¬p.peak.amplitude < minAmplitude ∧
      p.position = moment p.peak (around antennas place radius) /
        total p.peak (around antennas place radius) := by
  obtain ⟨⟨peak, place⟩, hstrongest, h⟩ := Option.bind_eq_some_iff.mp h
  dsimp only at h
  split at h
  · cases h
  case isFalse hok =>
    simp only [not_or, not_not] at hok
    cases h
    exact ⟨place, hstrongest, hok.1, hok.2.1, rfl⟩

end Strongest

/-! ## Weights -/

section Weights

variable {peak a : Antenna Float} {near : List (Antenna Float × Nat)}

theorem weight_eq (peak a : Antenna Float) :
    weight peak a =
      if 0.0 < a.coherence peak / peak.amplitude then a.coherence peak / peak.amplitude
      else 0.0 := rfl

theorem zero_le_weight (peak a : Antenna Float) : 0.0 ≤ weight peak a := by
  rw [weight_eq]
  split
  case isTrue h => exact le_of_lt h
  case isFalse => exact le_self rfl

theorem le_total (peak : Antenna Float) (near : List (Antenna Float × Nat)) :
    0.0 ≤ total peak near ∧ ∀ a ∈ near, weight peak a.1 ≤ total peak near :=
  le_foldl_add (f := fun a : Antenna Float × Nat => weight peak a.1) (x := 0.0)
    (fun a _ => zero_le_weight peak a.1) (le_self rfl)

/-- The sum of the weights is above zero, and it does not overflow together with the sum of the
weighted places. -/
def HasMean (peak : Antenna Float) (near : List (Antenna Float × Nat)) : Prop :=
  0.0 < total peak near ∧
    ((total peak near).isFinite = true ∨ (moment peak near).isFinite = true)

theorem mean_nonneg (hplaces : ∀ a ∈ near, a.2 < 2 ^ 64) (h : HasMean peak near) :
    0.0 ≤ moment peak near / total peak near := by
  obtain ⟨hpos, hfinite⟩ := h
  rcases isFinite_or_infinity (le_total peak near).1 with htotal | htotal
  · have hterm : ∀ a ∈ near, 0.0 ≤ weight peak a.1 * Float.ofNat a.2 := fun a ha =>
      have hweight := isFinite_of_le_of_le rfl htotal (zero_le_weight peak a.1)
        ((le_total peak near).2 a ha)
      zero_le_mul hweight (isFinite_ofNat (hplaces a ha).le) (zero_le_weight peak a.1)
        (zero_le_ofNat a.2)
    exact zero_le_div (le_foldl_add hterm (le_self rfl)).1 htotal hpos
  · -- A sum of places that is finite is nothing against an infinite sum of weights.
    have hmoment := hfinite.resolve_left (by rw [not_isFinite_infinity htotal]; exact nofun)
    obtain ⟨hzero, hvalue⟩ := div_infinity hmoment htotal
    exact (zero_le_iff_value hzero).mpr hvalue.ge

theorem isNaN_mean (hplaces : ∀ a ∈ near, a.2 < 2 ^ 64) (h : ¬HasMean peak near) :
    (moment peak near / total peak near).isNaN = true := by
  have hnonneg := (le_total peak near).1
  by_cases hpos : 0.0 < total peak near
  · have hover : ¬((total peak near).isFinite = true ∨ (moment peak near).isFinite = true) :=
      fun hfinite => h ⟨hpos, hfinite⟩
    rw [not_or, Bool.not_eq_true, Bool.not_eq_true] at hover
    have htotal := (isFinite_or_infinity hnonneg).resolve_left (by simp [hover.1])
    exact isNaN_div_infinity hover.2 htotal
  · -- No weight is above their sum, so all are zero.
    have hle := (lt_or_le (x := 0.0) rfl (isNaN_of_le hnonneg)).resolve_left hpos
    have hmoment := foldl_add_zero (f := fun a => weight peak a.1 * Float.ofNat a.2) (l := near)
      (fun a ha => by
        obtain ⟨hw, hw'⟩ := eq_zero_of_le (zero_le_weight peak a.1)
          (le_trans ((le_total peak near).2 a ha) hle)
        have hmul := rounds_mul hw (isFinite_ofNat (hplaces a ha).le)
        rw [hw', zero_mul] at hmul
        exact hmul.exact (z := 0.0) rfl rfl) (x := 0.0) ⟨rfl, rfl⟩
    obtain ⟨htotal, htotal'⟩ := eq_zero_of_le hnonneg hle
    exact isNaN_zero_div_zero hmoment.1 hmoment.2 htotal htotal'

end Weights

/-!
## Moderate readings

The bounds are powers of two. From coefficients up to `2 ^ 299` come products up to `2 ^ 598`,
coherences up to `2 ^ 599` and, with a peak of at least `2 ^ (-299)`, weights up to `2 ^ 898`. From
a peak of that size come a coefficient of at least `2 ^ (-301)`, a square of `2 ^ (-602)` and, with
a peak up to `2 ^ 300`, a weight of `2 ^ (-902)`.
-/

section Moderate

theorem two_zpow_mul (m n : Int) : (2 : ℝ) ^ m * 2 ^ n = 2 ^ (m + n) :=
  (zpow_add₀ two_ne_zero m n).symm

theorem length_le_two_mul {x y b : ℝ} (hx : |x| ≤ b) (hy : |y| ≤ b) :
    √(x ^ 2 + y ^ 2) ≤ 2 * b := by
  have hb : 0 ≤ b := (abs_nonneg x).trans hx
  rw [Real.sqrt_le_iff, ← sq_abs x, ← sq_abs y]
  exact ⟨by positivity, by nlinarith [abs_nonneg x, abs_nonneg y]⟩

theorem abs_value_large : |value 1e90| ≤ 2 ^ (299 : Int) := by
  have h : (binary 1e90).mantissa < 2 ^ 53 ∧ (binary 1e90).exponent = 246 := by decide +kernel
  have hm : ((binary 1e90).mantissa : ℝ) ≤ 2 ^ (53 : Int) := by exact_mod_cast h.1.le
  rw [abs_value_eq (by decide +kernel), h.2]
  calc ((binary 1e90).mantissa : ℝ) * 2 ^ (246 : Int) ≤ 2 ^ (53 : Int) * 2 ^ (246 : Int) := by
        gcongr
    _ = 2 ^ (299 : Int) := two_zpow_mul 53 246

theorem small_le_value : 2 ^ (-299 : Int) ≤ value 1e-90 := by
  have h : 2 ^ 52 ≤ (binary 1e-90).mantissa ∧ (binary 1e-90).exponent = -351 := by decide +kernel
  have hm : (2 ^ (52 : Int) : ℝ) ≤ (binary 1e-90).mantissa := by exact_mod_cast h.1
  have hnonneg : 0 ≤ value 1e-90 :=
    (zero_le_iff_value (by decide +kernel)).mp (by decide +kernel)
  rw [← abs_of_nonneg hnonneg, abs_value_eq (by decide +kernel), h.2]
  calc (2 : ℝ) ^ (-299 : Int) = 2 ^ (52 : Int) * 2 ^ (-351 : Int) := by
        rw [two_zpow_mul]
        rfl
    _ ≤ (binary 1e-90).mantissa * 2 ^ (-351 : Int) := by gcongr

theorem abs_value_coefficient {x : Float} (h : -1e90 ≤ x ∧ x ≤ 1e90) :
    x.isFinite = true ∧ |value x| ≤ 2 ^ (299 : Int) := by
  have hlarge : (1e90 : Float).isFinite = true := by decide +kernel
  have hlarge' : (-1e90 : Float).isFinite = true := (isFinite_neg _).trans hlarge
  have hx := isFinite_of_le_of_le hlarge' hlarge h.1 h.2
  have hge := (le_iff_value hlarge' hx).mp h.1
  have hle := (le_iff_value hx hlarge).mp h.2
  rw [value_neg] at hge
  exact ⟨hx, (abs_le.mpr ⟨hge, hle⟩).trans ((le_abs_self _).trans abs_value_large)⟩

theorem abs_value_product {x y : Float} (hx : -1e90 ≤ x ∧ x ≤ 1e90) (hy : -1e90 ≤ y ∧ y ≤ 1e90) :
    (x * y).isFinite = true ∧ |value (x * y)| ≤ 2 ^ (598 : Int) := by
  obtain ⟨hx, hx'⟩ := abs_value_coefficient hx
  obtain ⟨hy, hy'⟩ := abs_value_coefficient hy
  refine (rounds_mul hx hy).abs_value_le (by omega) (by omega) ?_
  rw [abs_mul, show (598 : Int) = 299 + 299 from rfl, ← two_zpow_mul]
  exact mul_le_mul hx' hy' (abs_nonneg _) (by positivity)

variable {a peak : Antenna Float}

theorem abs_value_coherence (ha : a.Moderate) (hpeak : peak.Moderate) :
    (a.coherence peak).isFinite = true ∧ |value (a.coherence peak)| ≤ 2 ^ (599 : Int) := by
  obtain ⟨hreal, hreal'⟩ := abs_value_product ha.1 hpeak.1
  obtain ⟨himag, himag'⟩ := abs_value_product ha.2 hpeak.2
  refine (rounds_add hreal himag).abs_value_le (by omega) (by omega) ((abs_add_le _ _).trans ?_)
  rw [show (599 : Int) = 1 + 598 from rfl, ← two_zpow_mul, zpow_one]
  linarith

theorem abs_value_amplitude (ha : a.Moderate) :
    a.amplitude.isFinite = true ∧ |value a.amplitude| ≤ 2 ^ (300 : Int) := by
  obtain ⟨hreal, hreal'⟩ := abs_value_coefficient ha.1
  obtain ⟨himag, himag'⟩ := abs_value_coefficient ha.2
  refine (rounds_hypot hreal himag).abs_value_le (by omega) (by omega) ?_
  rw [abs_of_nonneg (Real.sqrt_nonneg _), show (300 : Int) = 1 + 299 from rfl, ← two_zpow_mul,
    zpow_one]
  exact length_le_two_mul hreal' himag'

/-- The amplitude comes from the coefficients, so one of them is not much below it. -/
theorem exists_large_coefficient (ha : a.Moderate) (h : 2 ^ (-299 : Int) ≤ value a.amplitude) :
    2 ^ (-301 : Int) ≤ |value a.real| ∨ 2 ^ (-301 : Int) ≤ |value a.imag| := by
  by_contra hsmall
  rw [not_or, not_le, not_le] at hsmall
  obtain ⟨hreal, himag⟩ := hsmall
  have hrounds := rounds_hypot (abs_value_coefficient ha.1).1 (abs_value_coefficient ha.2).1
  have hamplitude := (hrounds.abs_value_le (k := -300) (by omega) (by omega) (by
    rw [abs_of_nonneg (Real.sqrt_nonneg _), show (-300 : Int) = 1 + -301 from rfl, ← two_zpow_mul,
      zpow_one]
    exact length_le_two_mul hreal.le himag.le)).2
  have hlt : (2 : ℝ) ^ (-300 : Int) < 2 ^ (-299 : Int) := zpow_lt_zpow_right₀ one_lt_two (by omega)
  exact absurd ((h.trans (le_abs_self _)).trans hamplitude) (not_le.mpr hlt)

theorem abs_value_share (ha : a.Moderate) (hpeak : peak.Moderate)
    (h : 2 ^ (-299 : Int) ≤ value peak.amplitude) :
    (a.coherence peak / peak.amplitude).isFinite = true ∧
      |value (a.coherence peak / peak.amplitude)| ≤ 2 ^ (898 : Int) := by
  obtain ⟨hcoherence, hcoherence'⟩ := abs_value_coherence ha hpeak
  have hpos : 0 < value peak.amplitude := (zpow_pos two_pos _).trans_le h
  refine (rounds_div hcoherence (abs_value_amplitude hpeak).1 hpos.ne').abs_value_le (by omega)
    (by omega) ?_
  rw [abs_div, abs_of_pos hpos, div_le_iff₀ hpos]
  calc |value (a.coherence peak)| ≤ 2 ^ (599 : Int) := hcoherence'
    _ = 2 ^ (898 : Int) * 2 ^ (-299 : Int) := by
      rw [two_zpow_mul]
      rfl
    _ ≤ 2 ^ (898 : Int) * value peak.amplitude :=
      mul_le_mul_of_nonneg_left h (zpow_pos two_pos _).le

theorem value_weight_le (ha : a.Moderate) (hpeak : peak.Moderate)
    (h : 2 ^ (-299 : Int) ≤ value peak.amplitude) :
    (weight peak a).isFinite = true ∧ 0 ≤ value (weight peak a) ∧
      value (weight peak a) ≤ 2 ^ (898 : Int) := by
  obtain ⟨hshare, hshare'⟩ := abs_value_share ha hpeak h
  rw [weight_eq]
  split
  case isTrue hpos =>
    exact ⟨hshare, ((zero_lt_iff_value hshare).mp hpos).le, (le_abs_self _).trans hshare'⟩
  case isFalse => exact ⟨rfl, le_rfl, (zpow_pos two_pos _).le⟩

theorem le_value_square {x : Float} (hx : -1e90 ≤ x ∧ x ≤ 1e90) :
    0 ≤ value (x * x) ∧ (2 ^ (-301 : Int) ≤ |value x| → 2 ^ (-602 : Int) ≤ value (x * x)) := by
  obtain ⟨hfinite, -⟩ := abs_value_product hx hx
  have hrounds := rounds_mul (abs_value_coefficient hx).1 (abs_value_coefficient hx).1
  refine ⟨?_, fun hlarge => ?_⟩
  · exact (zero_le_iff_value hfinite).mp (hrounds.zero_le (mul_self_nonneg (value x)))
  · refine hrounds.le_value (by omega) (by omega) hfinite ?_
    rw [← abs_mul_abs_self, show (-602 : Int) = -301 + -301 from rfl, ← two_zpow_mul]
    exact mul_le_mul hlarge hlarge (zpow_pos two_pos _).le (abs_nonneg _)

theorem weight_self_pos (hpeak : peak.Moderate) (h : 2 ^ (-299 : Int) ≤ value peak.amplitude) :
    0.0 < weight peak peak := by
  obtain ⟨hreal, hreal'⟩ := le_value_square hpeak.1
  obtain ⟨himag, himag'⟩ := le_value_square hpeak.2
  have hpos : 0 < value peak.amplitude := (zpow_pos two_pos _).trans_le h
  have hsquares : (2 : ℝ) ^ (-602 : Int) ≤
      value (peak.real * peak.real) + value (peak.imag * peak.imag) := by
    rcases exists_large_coefficient hpeak h with hlarge | hlarge
    · linarith [hreal' hlarge]
    · linarith [himag' hlarge]
  have hcoherence : 2 ^ (-602 : Int) ≤ value (peak.coherence peak) :=
    (rounds_add (abs_value_product hpeak.1 hpeak.1).1
      (abs_value_product hpeak.2 hpeak.2).1).le_value (by omega) (by omega)
      (abs_value_coherence hpeak hpeak).1 hsquares
  have hamplitude := (le_abs_self _).trans (abs_value_amplitude hpeak).2
  obtain ⟨hshare, -⟩ := abs_value_share hpeak hpeak h
  have hlarge : 2 ^ (-902 : Int) ≤ value (peak.coherence peak / peak.amplitude) := by
    refine (rounds_div (abs_value_coherence hpeak hpeak).1 (abs_value_amplitude hpeak).1
      hpos.ne').le_value (by omega) (by omega) hshare ?_
    rw [le_div_iff₀ hpos]
    calc (2 : ℝ) ^ (-902 : Int) * value peak.amplitude ≤ 2 ^ (-902 : Int) * 2 ^ (300 : Int) :=
          mul_le_mul_of_nonneg_left hamplitude (zpow_pos two_pos _).le
      _ = 2 ^ (-602 : Int) := by
        rw [two_zpow_mul]
        rfl
      _ ≤ value (peak.coherence peak) := hcoherence
  have hshare' : 0.0 < peak.coherence peak / peak.amplitude :=
    (zero_lt_iff_value hshare).mpr ((zpow_pos two_pos _).trans_le hlarge)
  rw [weight_eq, if_pos hshare']
  exact hshare'

/-- **Moderate readings.** The weights around a strongest antenna that is not too weak have a
mean. -/
theorem hasMean_of_moderate {near : List (Antenna Float × Nat)} {place : Nat}
    (hnear : ∀ a ∈ near, a.1.Moderate) (hlength : near.length < 2 ^ 53)
    (hpeak : (peak, place) ∈ near) (h : 1e-90 ≤ peak.amplitude) : HasMean peak near := by
  have hmoderate : peak.Moderate := hnear (peak, place) hpeak
  have hamplitude : 2 ^ (-299 : Int) ≤ value peak.amplitude :=
    small_le_value.trans ((le_iff_value (by decide +kernel) (abs_value_amplitude hmoderate).1).mp h)
  refine ⟨?_, Or.inl ?_⟩
  · exact lt_of_lt_of_le (weight_self_pos hmoderate hamplitude)
      ((le_total peak near).2 (peak, place) hpeak)
  · have hweights : ∀ a ∈ near, (weight peak a.1).isFinite = true ∧ 0 ≤ value (weight peak a.1) ∧
        value (weight peak a.1) ≤ 2 ^ (898 : Int) := fun a ha =>
      value_weight_le (hnear a ha) hmoderate hamplitude
    exact isFinite_foldl_add (by omega) (by omega) hweights (n := 0) (by omega) rfl value_zero.ge
      (by rw [value_zero, Nat.cast_zero, zero_mul])

end Moderate

/-! ## Positions -/

section Positions

variable {antennas : List (Antenna Float)} {radius : Nat} {minAmplitude : Float}
  {p : AxisPeak Float}

/-- The weights around the strongest antenna have a mean. -/
def Weighable (antennas : List (Antenna Float)) (radius : Nat) : Prop :=
  ∃ peak place, strongest? antennas = some (peak, place) ∧
    HasMean peak (around antennas place radius)

theorem position_nonneg (h : ofAntennas? antennas radius minAmplitude = some p)
    (hlength : antennas.length < 2 ^ 64) (hw : Weighable antennas radius) : 0.0 ≤ p.position := by
  obtain ⟨place, hstrongest, -, -, hposition⟩ := of_ofAntennas? h
  obtain ⟨peak, place', hstrongest', hmean⟩ := hw
  cases hstrongest.symm.trans hstrongest'
  rw [hposition]
  exact mean_nonneg (fun a ha => (lt_length_of_mem_around ha).trans hlength) hmean

theorem isNaN_position (h : ofAntennas? antennas radius minAmplitude = some p)
    (hlength : antennas.length < 2 ^ 64) (hw : ¬Weighable antennas radius) :
    p.position.isNaN = true := by
  obtain ⟨place, hstrongest, -, -, hposition⟩ := of_ofAntennas? h
  rw [hposition]
  exact isNaN_mean (fun a ha => (lt_length_of_mem_around ha).trans hlength)
    fun hmean => hw ⟨p.peak, place, hstrongest, hmean⟩

theorem weighable_of_moderate (h : ofAntennas? antennas radius minAmplitude = some p)
    (hmin : 1e-90 ≤ minAmplitude) (hlength : antennas.length < 2 ^ 53)
    (hradius : antennas.length + radius ≤ Word.limit) (hmoderate : ∀ a ∈ antennas, a.Moderate) :
    Weighable antennas radius := by
  obtain ⟨place, hstrongest, hfinite, hlarge, -⟩ := of_ofAntennas? h
  have hamplitude := (lt_or_le (isNaN_of_isFinite hfinite) (isNaN_of_le hmin)).resolve_left hlarge
  exact ⟨p.peak, place, hstrongest,
    hasMean_of_moderate (fun a ha => hmoderate a.1 (mem_of_mem_around ha))
      (length_around_le.trans_lt hlength) (mem_around (getElem?_of_strongest? hstrongest) hradius)
      (le_trans hmin hamplitude)⟩

end Positions

end AxisPeak

end PenTouch
