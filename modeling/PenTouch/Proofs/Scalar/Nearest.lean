import Mathlib
import PenTouch.Proofs.Scalar.Arithmetic

/-!
# Rounding to the nearest double

A result is rounded to the nearest double, and to the even one of two that are equally near. So
larger numbers have larger roundings, also where no double lies between them (`RoundsNearest.mono`),
no double is nearer to a number than its rounding (`RoundsNearest.abs_sub_le`), and the error is at
most half of the distance between two doubles (`RoundsNearest.error_le`).

1. `Halves`: a mantissa with its two extra bits tells on which side of the middle between two whole
   numbers a real number lies. Shifting keeps this, so rounding goes to the nearest whole number
   (`Halves.nearestWhole`).
2. `nearest_roundWithAccuracy`, `nearest_normalize`: so a magnitude is rounded to the nearest one
   that fits, in the units of its own exponent.
3. `roundsNearest_add`, `roundsNearest_mul`, `roundsNearest_div`, `roundsNearest_ofNat`,
   `roundsNearest_roundBinary`: so are the sum, the product and the quotient of two doubles, a
   count, and the product of a whole number with a power of two.
4. `RoundsNearest.relative_error`, `RoundsNearest.eq_of_short`: a number that is counted in the
   least units loses at most one part in `2 ^ 53`, and nothing if it has no more than 53 bits.
-/

namespace PenTouch.Double

open Float.Model UnpackedFloat

/-! ## Whole numbers -/

/-- `r` is the whole number nearest to `b`, and the even one of two that are equally near. -/
structure NearestWhole (b : ℝ) (r : ℕ) : Prop where
  near : |b - r| ≤ 1 / 2
  even : |b - r| = 1 / 2 → r % 2 = 0

theorem nearestWhole_self (n : ℕ) : NearestWhole n n := by
  constructor <;> simp

theorem NearestWhole.mono {b b' : ℝ} {r r' : ℕ} (h : NearestWhole b r) (h' : NearestWhole b' r')
    (hle : b ≤ b') : r ≤ r' := by
  by_contra hlt
  have hsucc : (r' : ℝ) + 1 ≤ r := by exact_mod_cast not_le.mp hlt
  have hlow := (abs_le.mp h.near).1
  have hhigh := (abs_le.mp h'.near).2
  -- Both numbers would be the middle between the two results, of which only one is even.
  have hr : (r : ℝ) = r' + 1 := by linarith
  have heven : r % 2 = 0 := h.even (by rw [show b - r = -(1 / 2) by linarith]; norm_num)
  have heven' : r' % 2 = 0 := h'.even (by rw [show b' - r' = 1 / 2 by linarith]; norm_num)
  have : r = r' + 1 := by exact_mod_cast hr
  omega

theorem NearestWhole.le_abs_sub {b : ℝ} {r : ℕ} (h : NearestWhole b r) (n : ℕ) :
    |b - r| ≤ |b - n| := by
  by_cases hn : n = r
  · rw [hn]
  · have hwhole : (1 : ℤ) ≤ |(r : ℤ) - n| := Int.one_le_abs (by omega)
    have hone : (1 : ℝ) ≤ |(r : ℝ) - n| := by exact_mod_cast hwhole
    have htri := abs_sub_le (r : ℝ) b n
    rw [abs_sub_comm (r : ℝ) b] at htri
    linarith [h.near]

theorem NearestWhole.eq {n r : ℕ} (h : NearestWhole n r) : r = n :=
  le_antisymm (h.mono (nearestWhole_self n) le_rfl) ((nearestWhole_self n).mono h le_rfl)

/-! ## Mantissas -/

/-- The mantissa and its round bit are `a` cut to a whole number of halves, and the sticky bit tells
whether anything was cut off. -/
structure Halves (em : ExtendedMantissa) (a : ℝ) : Prop where
  le : em.mantissa + em.roundBit.toNat / 2 ≤ a
  lt : a < em.mantissa + em.roundBit.toNat / 2 + 1 / 2
  sticky : em.stickyBit = true ↔ em.mantissa + em.roundBit.toNat / 2 ≠ a

theorem halves_exact (m : ℕ) : Halves (.ofMantissaAndAccuracy m .exact) (m : ℝ) := by
  constructor <;> simp [ExtendedMantissa.ofMantissaAndAccuracy]

/-- The remainder of a quotient is compared with half of the divisor. -/
theorem halves_quotient (n : ℕ) {d : ℕ} (hd : 0 < d) :
    Halves (.ofMantissaAndAccuracy (n / d) (accuracyOfFraction (n % d) d)) (n / d : ℝ) := by
  have hd' : (0 : ℝ) < d := Nat.cast_pos.mpr hd
  have hlt := Nat.mod_lt n hd
  have hvalue : (n / d : ℝ) = (n / d : ℕ) + (n % d : ℕ) / d := by
    rw [eq_comm, ← eq_sub_iff_add_eq', div_eq_iff hd'.ne', sub_mul, div_mul_cancel₀ _ hd'.ne',
      eq_sub_iff_add_eq']
    exact_mod_cast Nat.div_add_mod' n d
  obtain ⟨f, hf⟩ : ∃ f : ℝ, ((n % d : ℕ) : ℝ) / d = f := ⟨_, rfl⟩
  have hone : f < 1 := by rw [← hf, div_lt_one hd']; exact_mod_cast hlt
  rw [hvalue, hf]
  by_cases hzero : n % d = 0
  · have hf0 : f = 0 := by rw [← hf, hzero]; simp
    constructor <;> simp [accuracyOfFraction, ExtendedMantissa.ofMantissaAndAccuracy, hzero, hf0]
  have hpos : 0 < f := by
    rw [← hf]
    exact div_pos (by exact_mod_cast Nat.pos_of_ne_zero hzero) hd'
  rcases lt_trichotomy (2 * (n % d)) d with h | h | h
  · have hhalf : f < 1 / 2 := by
      rw [← hf, div_lt_iff₀ hd']
      have : (2 * (n % d : ℕ) : ℝ) < d := by exact_mod_cast h
      linarith
    constructor <;>
      simp [accuracyOfFraction, ExtendedMantissa.ofMantissaAndAccuracy, hzero,
        Nat.compare_eq_lt.mpr h] <;> linarith
  · have hhalf : f = 1 / 2 := by
      rw [← hf, div_eq_iff hd'.ne']
      have : (2 * (n % d : ℕ) : ℝ) = d := by exact_mod_cast h
      linarith
    constructor <;>
      simp [accuracyOfFraction, ExtendedMantissa.ofMantissaAndAccuracy, hzero,
        Nat.compare_eq_eq.mpr h, hhalf]
  · have hhalf : 1 / 2 < f := by
      rw [← hf, lt_div_iff₀ hd']
      have : (d : ℝ) < 2 * (n % d : ℕ) := by exact_mod_cast h
      linarith
    constructor <;>
      simp [accuracyOfFraction, ExtendedMantissa.ofMantissaAndAccuracy, hzero,
        Nat.compare_eq_gt.mpr h] <;> linarith

namespace Halves

variable {em : ExtendedMantissa} {a : ℝ}

theorem truncates (h : Halves em a) : Truncates em a := by
  obtain ⟨hle, hlt, hsticky⟩ := h
  have hbit : (0 : ℝ) ≤ em.roundBit.toNat := Nat.cast_nonneg _
  have hbit' : (em.roundBit.toNat : ℝ) ≤ 1 := by exact_mod_cast Bool.toNat_le _
  refine ⟨by linarith, by linarith, fun hbits => ?_⟩
  rcases hbits with hround | hset
  · rw [hround, Bool.toNat_true, Nat.cast_one] at hle
    linarith
  · linarith [lt_of_le_of_ne hle (hsticky.mp hset)]

theorem shiftRightOne (h : Halves em a) : Halves em.shiftRightOne (a / 2) := by
  -- The mantissa and the bit that is shifted out of it are half of the mantissa before.
  have hhalf : ((em.mantissa / 2 : ℕ) : ℝ) + ((em.mantissa % 2 != 0).toNat : ℝ) / 2 =
      em.mantissa / 2 := by
    have hsplit : ((em.mantissa / 2 : ℕ) : ℝ) * 2 + (em.mantissa % 2 : ℕ) = em.mantissa := by
      exact_mod_cast Nat.div_add_mod' em.mantissa 2
    rcases Nat.mod_two_eq_zero_or_one em.mantissa with hmod | hmod <;>
      rw [hmod] at hsplit ⊢ <;> push_cast at hsplit ⊢ <;> simp <;> linarith
  obtain ⟨hle, hlt, hsticky⟩ := h
  have hbit : (0 : ℝ) ≤ em.roundBit.toNat := Nat.cast_nonneg _
  have hbit' : (em.roundBit.toNat : ℝ) ≤ 1 := by exact_mod_cast Bool.toNat_le _
  refine ⟨?_, ?_, ?_⟩
  · show ((em.mantissa / 2 : ℕ) : ℝ) + ((em.mantissa % 2 != 0).toNat : ℝ) / 2 ≤ a / 2
    linarith
  · show a / 2 < ((em.mantissa / 2 : ℕ) : ℝ) + ((em.mantissa % 2 != 0).toNat : ℝ) / 2 + 1 / 2
    linarith
  · show (em.roundBit || em.stickyBit) = true ↔
      ((em.mantissa / 2 : ℕ) : ℝ) + ((em.mantissa % 2 != 0).toNat : ℝ) / 2 ≠ a / 2
    rw [hhalf, Bool.or_eq_true, hsticky]
    cases hround : em.roundBit <;> simp only [hround, Bool.toNat_false, Bool.toNat_true] at hle ⊢
    · simp only [Bool.false_eq_true, false_or, Nat.cast_zero, zero_div, add_zero]
      exact not_congr ⟨fun h => by rw [h], fun h => by linarith⟩
    · simp only [true_or, true_iff]
      push_cast at hle
      linarith

theorem shiftRight (h : Halves em a) (k : ℕ) : Halves (em >>> k) (a / 2 ^ k) := by
  show Halves (k.repeat ExtendedMantissa.shiftRightOne em) _
  induction k with
  | zero => simpa [Nat.repeat] using h
  | succ k ih =>
    rw [pow_succ, div_mul_eq_div_div]
    exact ih.shiftRightOne

theorem nearestWhole (h : Halves em a) : NearestWhole a em.roundedMantissa := by
  obtain ⟨hle, hlt, hsticky⟩ := h
  rcases em with ⟨m, _ | _, _ | _⟩ <;>
    simp only [ExtendedMantissa.roundedMantissa, ExtendedMantissa.accuracy,
      Accuracy.roundToNearestEven, Bool.toNat_false, Bool.toNat_true, Nat.cast_zero, Nat.cast_one,
      zero_div, add_zero, Bool.false_eq_true, false_iff, true_iff, not_not, ne_eq]
      at hle hlt hsticky ⊢
  case false.false =>
    rw [← hsticky]
    exact nearestWhole_self m
  case false.true =>
    have hlt' : (m : ℝ) < a := lt_of_le_of_ne hle hsticky
    have habs : |a - m| = a - m := abs_of_pos (by linarith)
    exact ⟨by rw [habs]; linarith, fun h => by rw [habs] at h; linarith⟩
  case true.false =>
    rcases Nat.mod_two_eq_zero_or_one m with hmod | hmod
    · rw [hmod, add_zero]
      exact ⟨by rw [← hsticky]; simp, fun _ => hmod⟩
    · rw [hmod]
      exact ⟨by rw [← hsticky]; push_cast; norm_num, fun _ => by omega⟩
  case true.true =>
    have hlt' : (m + 1 / 2 : ℝ) < a := lt_of_le_of_ne hle hsticky
    have habs : |a - (m + 1 : ℕ)| = m + 1 - a := by
      rw [abs_of_nonpos (by push_cast; linarith)]
      push_cast
      ring
    exact ⟨by rw [habs]; linarith, fun h => by rw [habs] at h; linarith⟩

end Halves

/-! ## Magnitudes -/

/-- In the units that fit a magnitude, the second number is the whole number nearest to it. -/
inductive Nearest : ℝ → ℝ → Prop
  | units {b : ℝ} {r : ℕ} {t : ℤ} (hb : InUnits b t) (hr : NearestWhole b r) :
      Nearest (b * 2 ^ t) (r * 2 ^ t)

theorem nearest_self {n : ℕ} {f : ℤ} (h : CanonicalPair n f) :
    Nearest (n * 2 ^ f) (n * 2 ^ f) :=
  .units ⟨by exact_mod_cast h.1, h.2.2.imp_right fun hlead => by exact_mod_cast hlead, h.2.1⟩
    (nearestWhole_self n)

/-- A leading bit in larger units is above all mantissas. -/
theorem le_of_lead {b : ℝ} {k t : ℤ} (hlead : 2 ^ 52 ≤ b) (hlt : k < t) :
    2 ^ 53 * 2 ^ k ≤ b * 2 ^ t := by
  calc (2 : ℝ) ^ 53 * 2 ^ k = 2 ^ 52 * 2 ^ (k + 1) := by rw [zpow_add₀ two_ne_zero]; ring
    _ ≤ b * 2 ^ t := mul_le_mul hlead (zpow_le_zpow_right₀ one_le_two (by omega))
        (by positivity) ((show (0 : ℝ) ≤ 2 ^ 52 by positivity).trans hlead)

theorem InUnits.le_of_lt {b : ℝ} {t k : ℤ} (h : InUnits b t) (hk : -1074 ≤ k)
    (hlt : b * 2 ^ t < 2 ^ 53 * 2 ^ k) : t ≤ k :=
  not_lt.mp fun hkt =>
    absurd hlt (not_lt.mpr (le_of_lead (h.lead.resolve_left (by omega)) hkt))

theorem NearestWhole.le_of_inUnits {b : ℝ} {r : ℕ} {t : ℤ} (h : NearestWhole b r)
    (hb : InUnits b t) : (r : ℝ) ≤ 2 ^ 53 := by
  have hle : r ≤ 2 ^ 53 := h.mono (nearestWhole_self _) (by exact_mod_cast hb.lt.le)
  exact_mod_cast hle

theorem NearestWhole.lead_le {b : ℝ} {r : ℕ} (h : NearestWhole b r) (hb : 2 ^ 52 ≤ b) :
    (2 : ℝ) ^ 52 ≤ r := by
  have hle : 2 ^ 52 ≤ r := (nearestWhole_self _).mono h (by exact_mod_cast hb)
  exact_mod_cast hle

theorem Nearest.mono {v w v' w' : ℝ} (h : Nearest v w) (h' : Nearest v' w') (hle : v ≤ v') :
    w ≤ w' := by
  obtain @⟨b, r, t, hb, hr⟩ := h
  obtain @⟨b', r', t', hb', hr'⟩ := h'
  have hunits : t ≤ t' := hb.le_of_lt hb'.least
    (hle.trans_lt (mul_lt_mul_of_pos_right hb'.lt (zpow_pos two_pos t')))
  rcases hunits.lt_or_eq with hlt | rfl
  · have hlead : (2 : ℝ) ^ 52 ≤ b' := hb'.lead.resolve_left (by have := hb.least; omega)
    calc (r * 2 ^ t : ℝ) ≤ 2 ^ 53 * 2 ^ t :=
          mul_le_mul_of_nonneg_right (hr.le_of_inUnits hb) (by positivity)
      _ ≤ r' * 2 ^ t' := le_of_lead (hr'.lead_le hlead) hlt
  · have hpos : (0 : ℝ) < 2 ^ t := zpow_pos two_pos t
    have hwhole : r ≤ r' := hr.mono hr' (le_of_mul_le_mul_right hle hpos)
    exact mul_le_mul_of_nonneg_right (by exact_mod_cast hwhole) hpos.le

/-- The error is at most half of the units that fit a larger magnitude. -/
theorem Nearest.error_le {v w : ℝ} {k : ℤ} (h : Nearest v w) (hk : -1074 ≤ k)
    (hv : v < 2 ^ 53 * 2 ^ k) : |v - w| ≤ 2 ^ k / 2 := by
  obtain @⟨b, r, t, hb, hr⟩ := h
  have htk : t ≤ k := hb.le_of_lt hk hv
  have hpos : (0 : ℝ) < 2 ^ t := zpow_pos two_pos t
  rw [← sub_mul, abs_mul, abs_of_pos hpos]
  calc |b - r| * 2 ^ t ≤ 1 / 2 * 2 ^ k :=
        mul_le_mul hr.near (zpow_le_zpow_right₀ one_le_two htk) (by positivity) (by norm_num)
    _ = 2 ^ k / 2 := by ring

theorem Nearest.abs_sub_le {v w : ℝ} (h : Nearest v w) {n : ℕ} {f : ℤ} (hn : CanonicalPair n f) :
    |v - w| ≤ |v - n * 2 ^ f| := by
  obtain @⟨b, r, t, hb, hr⟩ := h
  have hpos : (0 : ℝ) < 2 ^ t := zpow_pos two_pos t
  rw [← sub_mul, abs_mul, abs_of_pos hpos]
  rcases le_or_gt t f with htf | hft
  · obtain ⟨k, rfl⟩ : ∃ k : ℕ, f = k + t := ⟨(f - t).toNat, by omega⟩
    have hwhole : (n * 2 ^ (k + t : ℤ) : ℝ) = ((n * 2 ^ k : ℕ) : ℝ) * 2 ^ t := by
      rw [zpow_add₀ two_ne_zero, zpow_natCast]
      push_cast
      ring
    rw [hwhole, ← sub_mul, abs_mul, abs_of_pos hpos]
    exact mul_le_mul_of_nonneg_right (hr.le_abs_sub _) hpos.le
  · -- A magnitude in smaller units is below all that have the leading bit.
    have hlead : (2 : ℝ) ^ 52 ≤ b := hb.lead.resolve_left (by have := hn.2.1; omega)
    have hbelow : (n * 2 ^ f : ℝ) < (2 ^ 52 : ℕ) * 2 ^ t :=
      magnitude_lt hn ⟨by decide, hb.least, Or.inr le_rfl⟩ (Or.inl hft)
    have hnear := hr.le_abs_sub (2 ^ 52)
    rw [Nat.cast_pow, Nat.cast_ofNat] at hbelow hnear
    rw [abs_of_nonneg (sub_nonneg.mpr hlead)] at hnear
    have hmul := mul_le_mul_of_nonneg_right hnear hpos.le
    rw [sub_mul] at hmul
    exact (le_abs_self _).trans' (by linarith)

theorem Nearest.relative_error {v w : ℝ} (h : Nearest v w) {n : ℕ}
    (hv : v = n * 2 ^ (-1074 : ℤ)) : |v - w| ≤ 2 ^ (-53 : ℤ) * v := by
  obtain @⟨b, r, t, hb, hr⟩ := h
  have hpos : (0 : ℝ) < 2 ^ t := zpow_pos two_pos t
  rw [← sub_mul, abs_mul, abs_of_pos hpos, ← mul_assoc]
  refine mul_le_mul_of_nonneg_right ?_ hpos.le
  rcases hb.lead with rfl | hlead
  · obtain rfl : b = n := mul_right_cancel₀ hpos.ne' hv
    rw [hr.eq]
    simp
  · have := hr.near
    norm_num at hlead ⊢
    linarith

theorem Nearest.eq_of_short {v w : ℝ} (h : Nearest v w) {m : ℕ} {e : ℤ} (hm : m ≤ 2 ^ 53)
    (hv : v = m * 2 ^ e) {n : ℕ} (hv' : v = n * 2 ^ (-1074 : ℤ)) : w = v := by
  obtain @⟨b, r, t, hb, hr⟩ := h
  have hpos : (0 : ℝ) < 2 ^ t := zpow_pos two_pos t
  obtain ⟨k, rfl⟩ : ∃ k : ℕ, b = k := by
    rcases hb.lead with rfl | hlead
    · exact ⟨n, mul_right_cancel₀ hpos.ne' hv'⟩
    rcases le_or_gt t e with hte | het
    · obtain ⟨j, rfl⟩ : ∃ j : ℕ, e = j + t := ⟨(e - t).toNat, by omega⟩
      refine ⟨m * 2 ^ j, mul_right_cancel₀ hpos.ne' (hv.trans ?_)⟩
      rw [zpow_add₀ two_ne_zero, zpow_natCast]
      push_cast
      ring
    · -- In smaller units it has 54 bits at least, and so it is the first number that does.
      have hle : b * 2 ^ t ≤ 2 ^ 52 * 2 ^ t := by
        calc b * 2 ^ t = m * 2 ^ e := hv
          _ ≤ 2 ^ 53 * 2 ^ e := by gcongr; exact_mod_cast hm
          _ = 2 ^ 52 * 2 ^ (e + 1) := by rw [zpow_add₀ two_ne_zero]; ring
          _ ≤ 2 ^ 52 * 2 ^ t := by gcongr <;> [norm_num; omega]
      refine ⟨2 ^ 52, ?_⟩
      rw [Nat.cast_pow, Nat.cast_ofNat]
      exact le_antisymm (le_of_mul_le_mul_right hle hpos) hlead
  rw [hr.eq]

/-! ## Rounding a magnitude -/

theorem abs_unpackedValue_signed (s : Sign) (r : ℕ) (t : ℤ) :
    |unpackedValue (signed s r t)| = r * 2 ^ t := by
  have hpos : (0 : ℝ) ≤ r * 2 ^ t := by positivity
  rw [unpackedValue_signed, apply_eq, mul_assoc, abs_mul, abs_of_nonneg hpos]
  cases s <;> simp [Sign.apply]

theorem nearest_roundWithAccuracy (s : Sign) {m : ℕ} {e : ℤ} {accuracy : Accuracy} {a : ℝ}
    (h : Halves (.ofMantissaAndAccuracy m accuracy) a) (he : e ≤ target m e) :
    Nearest (a * 2 ^ e) |unpackedValue (roundWithAccuracy .binary64 s m e accuracy)| := by
  have hunits := inUnits_target h.truncates he
  have hnear := (h.shiftRight (target m e - e).toNat).nearestWhole
  obtain ⟨r, u, -, heq, hvalue⟩ := roundWithAccuracy_signed s (shiftToTargetExponent_eq accuracy he)
    hunits.least (by exact_mod_cast hnear.le_of_inUnits hunits)
    (hunits.lead.imp_right fun hb => by exact_mod_cast hnear.lead_le hb)
  rw [heq, abs_unpackedValue_signed, hvalue, value_inUnits a he]
  exact .units hunits hnear

theorem nearest_round (s : Sign) {m : ℕ} (hm : 0 < m) (e : ℤ) :
    Nearest (m * 2 ^ e) |unpackedValue (UnpackedFloat.round .binary64 s m e)| := by
  obtain ⟨n, f, heq, hfine, hvalue⟩ := exists_round_eq s hm e
  rw [heq, hvalue]
  exact nearest_roundWithAccuracy s (halves_exact n) hfine

theorem nearest_zero : Nearest 0 0 := by
  have h : CanonicalPair 0 (-1074) := ⟨by decide, le_rfl, Or.inl rfl⟩
  simpa using nearest_self h

theorem nearest_normalize (m : ℤ) (e : ℤ) (s : Sign) :
    Nearest |m * 2 ^ e| |unpackedValue (UnpackedFloat.normalize .binary64 m e s)| := by
  unfold UnpackedFloat.normalize
  rw [abs_mul, abs_of_pos (zpow_pos (two_pos : (0 : ℝ) < 2) e)]
  rcases lt_trichotomy m 0 with hm | rfl | hm
  · have habs : |(m : ℝ)| = (-m).toNat := by
      rw [abs_of_neg (by exact_mod_cast hm)]
      exact_mod_cast (Int.toNat_of_nonneg (show 0 ≤ -m by omega)).symm
    rw [compare_lt_iff_lt.mpr hm, habs]
    exact nearest_round .negative (by omega) e
  · rw [Int.cast_zero, abs_zero, zero_mul, show unpackedValue _ = 0 from rfl, abs_zero]
    exact nearest_zero
  · have habs : |(m : ℝ)| = m.toNat := by
      rw [abs_of_pos (by exact_mod_cast hm)]
      exact_mod_cast (Int.toNat_of_nonneg hm.le).symm
    rw [compare_gt_iff_gt.mpr hm, habs]
    exact nearest_round .positive (by omega) e

theorem nearest_unpackedValue {u : UnpackedFloat} (hu : u.isFinite = true) (hcanon : Canonical u) :
    Nearest |unpackedValue u| |unpackedValue u| := by
  obtain ⟨n, f, hn, hvalue | hvalue⟩ := exists_magnitude hu hcanon <;> rw [hvalue]
  · rw [abs_of_nonneg (by positivity)]
    exact nearest_self hn
  · rw [abs_neg, abs_of_nonneg (by positivity)]
    exact nearest_self hn

theorem nearest_add {u v : UnpackedFloat} (hu : u.isFinite = true) (hv : v.isFinite = true)
    (hu' : Canonical u) (hv' : Canonical v) :
    Nearest |unpackedValue u + unpackedValue v|
      |unpackedValue (UnpackedFloat.add .binary64 u v)| := by
  rcases u with _ | _ | s | ⟨s, m, e, hm⟩ <;> cases hu <;>
    rcases v with _ | _ | s' | ⟨s', m', e', hm'⟩ <;> cases hv
  case zero.refl.zero.refl =>
    rw [show unpackedValue (.zero s) + unpackedValue (.zero s') = 0 from add_zero 0]
    rcases s with _ | _ <;> rcases s' with _ | _ <;>
      rw [abs_zero, show unpackedValue _ = 0 from rfl, abs_zero] <;> exact nearest_zero
  case zero.refl.finite.refl =>
    rw [show unpackedValue (.zero s) = 0 from rfl, zero_add]
    exact nearest_unpackedValue rfl hv'
  case finite.refl.zero.refl =>
    rw [show unpackedValue (.zero s') = 0 from rfl, add_zero]
    exact nearest_unpackedValue rfl hu'
  case finite.refl.finite.refl =>
    obtain ⟨n, f, heq, hvalue⟩ := add_finite s s' hm hm' e e'
    have h := nearest_normalize n f .positive
    rw [heq]
    rwa [hvalue] at h

theorem nearest_mul {u v : UnpackedFloat} (hu : u.isFinite = true) (hv : v.isFinite = true)
    (hu' : Canonical u) (hv' : Canonical v) :
    Nearest |unpackedValue u * unpackedValue v|
      |unpackedValue (UnpackedFloat.mul .binary64 u v)| := by
  rcases u with _ | _ | s | ⟨s, m, e, hm⟩ <;> cases hu <;>
    rcases v with _ | _ | s' | ⟨s', m', e', hm'⟩ <;> cases hv
  case finite.refl.finite.refl =>
    have habs : |unpackedValue (.finite s m e hm) * unpackedValue (.finite s' m' e' hm')| =
        (m * m' : ℕ) * 2 ^ (e + e') := by
      rw [abs_mul, abs_finite, abs_finite, zpow_add₀ two_ne_zero]
      push_cast
      ring
    rw [habs]
    exact nearest_roundWithAccuracy (s * s') (halves_exact _) (le_target_mul hm hm' hu' hv')
  -- In the other cases a factor is zero, and so is the product.
  all_goals simpa [unpackedValue, UnpackedFloat.mul] using nearest_zero

theorem nearest_div {u v : UnpackedFloat} (hu : u.isFinite = true) (hv : v.isFinite = true)
    (hne : unpackedValue v ≠ 0) :
    Nearest |unpackedValue u / unpackedValue v|
      |unpackedValue (UnpackedFloat.div .binary64 u v)| := by
  rcases u with _ | _ | s | ⟨s, m, e, hm⟩ <;> cases hu <;>
    rcases v with _ | _ | s' | ⟨s', m', e', hm'⟩ <;> cases hv
  case zero.refl.finite.refl =>
    rw [show unpackedValue (.zero s) = 0 from rfl, zero_div, abs_zero,
      show unpackedValue _ = 0 from rfl, abs_zero]
    exact nearest_zero
  case finite.refl.finite.refl =>
    obtain ⟨n, t, heq, hfine, hvalue⟩ := exists_div_eq s s' hm hm' e e'
    rw [abs_div, abs_finite, abs_finite, heq, ← hvalue]
    exact nearest_roundWithAccuracy (s / s') (halves_quotient n hm') hfine
  all_goals exact absurd rfl hne

/-! ## Rounding -/

/-- The double is the number `v`, rounded to the nearest double unless it is too large for one. -/
structure RoundsNearest (r : Float) (v : ℝ) : Prop extends Rounds r v where
  nearest : r.isFinite = true → Nearest |v| |value r|

theorem RoundsNearest.pack {u : UnpackedFloat} {v : ℝ} (h : UnpackedRounds u v)
    (hnear : Nearest |v| |unpackedValue u|) : RoundsNearest (.ofModel (.pack u)) v := by
  refine ⟨.pack h, fun hfinite => ?_⟩
  by_cases hfits : Fits u
  · have hvalue : value (.ofModel (.pack u)) = unpackedValue u :=
      congrArg unpackedValue (unpack_ofModel_pack_of_fits h.canonical hfits)
    rwa [hvalue]
  · rcases u with _ | _ | _ | ⟨s, m, e, hm⟩
    case finite =>
      have hinf : UnpackedFloat.isFinite (unpack .binary64
          (UnpackedFloat.pack .binary64 (.finite s m e hm))) = true := hfinite
      rw [unpack_pack_large h.canonical (not_le.mp hfits)] at hinf
      cases hinf
    all_goals exact absurd trivial hfits

section RoundsNearest

variable {r r' : Float} {v v' : ℝ}

theorem Rounds.value_nonneg (h : Rounds r v) (hr : r.isFinite = true) (hv : 0 ≤ v) :
    0 ≤ value r := (le_iff_value (x := 0.0) rfl hr).mp (h.zero_le hv)

theorem Rounds.value_nonpos (h : Rounds r v) (hr : r.isFinite = true) (hv : v ≤ 0) :
    value r ≤ 0 := (le_iff_value (y := 0.0) hr rfl).mp (h.le_of_le rfl hv)

/-- Rounding keeps the order, also of numbers that no double lies between. -/
theorem RoundsNearest.mono (h : RoundsNearest r v) (h' : RoundsNearest r' v')
    (hr : r.isFinite = true) (hr' : r'.isFinite = true) (hle : v ≤ v') : r ≤ r' := by
  rw [le_iff_value hr hr']
  have hnear := h.nearest hr
  have hnear' := h'.nearest hr'
  rcases le_total 0 v with hv | hv
  · rw [abs_of_nonneg hv, abs_of_nonneg (h.value_nonneg hr hv)] at hnear
    rw [abs_of_nonneg (hv.trans hle), abs_of_nonneg (h'.value_nonneg hr' (hv.trans hle))] at hnear'
    exact hnear.mono hnear' hle
  rcases le_total 0 v' with hv' | hv'
  · exact (h.value_nonpos hr hv).trans (h'.value_nonneg hr' hv')
  · rw [abs_of_nonpos hv, abs_of_nonpos (h.value_nonpos hr hv)] at hnear
    rw [abs_of_nonpos hv', abs_of_nonpos (h'.value_nonpos hr' hv')] at hnear'
    exact neg_le_neg_iff.mp (hnear'.mono hnear (neg_le_neg hle))

/-- Rounding keeps the sign. -/
theorem Rounds.abs_sub_value (h : Rounds r v) (hr : r.isFinite = true) :
    |v - value r| = |(|v| - |value r|)| := by
  rcases le_total 0 v with hpos | hneg
  · rw [abs_of_nonneg hpos, abs_of_nonneg (h.value_nonneg hr hpos)]
  · rw [abs_of_nonpos hneg, abs_of_nonpos (h.value_nonpos hr hneg), neg_sub_neg, abs_sub_comm]

/-- A result of at most 53 bits above `2 ^ k` is wrong by at most half of that. -/
theorem RoundsNearest.error_le {k : ℤ} (h : RoundsNearest r v) (hr : r.isFinite = true)
    (hk : -1074 ≤ k) (hv : |v| < 2 ^ 53 * 2 ^ k) : |v - value r| ≤ 2 ^ k / 2 := by
  rw [h.abs_sub_value hr]
  exact (h.nearest hr).error_le hk hv

theorem exists_abs_value {z : Float} (hz : z.isFinite = true) :
    ∃ n f, CanonicalPair n f ∧ |value z| = n * 2 ^ f := by
  obtain ⟨n, f, hn, hvalue⟩ := exists_magnitude hz (canonical z)
  have hpos : (0 : ℝ) ≤ n * 2 ^ f := by positivity
  refine ⟨n, f, hn, ?_⟩
  rcases hvalue with hvalue | hvalue <;> simp [value, hvalue, abs_of_nonneg hpos]

theorem RoundsNearest.abs_sub_le (h : RoundsNearest r v) (hr : r.isFinite = true) {z : Float}
    (hz : z.isFinite = true) : |v - value r| ≤ |v - value z| := by
  obtain ⟨n, f, hn, habs⟩ := exists_abs_value hz
  rw [h.abs_sub_value hr]
  calc |(|v| - |value r|)| ≤ |(|v| - |value z|)| := by
        rw [habs]
        exact (h.nearest hr).abs_sub_le hn
    _ ≤ |v - value z| := abs_abs_sub_abs_le v (value z)

/-- The number is so many of the least units, of which all doubles are made. -/
structure LeastUnits (v : ℝ) : Prop where
  exists_eq : ∃ k : ℤ, v = k * 2 ^ (-1074 : ℤ)

theorem LeastUnits.add (h : LeastUnits v) (h' : LeastUnits v') : LeastUnits (v + v') := by
  obtain ⟨k, rfl⟩ := h
  obtain ⟨k', rfl⟩ := h'
  exact ⟨k + k', by push_cast; ring⟩

theorem leastUnits_natCast (n : ℕ) : LeastUnits n := by
  obtain ⟨k, hk⟩ : ∃ k : ℕ, k = 1074 := ⟨_, rfl⟩
  have hunits : (2 : ℝ) ^ k * 2 ^ (-1074 : ℤ) = 1 := by
    rw [← zpow_natCast, ← zpow_add₀ two_ne_zero, hk]
    exact zpow_zero 2
  refine ⟨n * 2 ^ k, ?_⟩
  push_cast
  rw [mul_assoc, hunits, mul_one]

theorem leastUnits_value {x : Float} (hx : x.isFinite = true) : LeastUnits (value x) := by
  obtain ⟨n, f, hn, hvalue⟩ := exists_magnitude hx (canonical x)
  obtain ⟨j, rfl⟩ : ∃ j : ℕ, f = j + -1074 := ⟨(f + 1074).toNat, by have := hn.2.1; omega⟩
  have hunits : (n * 2 ^ (j + -1074 : ℤ) : ℝ) = (n * 2 ^ j : ℤ) * 2 ^ (-1074 : ℤ) := by
    rw [zpow_add₀ two_ne_zero, zpow_natCast]
    push_cast
    ring
  rw [hunits] at hvalue
  rcases hvalue with hvalue | hvalue
  · exact ⟨_, hvalue⟩
  · exact ⟨-(n * 2 ^ j : ℤ), hvalue.trans (by push_cast; ring)⟩

theorem LeastUnits.abs_eq (h : LeastUnits v) : ∃ n : ℕ, |v| = n * 2 ^ (-1074 : ℤ) := by
  obtain ⟨k, rfl⟩ := h
  exact ⟨k.natAbs, by rw [abs_mul, abs_of_pos (zpow_pos (two_pos : (0 : ℝ) < 2) _)]; simp⟩

theorem RoundsNearest.relative_error (h : RoundsNearest r v) (hr : r.isFinite = true)
    (hv : LeastUnits v) : |v - value r| ≤ 2 ^ (-53 : ℤ) * |v| := by
  obtain ⟨n, hn⟩ := hv.abs_eq
  rw [h.abs_sub_value hr]
  exact (h.nearest hr).relative_error hn

/-- The number has at most 53 bits. -/
structure Short (v : ℝ) : Prop where
  exists_eq : ∃ m : ℕ, ∃ e : ℤ, m ≤ 2 ^ 53 ∧ |v| = m * 2 ^ e

theorem short_value {x : Float} (hx : x.isFinite = true) : Short (value x) := by
  obtain ⟨n, f, hn, habs⟩ := exists_abs_value hx
  exact ⟨n, f, hn.1.le, habs⟩

theorem Short.two_mul (h : Short v) : Short (2 * v) := by
  obtain ⟨m, e, hm, hv⟩ := h
  refine ⟨m, e + 1, hm, ?_⟩
  rw [abs_mul, hv, zpow_add₀ two_ne_zero, abs_two]
  ring

theorem RoundsNearest.eq_of_short (h : RoundsNearest r v) (hr : r.isFinite = true)
    (hv : LeastUnits v) (hshort : Short v) : value r = v := by
  obtain ⟨n, hn⟩ := hv.abs_eq
  obtain ⟨m, e, hm, hme⟩ := hshort
  have habs := (h.nearest hr).eq_of_short hm hme hn
  have hzero := h.abs_sub_value hr
  rw [habs, sub_self, abs_zero, abs_eq_zero, sub_eq_zero] at hzero
  exact hzero.symm

end RoundsNearest

theorem roundsNearest_add {x y : Float} (hx : x.isFinite = true) (hy : y.isFinite = true) :
    RoundsNearest (x + y) (value x + value y) :=
  .pack (unpackedRounds_add hx hy (canonical x) (canonical y))
    (nearest_add hx hy (canonical x) (canonical y))

theorem roundsNearest_mul {x y : Float} (hx : x.isFinite = true) (hy : y.isFinite = true) :
    RoundsNearest (x * y) (value x * value y) :=
  .pack (unpackedRounds_mul hx hy (canonical x) (canonical y))
    (nearest_mul hx hy (canonical x) (canonical y))

theorem roundsNearest_div {x y : Float} (hx : x.isFinite = true) (hy : y.isFinite = true)
    (hne : value y ≠ 0) : RoundsNearest (x / y) (value x / value y) :=
  .pack (unpackedRounds_div hx hy hne) (nearest_div hx hy hne)

theorem roundsNearest_ofNat (n : ℕ) : RoundsNearest (Float.ofNat n) n := by
  by_cases hn : n < 2 ^ 53
  · refine ⟨rounds_ofNat n, fun hfinite => ?_⟩
    rw [← (value_ofNat hn).2]
    exact nearest_unpackedValue hfinite (canonical _)
  · have hnear := nearest_roundWithAccuracy .positive (halves_exact _) (le_target_ofNat hn)
    rw [value_shifted_ofNat, ← abs_of_nonneg (Nat.cast_nonneg (α := ℝ) n)] at hnear
    rw [ofNat_eq_of_ge hn]
    exact .pack (unpackedRounds_ofNat hn) hnear

theorem value_ofNat_of_le {n : ℕ} (hn : n ≤ 2 ^ 53) : value (Float.ofNat n) = n :=
  (roundsNearest_ofNat n).eq_of_short (isFinite_ofNat (hn.trans (by decide)))
    (leastUnits_natCast n) ⟨n, 0, hn, by simp⟩

theorem roundsNearest_roundBinary (m : ℕ) (e : ℤ) :
    RoundsNearest (roundBinary m e) (m * 2 ^ e) := by
  unfold roundBinary
  split_ifs with hm
  · have h := unpackedRounds_round .positive hm e
    have hnear := nearest_round .positive hm e
    simp only [Sign.apply, Int.cast_one, one_mul] at h
    rw [← abs_of_nonneg (show (0 : ℝ) ≤ m * 2 ^ e by positivity)] at hnear
    exact .pack h hnear
  · rw [Nat.eq_zero_of_not_pos hm, Nat.cast_zero, zero_mul]
    refine ⟨.pack (unpackedRounds_zero .positive), fun _ => ?_⟩
    rw [value_zero, abs_zero]
    exact nearest_zero

end PenTouch.Double
