import Mathlib
import PenTouch.Proofs.Scalar.Value

/-!
# Rounding

An operation on doubles computes an exact result, or enough of its bits, and rounds it. What matters
about the rounded result is that no double lies strictly between it and the exact one
(`UnpackedRounds`): bounds that are doubles are not crossed, and an exact result that is a double is
the result.

1. `Truncates`: a mantissa with its two extra bits is a real number cut to a whole one. Shifting
   keeps this (`Truncates.shiftRight`), and rounding does not cross a whole number.
2. `Truncates.rounded_between`: in the units of the rounded mantissa, no canonical magnitude is
   crossed either. Larger ones are whole numbers of units, and smaller ones are below all mantissas
   that have the leading bit.
3. `unpackedRounds_roundWithAccuracy`, `unpackedRounds_round`, `unpackedRounds_normalize`: so the
   three forms of rounding round.
-/

namespace PenTouch.Double

open Float.Model UnpackedFloat

/-! ## Mantissas -/

/-- The mantissa is `a` cut to a whole number, and if no bit is set then nothing was cut off. -/
structure Truncates (em : ExtendedMantissa) (a : ℝ) : Prop where
  le : (em.mantissa : ℝ) ≤ a
  lt : a < em.mantissa + 1
  inexact : em.roundBit = true ∨ em.stickyBit = true → (em.mantissa : ℝ) < a

theorem truncates_exact (m : Nat) : Truncates (.ofMantissaAndAccuracy m .exact) (m : ℝ) := by
  constructor <;> simp [ExtendedMantissa.ofMantissaAndAccuracy]

theorem mantissa_ofMantissaAndAccuracy (m : Nat) (accuracy : Accuracy) :
    (ExtendedMantissa.ofMantissaAndAccuracy m accuracy).mantissa = m := by
  rcases accuracy with _ | (_ | _ | _) <;> rfl

namespace Truncates

variable {em : ExtendedMantissa} {a : ℝ}

theorem shiftRightOne (h : Truncates em a) : Truncates em.shiftRightOne (a / 2) := by
  have hsplit : ((em.mantissa / 2 : Nat) : ℝ) * 2 + (em.mantissa % 2 : Nat) = em.mantissa := by
    exact_mod_cast Nat.div_add_mod' em.mantissa 2
  have hle := h.le
  have hlt := h.lt
  refine ⟨?_, ?_, fun hbits => ?_⟩
  · show ((em.mantissa / 2 : Nat) : ℝ) ≤ a / 2
    have : (0 : ℝ) ≤ (em.mantissa % 2 : Nat) := Nat.cast_nonneg _
    linarith
  · show a / 2 < ((em.mantissa / 2 : Nat) : ℝ) + 1
    have : ((em.mantissa % 2 : Nat) : ℝ) ≤ 1 := by exact_mod_cast (by omega)
    linarith
  · show ((em.mantissa / 2 : Nat) : ℝ) < a / 2
    rcases Nat.mod_two_eq_zero_or_one em.mantissa with hmod | hmod
    · -- The bit that is shifted out is not set, so one of the other two was.
      have := h.inexact (by simpa [ExtendedMantissa.shiftRightOne, hmod] using hbits)
      rw [hmod] at hsplit
      push_cast at hsplit
      linarith
    · rw [hmod] at hsplit
      push_cast at hsplit
      linarith

theorem shiftRight (h : Truncates em a) (k : Nat) : Truncates (em >>> k) (a / 2 ^ k) := by
  show Truncates (k.repeat ExtendedMantissa.shiftRightOne em) _
  induction k with
  | zero => simpa [Nat.repeat] using h
  | succ k ih =>
    rw [pow_succ, div_mul_eq_div_div]
    exact ih.shiftRightOne

theorem roundedMantissa_le (h : Truncates em a) {n : Nat} (hn : a ≤ n) :
    em.roundedMantissa ≤ n := by
  have hle : em.mantissa ≤ n := by exact_mod_cast h.le.trans hn
  have hlt : em.roundBit = true ∨ em.stickyBit = true → em.mantissa < n := fun hbits => by
    exact_mod_cast (h.inexact hbits).trans_le hn
  rcases em with ⟨m, _ | _, _ | _⟩ <;>
    simp [ExtendedMantissa.roundedMantissa, ExtendedMantissa.accuracy,
      Accuracy.roundToNearestEven] at hle hlt ⊢ <;> omega

theorem le_roundedMantissa (h : Truncates em a) {n : Nat} (hn : n ≤ a) :
    n ≤ em.roundedMantissa := by
  have hle : n < em.mantissa + 1 := by exact_mod_cast hn.trans_lt h.lt
  rcases em with ⟨m, _ | _, _ | _⟩ <;>
    simp [ExtendedMantissa.roundedMantissa, ExtendedMantissa.accuracy,
      Accuracy.roundToNearestEven] at hle ⊢ <;> omega

end Truncates

/-! ## Magnitudes -/

/-- In units of `2 ^ t`, `b` has as many bits as fit, or fewer if the units are the least ones. -/
structure InUnits (b : ℝ) (t : Int) : Prop where
  lt : b < 2 ^ 53
  lead : t = -1074 ∨ 2 ^ 52 ≤ b
  least : -1074 ≤ t

theorem Truncates.rounded_between {em : ExtendedMantissa} {b : ℝ} {t : Int}
    (h : Truncates em b) (hb : InUnits b t) :
    NoneBetween (b * 2 ^ t) (em.roundedMantissa * 2 ^ t) := by
  intro n f hn
  have hpos : (0 : ℝ) < 2 ^ t := zpow_pos two_pos t
  rcases le_or_gt t f with htf | hft
  · obtain ⟨k, rfl⟩ : ∃ k : Nat, f = k + t := ⟨(f - t).toNat, by omega⟩
    have hwhole : (n * 2 ^ (k + t : Int) : ℝ) = ((n * 2 ^ k : Nat) : ℝ) * 2 ^ t := by
      rw [zpow_add₀ two_ne_zero, zpow_natCast]
      push_cast
      ring
    rw [hwhole, mul_le_mul_iff_left₀ hpos, mul_le_mul_iff_left₀ hpos, mul_le_mul_iff_left₀ hpos,
      mul_le_mul_iff_left₀ hpos]
    exact ⟨fun hle => by exact_mod_cast h.roundedMantissa_le hle,
      fun hle => by exact_mod_cast h.le_roundedMantissa hle⟩
  · have hlead : (2 : ℝ) ^ 52 ≤ b := hb.lead.resolve_left (by have := hn.2.1; omega)
    have hbelow : (n * 2 ^ f : ℝ) < (2 ^ 52 : Nat) * 2 ^ t :=
      magnitude_lt hn ⟨by decide, hb.least, Or.inr le_rfl⟩ (Or.inl hft)
    have hrounded : 2 ^ 52 ≤ em.roundedMantissa := h.le_roundedMantissa (by exact_mod_cast hlead)
    refine ⟨fun hle => absurd (hbelow.trans_le ?_) (not_lt.mpr hle), fun _ => hbelow.le.trans ?_⟩
    · exact mul_le_mul_of_nonneg_right (by exact_mod_cast hlead) hpos.le
    · exact mul_le_mul_of_nonneg_right (by exact_mod_cast hrounded) hpos.le

/-! ## Rounding a magnitude -/

/-- The exponent that a magnitude is rounded to. -/
def target (m : Nat) (e : Int) : Int := max ((m.log2 : Int) + e - 52) (-1074)

/-- A mantissa with the leading bit is fine enough to round. -/
theorem le_target {n : Nat} {t : Int} (h : -1074 < t → 2 ^ 52 ≤ n) : t ≤ target n t := by
  unfold target
  rcases lt_or_ge (-1074) t with ht | ht
  · have hlong := h ht
    have := (Nat.le_log2 (by omega)).mpr hlong
    omega
  · omega

theorem targetExponent_eq (m : Nat) (e : Int) :
    Format.binary64.targetExponent (totalExponent m e) = target m e := by
  show max ((m.log2 : Int) + 1 + e - (1 + 52 : Nat)) (3 - 2 ^ (11 - 1) - (1 + 52 : Nat)) =
    max ((m.log2 : Int) + e - 52) (-1074)
  omega

theorem inUnits_target {m : Nat} {e : Int} {accuracy : Accuracy} {a : ℝ}
    (h : Truncates (.ofMantissaAndAccuracy m accuracy) a) (he : e ≤ target m e) :
    InUnits (a / 2 ^ (target m e - e).toNat) (target m e) := by
  have hle : (m : ℝ) ≤ a := mantissa_ofMantissaAndAccuracy m accuracy ▸ h.le
  have hlt : a < m + 1 := mantissa_ofMantissaAndAccuracy m accuracy ▸ h.lt
  unfold target at he ⊢
  generalize ht : max ((m.log2 : Int) + e - 52) (-1074) = t at he ⊢
  refine ⟨?_, ?_, by omega⟩
  · have hm : (m + 1 : ℝ) ≤ 2 ^ (m.log2 + 1) := by exact_mod_cast Nat.lt_log2_self
    rw [div_lt_iff₀ (by positivity), ← pow_add]
    calc a < 2 ^ (m.log2 + 1) := hlt.trans_le hm
      _ ≤ 2 ^ (53 + (t - e).toNat) := pow_le_pow_right₀ one_le_two (by omega)
  · refine or_iff_not_imp_left.mpr fun hleast => ?_
    have hm : (2 ^ m.log2 : ℝ) ≤ m := by
      exact_mod_cast Nat.log2_self_le (by rintro rfl; simp at ht; omega)
    rw [le_div_iff₀ (by positivity), ← pow_add]
    calc (2 : ℝ) ^ (52 + (t - e).toNat) = 2 ^ m.log2 := by congr 1; omega
      _ ≤ a := hm.trans hle

/-- A rounded mantissa that fits stays as it is. -/
theorem shift_exact {r : Nat} {t : Int} (hr : r < 2 ^ 53) (ht : -1074 ≤ t) :
    shiftToTargetExponent .binary64 r t .exact = (⟨r, false, false⟩, t) := by
  have hlog : r.log2 ≤ 52 := by
    rcases Nat.eq_zero_or_pos r with rfl | hpos
    · exact Nat.zero_le _
    · have := (Nat.log2_lt hpos.ne').mpr hr
      omega
  have hk : (Format.binary64.targetExponent (totalExponent r t) - t).toNat = 0 := by
    rw [targetExponent_eq, target]
    omega
  unfold shiftToTargetExponent shiftToExponent
  simp only [hk]
  show (_, t + 0) = _
  rw [add_zero]
  rfl

/-- Rounding up may take one bit more, and then the last one is dropped. -/
theorem shift_carry {t : Int} (ht : -1074 ≤ t) :
    shiftToTargetExponent .binary64 (2 ^ 53) t .exact = (⟨2 ^ 52, false, false⟩, t + 1) := by
  have hk : (Format.binary64.targetExponent (totalExponent (2 ^ 53) t) - t).toNat = 1 := by
    rw [targetExponent_eq, target, Nat.log2_two_pow]
    omega
  unfold shiftToTargetExponent shiftToExponent
  simp only [hk]
  rfl

/-- The double with the given sign and magnitude, which may be zero. -/
def signed (s : Sign) (m : Nat) (e : Int) : UnpackedFloat :=
  if h : m = 0 then .zero s else .finite s m e (Nat.pos_of_ne_zero h)

theorem shiftToTargetExponent_eq {m : Nat} {e : Int} (accuracy : Accuracy) (he : e ≤ target m e) :
    shiftToTargetExponent .binary64 m e accuracy =
      (ExtendedMantissa.ofMantissaAndAccuracy m accuracy >>> (target m e - e).toNat,
        target m e) := by
  unfold shiftToTargetExponent shiftToExponent
  simp only [targetExponent_eq, Prod.mk.injEq, true_and]
  omega

/-- The rounded mantissa is that of the result, up to a last bit that is dropped. -/
theorem roundWithAccuracy_signed (s : Sign) {m : Nat} {e : Int} {accuracy : Accuracy}
    {em : ExtendedMantissa} {t : Int}
    (h : shiftToTargetExponent .binary64 m e accuracy = (em, t)) (ht : -1074 ≤ t)
    (hle : em.roundedMantissa ≤ 2 ^ 53) (hlead : t = -1074 ∨ 2 ^ 52 ≤ em.roundedMantissa) :
    ∃ r u, CanonicalPair r u ∧ roundWithAccuracy .binary64 s m e accuracy = signed s r u ∧
      (r * 2 ^ u : ℝ) = em.roundedMantissa * 2 ^ t := by
  unfold roundWithAccuracy
  rw [h]
  rcases hle.lt_or_eq with hlt | hcarry
  · refine ⟨em.roundedMantissa, t, ⟨hlt, ht, hlead⟩, ?_, rfl⟩
    simp only [shift_exact hlt ht]
    rfl
  · refine ⟨2 ^ 52, t + 1, ⟨by decide, by omega, Or.inr le_rfl⟩, ?_, ?_⟩
    · simp only [hcarry, shift_carry ht]
      rfl
    · rw [hcarry, zpow_add₀ two_ne_zero]
      push_cast
      ring

/-- In the units that it is rounded to, the number keeps its value. -/
theorem value_inUnits (a : ℝ) {e t : Int} (he : e ≤ t) :
    a * 2 ^ e = a / 2 ^ (t - e).toNat * 2 ^ t := by
  obtain ⟨k, rfl⟩ : ∃ k : Nat, t = k + e := ⟨(t - e).toNat, by omega⟩
  rw [show ((k : Int) + e - e).toNat = k by omega, zpow_add₀ two_ne_zero, zpow_natCast]
  field_simp

theorem roundWithAccuracy_eq (s : Sign) {m : Nat} {e : Int} {accuracy : Accuracy} {a : ℝ}
    (h : Truncates (.ofMantissaAndAccuracy m accuracy) a) (he : e ≤ target m e) :
    ∃ r t, CanonicalPair r t ∧ roundWithAccuracy .binary64 s m e accuracy = signed s r t ∧
      NoneBetween (a * 2 ^ e) (r * 2 ^ t) := by
  have hunits := inUnits_target h he
  have htrunc := h.shiftRight (target m e - e).toNat
  obtain ⟨r, u, hcanon, heq, hvalue⟩ := roundWithAccuracy_signed s
    (shiftToTargetExponent_eq accuracy he) hunits.least
    (htrunc.roundedMantissa_le (by exact_mod_cast hunits.lt.le))
    (hunits.lead.imp_right fun hb => htrunc.le_roundedMantissa (by exact_mod_cast hb))
  refine ⟨r, u, hcanon, heq, ?_⟩
  rw [hvalue, value_inUnits a he]
  exact htrunc.rounded_between hunits

/-! ## Rounding a signed number -/

/-- No double lies strictly between the unpacked double and the number. -/
structure UnpackedRounds (u : UnpackedFloat) (v : ℝ) : Prop where
  finite : u.isFinite = true
  canonical : Canonical u
  le_of_le : ∀ z : UnpackedFloat, z.isFinite = true → Canonical z → v ≤ unpackedValue z →
    unpackedValue u ≤ unpackedValue z
  ge_of_ge : ∀ z : UnpackedFloat, z.isFinite = true → Canonical z → unpackedValue z ≤ v →
    unpackedValue z ≤ unpackedValue u

theorem UnpackedRounds.self {u : UnpackedFloat} (hu : u.isFinite = true) (hcanon : Canonical u) :
    UnpackedRounds u (unpackedValue u) :=
  ⟨hu, hcanon, fun _ _ _ h => h, fun _ _ _ h => h⟩

theorem unpackedRounds_zero (s : Sign) : UnpackedRounds (.zero s) 0 := .self rfl trivial

theorem unpackedValue_signed (s : Sign) (m : Nat) (e : Int) :
    unpackedValue (signed s m e) = s.apply m * 2 ^ e := by
  unfold signed
  split_ifs with h
  · subst h
    cases s <;> simp [unpackedValue, Sign.apply]
  · rfl

theorem exists_magnitude {z : UnpackedFloat} (hz : z.isFinite = true) (hcanon : Canonical z) :
    ∃ n f, CanonicalPair n f ∧
      (unpackedValue z = n * 2 ^ f ∨ unpackedValue z = -(n * 2 ^ f)) := by
  rcases z with _ | _ | _ | ⟨_ | _, n, f, hn⟩ <;> cases hz
  case zero =>
    exact ⟨0, -1074, ⟨by decide, le_rfl, Or.inl rfl⟩, Or.inl (by simp [unpackedValue])⟩
  case finite.negative =>
    exact ⟨n, f, hcanon, Or.inr (by simp [unpackedValue, Sign.apply])⟩
  case finite.positive =>
    exact ⟨n, f, hcanon, Or.inl (by simp [unpackedValue, Sign.apply])⟩

theorem unpackedRounds_signed (s : Sign) {r : Nat} {t : Int} {v : ℝ} (hv : 0 ≤ v)
    (hr : CanonicalPair r t) (h : NoneBetween v (r * 2 ^ t)) :
    UnpackedRounds (signed s r t) (s.apply 1 * v) := by
  have hrpos : (0 : ℝ) ≤ r * 2 ^ t := by positivity
  refine ⟨?_, ?_, fun z hz hcanon hle => ?_, fun z hz hcanon hle => ?_⟩
  · unfold signed
    split_ifs <;> rfl
  · unfold signed
    split_ifs
    · trivial
    · exact hr
  all_goals
    obtain ⟨n, f, hn, hvalue⟩ := exists_magnitude hz hcanon
    obtain ⟨hup, hdown⟩ := h n f hn
    have hnpos : (0 : ℝ) ≤ n * 2 ^ f := by positivity
    rw [unpackedValue_signed]
    cases s <;>
      simp only [Sign.apply, Int.cast_neg, Int.cast_natCast, Int.cast_one, neg_mul, one_mul]
        at hle ⊢ <;>
      rcases hvalue with hvalue | hvalue <;> rw [hvalue] at hle ⊢
  -- On the other side of zero only zero itself is comparable, and there both bounds are met.
  all_goals first
    | linarith
    | linarith [hup (by linarith)]
    | linarith [hdown (by linarith)]

theorem unpackedRounds_roundWithAccuracy (s : Sign) {m : Nat} {e : Int} {accuracy : Accuracy}
    {a : ℝ} (h : Truncates (.ofMantissaAndAccuracy m accuracy) a) (ha : 0 ≤ a)
    (he : e ≤ target m e) :
    UnpackedRounds (roundWithAccuracy .binary64 s m e accuracy) (s.apply 1 * (a * 2 ^ e)) := by
  obtain ⟨r, t, hr, heq, hbetween⟩ := roundWithAccuracy_eq s h he
  rw [heq]
  exact unpackedRounds_signed s (by positivity) hr hbetween

theorem log2_shiftLeft {m : Nat} (hm : 0 < m) (k : Nat) : (m <<< k).log2 = m.log2 + k := by
  have hpos : 0 < 2 ^ k := Nat.two_pow_pos k
  rw [Nat.shiftLeft_eq, Nat.log2_eq_iff (by positivity), Nat.add_right_comm, Nat.pow_add,
    Nat.pow_add]
  exact ⟨Nat.mul_le_mul_right _ (Nat.log2_self_le hm.ne'),
    Nat.mul_lt_mul_of_pos_right Nat.lt_log2_self hpos⟩

theorem two_pow_log2_add_le {m : Nat} (hm : 0 < m) (k : Nat) : 2 ^ (m.log2 + k) ≤ m <<< k := by
  rw [← log2_shiftLeft hm]
  exact Nat.log2_self_le (Nat.shiftLeft_pos_iff.mpr hm).ne'

/-- A mantissa that is too short is first made longer. -/
theorem exists_round_eq (s : Sign) {m : Nat} (hm : 0 < m) (e : Int) :
    ∃ n f, UnpackedFloat.round .binary64 s m e = roundWithAccuracy .binary64 s n f .exact ∧
      f ≤ target n f ∧ (m * 2 ^ e : ℝ) = n * 2 ^ f := by
  obtain ⟨k, hk⟩ : ∃ k, (e - target m e).toNat = k := ⟨_, rfl⟩
  refine ⟨m <<< k, e - k, ?_, ?_, ?_⟩
  · unfold UnpackedFloat.round decreaseExponent
    simp only [targetExponent_eq, hk]
  · unfold target at hk ⊢
    rw [log2_shiftLeft hm]
    omega
  · rw [Nat.shiftLeft_eq, zpow_sub₀ two_ne_zero, zpow_natCast]
    push_cast
    field_simp

theorem unpackedRounds_round (s : Sign) {m : Nat} (hm : 0 < m) (e : Int) :
    UnpackedRounds (UnpackedFloat.round .binary64 s m e) (s.apply 1 * (m * 2 ^ e)) := by
  obtain ⟨n, f, heq, hfine, hvalue⟩ := exists_round_eq s hm e
  rw [heq, hvalue]
  exact unpackedRounds_roundWithAccuracy s (truncates_exact n) (Nat.cast_nonneg n) hfine

theorem unpackedRounds_normalize (m : Int) (e : Int) (s : Sign) :
    UnpackedRounds (UnpackedFloat.normalize .binary64 m e s) (m * 2 ^ e) := by
  unfold UnpackedFloat.normalize
  rcases lt_trichotomy m 0 with hm | rfl | hm
  · have habs : ((-m).toNat : ℝ) = -m := by
      exact_mod_cast Int.toNat_of_nonneg (show 0 ≤ -m by omega)
    have h := unpackedRounds_round .negative (show 0 < (-m).toNat by omega) e
    rw [compare_lt_iff_lt.mpr hm]
    simpa [habs, Sign.apply] using h
  · rw [Int.cast_zero, zero_mul]
    exact unpackedRounds_zero s
  · have habs : (m.toNat : ℝ) = m := by exact_mod_cast Int.toNat_of_nonneg hm.le
    have h := unpackedRounds_round .positive (show 0 < m.toNat by omega) e
    rw [compare_gt_iff_gt.mpr hm]
    simpa [habs, Sign.apply] using h

end PenTouch.Double
