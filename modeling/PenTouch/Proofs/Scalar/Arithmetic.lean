import Mathlib
import PenTouch.Proofs.Scalar.Rounding

/-!
# The arithmetic of the doubles

The operations round their exact results (`rounds_add`, `rounds_sub`, `rounds_mul`, `rounds_div`,
`rounds_ofNat`): a bound that is a double is kept (`Rounds`), and a result that is a double is exact
(`Rounds.exact`).

The powers of two are bounds of this kind (`Rounds.abs_value_le`, `Rounds.le_value`).
-/

namespace PenTouch.Double

open Float.Model UnpackedFloat

/-! ## Unpacked operations -/

theorem apply_eq (s : Sign) (m : Nat) : ((s.apply m : Int) : ℝ) = (s.apply 1 : Int) * m := by
  cases s <;> simp [Sign.apply]

theorem apply_mul (s t : Sign) : ((s * t).apply 1 : ℝ) = (s.apply 1 : Int) * (t.apply 1 : Int) := by
  have h : (s * t).apply 1 = s.apply 1 * t.apply 1 := by cases s <;> cases t <;> rfl
  exact_mod_cast h

theorem apply_div (s t : Sign) : ((s / t).apply 1 : ℝ) = (s.apply 1 : Int) / (t.apply 1 : Int) := by
  have h : (s / t).apply 1 * t.apply 1 = s.apply 1 := by cases s <;> cases t <;> rfl
  rw [eq_div_iff (by cases t <;> simp [Sign.apply])]
  exact_mod_cast h

theorem decreaseExponent_value (m : Nat) {e t : Int} (h : t ≤ e) :
    ((decreaseExponent m e t).1 * 2 ^ t : ℝ) = m * 2 ^ e := by
  obtain ⟨k, rfl⟩ : ∃ k : Nat, e = k + t := ⟨(e - t).toNat, by omega⟩
  have hk : (decreaseExponent m (k + t) t).1 = m * 2 ^ k := by
    unfold decreaseExponent
    simp only [show ((k : Int) + t - t).toNat = k by omega, Nat.shiftLeft_eq]
  rw [hk, zpow_add₀ two_ne_zero, zpow_natCast]
  push_cast
  ring

/-- Two numbers are written with the smaller of their exponents, so that their mantissas add up
exactly. -/
theorem add_finite (s s' : Sign) {m m' : Nat} (hm : 0 < m) (hm' : 0 < m') (e e' : Int) :
    ∃ (n : Int) (f : Int),
      UnpackedFloat.add .binary64 (.finite s m e hm) (.finite s' m' e' hm') =
        UnpackedFloat.normalize .binary64 n f .positive ∧
      (n * 2 ^ f : ℝ) = s.apply m * 2 ^ e + s'.apply m' * 2 ^ e' := by
  refine ⟨s.apply (decreaseExponent m e (min e e')).1 +
    s'.apply (decreaseExponent m' e' (min e e')).1, min e e', rfl, ?_⟩
  rw [Int.cast_add, apply_eq, apply_eq, apply_eq s m, apply_eq s' m', add_mul, mul_assoc,
    mul_assoc, decreaseExponent_value m (min_le_left e e'),
    decreaseExponent_value m' (min_le_right e e'), mul_assoc, mul_assoc]

theorem unpackedRounds_add {u v : UnpackedFloat} (hu : u.isFinite = true) (hv : v.isFinite = true)
    (hu' : Canonical u) (hv' : Canonical v) :
    UnpackedRounds (UnpackedFloat.add .binary64 u v) (unpackedValue u + unpackedValue v) := by
  rcases u with _ | _ | s | ⟨s, m, e, hm⟩ <;> cases hu <;>
    rcases v with _ | _ | s' | ⟨s', m', e', hm'⟩ <;> cases hv
  case zero.refl.zero.refl =>
    rw [show unpackedValue (.zero s) + unpackedValue (.zero s') = 0 from add_zero 0]
    rcases s with _ | _ <;> rcases s' with _ | _ <;> exact unpackedRounds_zero _
  case zero.refl.finite.refl =>
    rw [show unpackedValue (.zero s) = 0 from rfl, zero_add]
    exact .self rfl hv'
  case finite.refl.zero.refl =>
    rw [show unpackedValue (.zero s') = 0 from rfl, add_zero]
    exact .self rfl hu'
  case finite.refl.finite.refl =>
    obtain ⟨n, f, heq, hvalue⟩ := add_finite s s' hm hm' e e'
    have h := unpackedRounds_normalize n f .positive
    rw [heq]
    rwa [hvalue] at h

theorem unpackedSub_eq (u v : UnpackedFloat) :
    UnpackedFloat.sub .binary64 u v = UnpackedFloat.add .binary64 u v.neg := by
  rcases u with _ | _ | s | ⟨s, m, e, hm⟩ <;> rcases v with _ | _ | s' | ⟨s', m', e', hm'⟩
  case finite.finite =>
    have hneg : ∀ n : Nat, (-s').apply n = -s'.apply n := fun n => by
      cases s' with
      | negative => exact (Int.neg_neg n).symm
      | positive => rfl
    show UnpackedFloat.normalize _ (_ - _) _ _ = UnpackedFloat.normalize _ (_ + (-s').apply _) _ _
    rw [hneg, Int.sub_eq_add_neg]
  all_goals rfl

theorem unpackedRounds_sub {u v : UnpackedFloat} (hu : u.isFinite = true) (hv : v.isFinite = true)
    (hu' : Canonical u) (hv' : Canonical v) :
    UnpackedRounds (UnpackedFloat.sub .binary64 u v) (unpackedValue u - unpackedValue v) := by
  have hneg : v.neg.isFinite = true ∧ Canonical v.neg ∧ unpackedValue v.neg = -unpackedValue v := by
    rcases v with _ | _ | s' | ⟨_ | _, m', e', hm'⟩ <;> cases hv <;>
      exact ⟨rfl, hv', by simp [UnpackedFloat.neg, unpackedValue, Sign.apply]⟩
  rw [unpackedSub_eq, sub_eq_add_neg, ← hneg.2.2]
  exact unpackedRounds_add hu hneg.1 hu' hneg.2.1

theorem le_target_mul {m m' : Nat} {e e' : Int} (hm : 0 < m) (hm' : 0 < m')
    (h : CanonicalPair m e) (h' : CanonicalPair m' e') : e + e' ≤ target (m * m') (e + e') := by
  have hne : m * m' ≠ 0 := (Nat.mul_pos hm hm').ne'
  have hleast : e = -1074 ∨ 52 ≤ (m * m').log2 := h.2.2.imp_right fun hlead =>
    (Nat.le_log2 hne).mpr (hlead.trans (Nat.le_mul_of_pos_right m hm'))
  have hleast' : e' = -1074 ∨ 52 ≤ (m * m').log2 := h'.2.2.imp_right fun hlead =>
    (Nat.le_log2 hne).mpr (hlead.trans (Nat.le_mul_of_pos_left m' hm))
  unfold target
  omega

theorem value_mul_finite (s s' : Sign) (m m' : Nat) (e e' : Int) :
    ((s * s').apply 1 * (((m * m' : Nat) : ℝ) * 2 ^ (e + e')) : ℝ) =
      s.apply m * 2 ^ e * (s'.apply m' * 2 ^ e') := by
  rw [apply_mul, apply_eq s m, apply_eq s' m', zpow_add₀ two_ne_zero]
  push_cast
  ring

theorem unpackedRounds_mul {u v : UnpackedFloat} (hu : u.isFinite = true) (hv : v.isFinite = true)
    (hu' : Canonical u) (hv' : Canonical v) :
    UnpackedRounds (UnpackedFloat.mul .binary64 u v) (unpackedValue u * unpackedValue v) := by
  rcases u with _ | _ | s | ⟨s, m, e, hm⟩ <;> cases hu <;>
    rcases v with _ | _ | s' | ⟨s', m', e', hm'⟩ <;> cases hv
  case zero.refl.zero.refl =>
    rw [show unpackedValue (.zero s) = 0 from rfl, zero_mul]
    exact unpackedRounds_zero _
  case zero.refl.finite.refl =>
    rw [show unpackedValue (.zero s) = 0 from rfl, zero_mul]
    exact unpackedRounds_zero _
  case finite.refl.zero.refl =>
    rw [show unpackedValue (.zero s') = 0 from rfl, mul_zero]
    exact unpackedRounds_zero _
  case finite.refl.finite.refl =>
    have h := unpackedRounds_roundWithAccuracy (s * s') (truncates_exact (m * m'))
      (Nat.cast_nonneg _) (le_target_mul hm hm' hu' hv')
    rw [value_mul_finite] at h
    exact h

/-- The integer quotient and its remainder are the quotient cut to a whole number. -/
theorem truncates_quotient (n : Nat) {d : Nat} (hd : 0 < d) :
    Truncates (.ofMantissaAndAccuracy (n / d) (accuracyOfFraction (n % d) d)) (n / d : ℝ) := by
  have hd' : (0 : ℝ) < d := Nat.cast_pos.mpr hd
  have hsplit : ((n / d : Nat) : ℝ) * d + (n % d : Nat) = n := by
    exact_mod_cast Nat.div_add_mod' n d
  have hlt : ((n % d : Nat) : ℝ) < d := by exact_mod_cast Nat.mod_lt n hd
  refine ⟨?_, ?_, fun hbits => ?_⟩ <;> rw [mantissa_ofMantissaAndAccuracy]
  · rw [le_div_iff₀ hd']
    have : (0 : ℝ) ≤ (n % d : Nat) := Nat.cast_nonneg _
    linarith
  · rw [div_lt_iff₀ hd']
    linarith
  · have hrem : n % d ≠ 0 := by
      intro h
      simp [accuracyOfFraction, h, ExtendedMantissa.ofMantissaAndAccuracy] at hbits
    have : (0 : ℝ) < (n % d : Nat) := by exact_mod_cast Nat.pos_of_ne_zero hrem
    rw [lt_div_iff₀ hd']
    linarith

/-- The numerator is first made so long that the quotient has its leading bit. -/
theorem exists_div_eq (s s' : Sign) {m m' : Nat} (hm : 0 < m) (hm' : 0 < m') (e e' : Int) :
    ∃ (n : Nat) (t : Int),
      UnpackedFloat.div .binary64 (.finite s m e hm) (.finite s' m' e' hm') =
        roundWithAccuracy .binary64 (s / s') (n / m') t (accuracyOfFraction (n % m') m') ∧
      t ≤ target (n / m') t ∧ (n / m' * 2 ^ t : ℝ) = m * 2 ^ e / (m' * 2 ^ e') := by
  obtain ⟨t, ht⟩ : ∃ t, min (e - e') (Format.binary64.targetExponent
      (totalExponent m e - totalExponent m' e')) = t := ⟨_, rfl⟩
  obtain ⟨k, hk⟩ : ∃ k, (e - e' - t).toNat = k := ⟨_, rfl⟩
  have htarget : Format.binary64.targetExponent (totalExponent m e - totalExponent m' e') =
      max ((m.log2 : Int) + e - m'.log2 - e' - 53) (-1074) := by
    show max ((m.log2 : Int) + 1 + e - (m'.log2 + 1 + e') - (1 + 52 : Nat))
      (3 - 2 ^ (11 - 1) - (1 + 52 : Nat)) = _
    omega
  refine ⟨m <<< k, t, ?_, le_target fun hleast => ?_, ?_⟩
  · unfold UnpackedFloat.div divCore
    simp only [ht, hk]
  · rw [Nat.le_div_iff_mul_le hm']
    calc 2 ^ 52 * m' ≤ 2 ^ 52 * 2 ^ (m'.log2 + 1) := Nat.mul_le_mul_left _ Nat.lt_log2_self.le
      _ = 2 ^ (m'.log2 + 53) := by rw [← Nat.pow_add]; congr 1; omega
      _ ≤ 2 ^ (m.log2 + k) := Nat.pow_le_pow_right two_pos (by omega)
      _ ≤ m <<< k := two_pow_log2_add_le hm k
  · have hkt : (2 : ℝ) ^ k * 2 ^ t = 2 ^ e / 2 ^ e' := by
      rw [← zpow_natCast, ← zpow_add₀ two_ne_zero, ← zpow_sub₀ two_ne_zero]
      congr 1
      omega
    rw [Nat.shiftLeft_eq]
    push_cast
    rw [mul_div_right_comm, mul_assoc (m / m' : ℝ), hkt]
    ring

theorem unpackedRounds_div_finite (s s' : Sign) {m m' : Nat} (hm : 0 < m) (hm' : 0 < m')
    (e e' : Int) :
    UnpackedRounds (UnpackedFloat.div .binary64 (.finite s m e hm) (.finite s' m' e' hm'))
      (s.apply m * 2 ^ e / (s'.apply m' * 2 ^ e')) := by
  obtain ⟨n, t, heq, hfine, hvalue⟩ := exists_div_eq s s' hm hm' e e'
  have h := unpackedRounds_roundWithAccuracy (s / s') (truncates_quotient n hm') (by positivity)
    hfine
  have hsign : ((s / s').apply 1 * (m * 2 ^ e / (m' * 2 ^ e')) : ℝ) =
      s.apply m * 2 ^ e / (s'.apply m' * 2 ^ e') := by
    rw [apply_div, apply_eq s m, apply_eq s' m']
    ring
  rw [heq]
  rwa [hvalue, hsign] at h

theorem unpackedRounds_div {u v : UnpackedFloat} (hu : u.isFinite = true) (hv : v.isFinite = true)
    (hne : unpackedValue v ≠ 0) :
    UnpackedRounds (UnpackedFloat.div .binary64 u v) (unpackedValue u / unpackedValue v) := by
  rcases u with _ | _ | s | ⟨s, m, e, hm⟩ <;> cases hu <;>
    rcases v with _ | _ | s' | ⟨s', m', e', hm'⟩ <;> cases hv
  case zero.refl.finite.refl =>
    rw [show unpackedValue (.zero s) = 0 from rfl, zero_div]
    exact unpackedRounds_zero _
  case finite.refl.finite.refl => exact unpackedRounds_div_finite s s' hm hm' e e'
  all_goals exact absurd rfl hne

/-! ## Infinities -/

theorem lt_infinity {r z : Float} (hr : r.toModel.unpack = .infinity .positive)
    (hz : z.isFinite = true) : z < r := by
  have hlevel : level? r = some (place 2 0 0) := by
    unfold level?
    rw [hr]
    rfl
  obtain ⟨a, ha⟩ := exists_level_of_isFinite hz
  refine lt_iff.mpr ⟨a, _, ha, hlevel, ?_⟩
  revert ha hz
  show z.toModel.unpack.isFinite = true → unpackedLevel? z.toModel.unpack = some a → _
  rcases z.toModel.unpack with (_ | _) | _ | _ | ⟨_ | _, m, e, hm⟩ <;> intro hz ha <;>
    cases hz <;> cases ha <;> exact place_lt_place.mpr (Or.inl (by decide))

theorem infinity_lt {r z : Float} (hr : r.toModel.unpack = .infinity .negative)
    (hz : z.isFinite = true) : r < z := by
  have hlevel : level? r = some (place (-2) 0 0) := by
    unfold level?
    rw [hr]
    rfl
  obtain ⟨a, ha⟩ := exists_level_of_isFinite hz
  refine lt_iff.mpr ⟨_, a, hlevel, ha, ?_⟩
  revert ha hz
  show z.toModel.unpack.isFinite = true → unpackedLevel? z.toModel.unpack = some a → _
  rcases z.toModel.unpack with (_ | _) | _ | _ | ⟨_ | _, m, e, hm⟩ <;> intro hz ha <;>
    cases hz <;> cases ha <;> exact place_lt_place.mpr (Or.inl (by decide))

theorem isFinite_or {r : Float} (h : r.isNaN = false) :
    r.isFinite = true ∨ r.toModel.unpack = .infinity .positive ∨
      r.toModel.unpack = .infinity .negative := by
  revert h
  show r.toModel.unpack.isNaN = false → r.toModel.unpack.isFinite = true ∨ _
  rcases r.toModel.unpack with (_ | _) | _ | _ | _ <;> intro h
  · exact Or.inr (Or.inr rfl)
  · exact Or.inr (Or.inl rfl)
  · cases h
  · exact Or.inl rfl
  · exact Or.inl rfl

theorem isFinite_of_le_of_le {x r y : Float} (hx : x.isFinite = true) (hy : y.isFinite = true)
    (h : x ≤ r) (h' : r ≤ y) : r.isFinite = true := by
  rcases isFinite_or (isNaN_of_le h) with hr | hr | hr
  · exact hr
  · exact absurd h' (not_le_of_lt (lt_infinity hr hy))
  · exact absurd h (not_le_of_lt (infinity_lt hr hx))

/-! ## Rounding -/

/-- The double is the number `v`, rounded: a double that bounds the one bounds the other. -/
structure Rounds (r : Float) (v : ℝ) : Prop where
  number : r.isNaN = false
  le_of_le : ∀ {z : Float}, z.isFinite = true → v ≤ value z → r ≤ z
  ge_of_ge : ∀ {z : Float}, z.isFinite = true → value z ≤ v → z ≤ r

/-- A magnitude with too large an exponent is above those of all doubles. -/
theorem abs_value_lt {m : Nat} {e : Int} (h : CanonicalPair m e) (he : 971 < e) (z : Float) :
    |value z| < m * 2 ^ e := by
  have hm : 0 < m := by
    rcases h.2.2 with hleast | hlead <;> omega
  have hpos := magnitude_pos hm e
  have hcanon := canonical z
  have hfits := fits z
  unfold value
  revert hcanon hfits
  rcases z.toModel.unpack with _ | _ | _ | ⟨s, n, f, hn⟩ <;> intro hcanon hfits
  case finite =>
    have hexp : f ≤ 971 := hfits
    rw [abs_finite]
    exact magnitude_lt hcanon h (Or.inl (by omega))
  all_goals simpa [unpackedValue] using hpos

/-- A result that is too large for a double becomes an infinity, and no double is beyond it. -/
theorem Rounds.pack {u : UnpackedFloat} {v : ℝ} (h : UnpackedRounds u v) :
    Rounds (.ofModel (.pack u)) v := by
  obtain ⟨r, hr⟩ : ∃ r, Float.ofModel (Float.Model.pack u) = r := ⟨_, rfl⟩
  rw [hr]
  by_cases hfits : Fits u
  · have hu : r.toModel.unpack = u := hr ▸ unpack_ofModel_pack_of_fits h.canonical hfits
    have hvalue : value r = unpackedValue u := congrArg unpackedValue hu
    have hfinite : r.isFinite = true := by
      show r.toModel.unpack.isFinite = true
      rw [hu]
      exact h.finite
    refine ⟨isNaN_of_isFinite hfinite, fun hz hle => ?_, fun hz hle => ?_⟩
    · rw [le_iff_value hfinite hz, hvalue]
      exact h.le_of_le _ hz (canonical _) hle
    · rw [le_iff_value hz hfinite, hvalue]
      exact h.ge_of_ge _ hz (canonical _) hle
  · rcases u with _ | _ | s | ⟨s, m, e, hm⟩
    case finite =>
      have he : 971 < e := not_le.mp hfits
      have hu : r.toModel.unpack = .infinity s := by
        rw [← hr, unpack_ofModel_pack, unpack_pack_large h.canonical he]
      have hnumber : r.isNaN = false := by
        show r.toModel.unpack.isNaN = false
        rw [hu]
        rfl
      cases s with
      | positive =>
        refine ⟨hnumber, fun {z} hz hle => ?_, fun hz _ => le_of_lt (lt_infinity hu hz)⟩
        have hcross := h.le_of_le _ hz (canonical z) hle
        have hbound := (abs_lt.mp (abs_value_lt h.canonical he z)).2
        simp only [unpackedValue, Sign.apply, Int.cast_natCast] at hcross
        exact absurd hcross (not_le.mpr hbound)
      | negative =>
        refine ⟨hnumber, fun hz _ => le_of_lt (infinity_lt hu hz), fun {z} hz hle => ?_⟩
        have hcross := h.ge_of_ge _ hz (canonical z) hle
        have hbound := (abs_lt.mp (abs_value_lt h.canonical he z)).1
        simp only [unpackedValue, Sign.apply, Int.cast_neg, Int.cast_natCast, neg_mul] at hcross
        exact absurd hcross (not_le.mpr hbound)
    all_goals exact absurd trivial hfits

theorem Rounds.exact {r z : Float} {v : ℝ} (h : Rounds r v) (hz : z.isFinite = true)
    (hv : value z = v) : r.isFinite = true ∧ value r = v := by
  have hle := h.le_of_le hz hv.ge
  have hge := h.ge_of_ge hz hv.le
  have hr := isFinite_of_le_of_le hz hz hge hle
  rw [le_iff_value hr hz] at hle
  rw [le_iff_value hz hr] at hge
  exact ⟨hr, by rw [← hv]; exact le_antisymm hle hge⟩

/-! ## Powers of two -/

theorem exists_value (s : Sign) {n : Nat} (hn : n < 2 ^ 53) {k : Int} (hk : -1022 ≤ k)
    (hk' : k ≤ 971) : ∃ z : Float, z.isFinite = true ∧ value z = s.apply n * 2 ^ k := by
  rcases Nat.eq_zero_or_pos n with rfl | hpos
  · refine ⟨0.0, rfl, ?_⟩
    cases s <;> simp [Sign.apply] <;> rfl
  have hlog : n.log2 < 53 := (Nat.log2_lt hpos.ne').mpr hn
  obtain ⟨j, hj⟩ : ∃ j, n.log2 + j = 52 := ⟨52 - n.log2, by omega⟩
  have hshift : (n <<< j).log2 = 52 := by rw [log2_shiftLeft hpos, hj]
  have hpos' : 0 < n <<< j := Nat.shiftLeft_pos_iff.mpr hpos
  have hbounds := (Nat.log2_eq_iff hpos'.ne').mp hshift
  have hpack := unpack_ofModel_pack_of_fits (u := .finite s (n <<< j) (k - j) hpos')
    ⟨hbounds.2, by omega, Or.inr hbounds.1⟩ (show k - j ≤ 971 by omega)
  refine ⟨_, congrArg UnpackedFloat.isFinite hpack, (congrArg unpackedValue hpack).trans ?_⟩
  show (s.apply (n <<< j) * 2 ^ (k - j) : ℝ) = _
  rw [apply_eq, apply_eq s n, Nat.shiftLeft_eq, zpow_sub₀ two_ne_zero, zpow_natCast]
  push_cast
  field_simp

section Bounds

variable {r : Float} {v : ℝ} {k : Int} (hk : -1022 ≤ k) (hk' : k ≤ 971)

include hk hk'

theorem Rounds.abs_value_le (h : Rounds r v) (hv : |v| ≤ 2 ^ k) :
    r.isFinite = true ∧ |value r| ≤ 2 ^ k := by
  obtain ⟨hlower, hupper⟩ := abs_le.mp hv
  obtain ⟨y, hy, hyv⟩ := exists_value .positive (n := 1) (by decide) hk hk'
  obtain ⟨x, hx, hxv⟩ := exists_value .negative (n := 1) (by decide) hk hk'
  simp only [Sign.apply, Int.cast_neg, Nat.cast_one, Int.cast_one, neg_mul, one_mul] at hxv hyv
  have hle := h.le_of_le hy (hyv ▸ hupper)
  have hge := h.ge_of_ge hx (hxv ▸ hlower)
  have hr := isFinite_of_le_of_le hx hy hge hle
  rw [le_iff_value hr hy, hyv] at hle
  rw [le_iff_value hx hr, hxv] at hge
  exact ⟨hr, abs_le.mpr ⟨hge, hle⟩⟩

theorem Rounds.le_value (h : Rounds r v) (hr : r.isFinite = true) (hv : 2 ^ k ≤ v) :
    2 ^ k ≤ value r := by
  obtain ⟨x, hx, hxv⟩ := exists_value .positive (n := 1) (by decide) hk hk'
  simp only [Sign.apply, Nat.cast_one, Int.cast_one, one_mul] at hxv
  have hge := h.ge_of_ge hx (hxv ▸ hv)
  rwa [le_iff_value hx hr, hxv] at hge

end Bounds

theorem Rounds.zero_le {r : Float} {v : ℝ} (h : Rounds r v) (hv : 0 ≤ v) : 0.0 ≤ r :=
  h.ge_of_ge (z := 0.0) rfl hv

section Operations

variable {x y : Float} (hx : x.isFinite = true) (hy : y.isFinite = true)

include hx hy

theorem rounds_add : Rounds (x + y) (value x + value y) :=
  .pack (unpackedRounds_add hx hy (canonical x) (canonical y))

theorem rounds_sub : Rounds (x - y) (value x - value y) :=
  .pack (unpackedRounds_sub hx hy (canonical x) (canonical y))

theorem rounds_mul : Rounds (x * y) (value x * value y) :=
  .pack (unpackedRounds_mul hx hy (canonical x) (canonical y))

theorem rounds_div (hne : value y ≠ 0) : Rounds (x / y) (value x / value y) :=
  .pack (unpackedRounds_div hx hy hne)

end Operations

/-! ## Counts and constants -/

theorem value_one : value 1.0 = 1 := by
  have h : (1.0 : Float).toModel.unpack = .finite .positive (2 ^ 52) (-52) (by decide) := rfl
  unfold value
  rw [h]
  norm_num [unpackedValue, Sign.apply]

theorem value_half : value 0.5 = 1 / 2 := by
  have h : (0.5 : Float).toModel.unpack = .finite .positive (2 ^ 52) (-53) (by decide) := rfl
  unfold value
  rw [h]
  norm_num [unpackedValue, Sign.apply]

theorem exists_value_ofNat {n : Nat} (hn : n < 2 ^ 53) :
    ∃ z : Float, z.isFinite = true ∧ value z = n := by
  simpa [Sign.apply] using exists_value .positive hn (show (-1022 : Int) ≤ 0 by omega) (by omega)

theorem ofNat_eq_of_lt {n : Nat} (hn : n < 2 ^ 53) :
    Float.ofNat n = Float.ofModel (.pack (.ofNat .binary64 n)) * 1.0 := by
  unfold Float.ofNat
  show Float.ofScientific n false 0 = _
  unfold Float.ofScientific
  rw [dif_pos ⟨hn, by decide⟩]
  have hn' : n.toUInt64.toNat = n := Nat.mod_eq_of_lt (by omega)
  show Float.ofModel (.pack (.ofNat .binary64 n.toUInt64.toNat)) * 1.0 = _
  rw [hn']

theorem ofNat_eq_of_ge {n : Nat} (hn : ¬n < 2 ^ 53) :
    Float.ofNat n = Float.ofModel (.pack
      (roundWithAccuracy .binary64 .positive (n <<< 53 * 10 ^ 0) (-53 + 0) .exact)) := by
  unfold Float.ofNat
  show Float.ofScientific n false 0 = _
  unfold Float.ofScientific
  rw [dif_neg (fun h => hn h.1)]
  show Float.ofModel (.pack (.ofScientific .binary64 n 0)) = _
  unfold UnpackedFloat.ofScientific
  have hsmall : ¬(0 : Int) < -(2 ^ 11 + n.log2) := by omega
  rw [dif_neg (by omega), if_neg (by decide), if_neg hsmall, if_pos (by decide)]
  rfl

theorem value_pack_ofNat {n : Nat} (hn : n < 2 ^ 53) :
    (Float.ofModel (.pack (.ofNat .binary64 n))).isFinite = true ∧
      value (.ofModel (.pack (.ofNat .binary64 n))) = n := by
  obtain ⟨z, hz, hvalue⟩ := exists_value_ofNat hn
  have h := unpackedRounds_normalize n 0 .positive
  rw [zpow_zero, mul_one, Int.cast_natCast] at h
  exact (Rounds.pack h).exact hz hvalue

/-- A large count is read as a decimal: it is made longer before it is rounded. -/
theorem le_target_ofNat {n : Nat} (hn : ¬n < 2 ^ 53) :
    (-53 + 0 : Int) ≤ target (n <<< 53 * 10 ^ 0) (-53 + 0) := by
  have hlog : (n <<< 53 * 10 ^ 0).log2 = n.log2 + 53 := by
    rw [pow_zero, mul_one, log2_shiftLeft (by omega)]
  unfold target
  omega

theorem value_shifted_ofNat (n : Nat) :
    ((n <<< 53 * 10 ^ 0 : Nat) * 2 ^ (-53 + 0 : Int) : ℝ) = n := by
  rw [Nat.shiftLeft_eq]
  norm_num
  ring

theorem unpackedRounds_ofNat {n : Nat} (hn : ¬n < 2 ^ 53) :
    UnpackedRounds
      (roundWithAccuracy .binary64 .positive (n <<< 53 * 10 ^ 0) (-53 + 0) .exact) n := by
  have h := unpackedRounds_roundWithAccuracy .positive (truncates_exact (n <<< 53 * 10 ^ 0))
    (Nat.cast_nonneg _) (le_target_ofNat hn)
  rwa [value_shifted_ofNat, Sign.apply, Int.cast_one, one_mul] at h

theorem rounds_ofNat (n : Nat) : Rounds (Float.ofNat n) n := by
  by_cases hn : n < 2 ^ 53
  · obtain ⟨hfinite, hexact⟩ := value_pack_ofNat hn
    have hmul := rounds_mul hfinite (y := 1.0) rfl
    rw [hexact, value_one, mul_one] at hmul
    rw [ofNat_eq_of_lt hn]
    exact hmul
  · rw [ofNat_eq_of_ge hn]
    exact .pack (unpackedRounds_ofNat hn)

theorem value_ofNat {n : Nat} (hn : n < 2 ^ 53) :
    (Float.ofNat n).isFinite = true ∧ value (Float.ofNat n) = n :=
  have ⟨_, hz, hvalue⟩ := exists_value_ofNat hn
  (rounds_ofNat n).exact hz hvalue

theorem isFinite_ofNat {n : Nat} (hn : n ≤ 2 ^ 64) : (Float.ofNat n).isFinite = true := by
  have hpos : (0 : ℝ) ≤ n := Nat.cast_nonneg n
  refine ((rounds_ofNat n).abs_value_le (k := 64) (by omega) (by omega) ?_).1
  rw [abs_of_nonneg hpos]
  exact_mod_cast hn

theorem zero_le_ofNat (n : Nat) : 0.0 ≤ Float.ofNat n :=
  (rounds_ofNat n).zero_le (Nat.cast_nonneg n)

theorem zero_lt_ofNat {n : Nat} (hn : 0 < n) : 0.0 < Float.ofNat n := by
  have hone : value 1.0 ≤ (n : ℝ) := by
    rw [value_one]
    exact_mod_cast hn
  exact lt_of_lt_of_le (by decide +kernel) ((rounds_ofNat n).ge_of_ge rfl hone)

theorem value_sub_ofNat {m n : Nat} (hm : m < 2 ^ 53) (h : n ≤ m) :
    (Float.ofNat m - Float.ofNat n).isFinite = true ∧
      value (Float.ofNat m - Float.ofNat n) = (m - n : Nat) := by
  obtain ⟨hm', hvalue⟩ := value_ofNat hm
  obtain ⟨hn', hvalue'⟩ := value_ofNat (show n < 2 ^ 53 by omega)
  obtain ⟨z, hz, hdifference⟩ := exists_value_ofNat (show m - n < 2 ^ 53 by omega)
  have hrounds := rounds_sub hm' hn'
  rw [hvalue, hvalue', ← Nat.cast_sub h] at hrounds
  exact hrounds.exact hz hdifference

theorem div_self_eq_one {x : Float} (hx : x.isFinite = true) (hne : value x ≠ 0) : x / x = 1.0 := by
  have h := rounds_div hx hx hne
  rw [div_self hne] at h
  obtain ⟨hfinite, hvalue⟩ := h.exact (z := 1.0) rfl value_one
  exact eq_of_value_eq hfinite rfl (hvalue.trans value_one.symm) (by rw [hvalue]; exact one_ne_zero)

end PenTouch.Double
