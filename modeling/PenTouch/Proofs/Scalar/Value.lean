import Mathlib
import PenTouch.Proofs.Scalar.Order

/-!
# The values of the doubles

A finite double stands for `± m · 2 ^ e`. Its mantissa has the leading bit unless the exponent is
the least one (`CanonicalPair`), so of two magnitudes the one with the larger exponent is the larger
one, and the places of finite doubles are in the order of their values.

1. `canonical_unpack`, `unpack_pack`: doubles unpack to canonical forms, and canonical forms survive
   packing unless they are too large for a double.
2. `magnitude_lt`: canonical magnitudes compare by exponent and then by mantissa.
3. `le_iff_value`, `eq_of_value_eq`: finite doubles compare by their values, and apart from the two
   zeros they are told by them.
-/

namespace PenTouch.Double

open Float.Model UnpackedFloat

/-! ## Canonical forms -/

/-- A mantissa that fits and has its leading bit, unless the exponent is the least one. -/
def CanonicalPair (m : Nat) (e : Int) : Prop :=
  m < 2 ^ 53 ∧ -1074 ≤ e ∧ (e = -1074 ∨ 2 ^ 52 ≤ m)

/-- The form that comparisons expect. Its exponent may be too large for a double. -/
def Canonical : UnpackedFloat → Prop
  | .finite _ m e _ => CanonicalPair m e
  | _ => True

/-- The exponent is not too large for a double. -/
def Fits : UnpackedFloat → Prop
  | .finite _ _ e _ => e ≤ 971
  | _ => True

theorem toNat_one_append (m : BitVec 52) : (1#1 ++ m).toNat = 2 ^ 52 + m.toNat := by
  rw [BitVec.toNat_append, ← Nat.shiftLeft_add_eq_or_of_lt m.isLt]
  rfl

theorem canonical_unpack (b : BitVec Format.binary64.numBits) :
    Canonical (unpack .binary64 b) ∧ Fits (unpack .binary64 b) := by
  have hmant : (@unpackMantissa .binary64 b).toNat < 2 ^ 52 := BitVec.isLt _
  have hexp : (@unpackExponent .binary64 b).toNat < 2 ^ 11 := BitVec.isLt _
  fun_cases unpack .binary64 b with
  | case1 => exact ⟨trivial, trivial⟩
  | case2 => exact ⟨trivial, trivial⟩
  | case3 => exact ⟨trivial, trivial⟩
  | case4 mvec evec e svec s hinf hsub hmvec =>
    have he : e = -1075 := by
      show ((unpackExponent b).toNat : Int) - (1023 + 52 : Nat) = _
      rw [show unpackExponent b = 0#11 from hsub]
      rfl
    simp only [Canonical, Fits, CanonicalPair, he]
    omega
  | case5 mvec evec e svec s hinf hsub =>
    have hpos : (@unpackExponent .binary64 b).toNat ≠ 0 := fun h =>
      hsub (BitVec.eq_of_toNat_eq h)
    have hmax : (@unpackExponent .binary64 b).toNat ≠ 2047 := fun h =>
      hinf (BitVec.eq_of_toNat_eq h)
    have hm : (1#1 ++ mvec).toNat = 2 ^ 52 + (@unpackMantissa .binary64 b).toNat :=
      toNat_one_append _
    show CanonicalPair (1#1 ++ mvec).toNat
      ((@unpackExponent .binary64 b).toNat - (1023 + 52)) ∧
        ((@unpackExponent .binary64 b).toNat - (1023 + 52) : Int) ≤ 971
    rw [hm]
    unfold CanonicalPair
    omega

theorem canonical (x : Float) : Canonical x.toModel.unpack := (canonical_unpack _).1

theorem fits (x : Float) : Fits x.toModel.unpack := (canonical_unpack _).2

/-! ## Packing -/

theorem unpack_normal (s : Sign) {x : BitVec 11} (hzero : x ≠ 0#11) (hinf : x ≠ -1#11)
    (y : BitVec 52) :
    unpack .binary64 (packComponents .binary64 s x y) =
      .finite s (1#1 ++ y).toNat (x.toNat - 1075) (by rw [toNat_one_append]; omega) := by
  unfold UnpackedFloat.unpack
  simp only [unpackExponent_packComponents, unpackMantissa_packComponents,
    unpackSign_packComponents, Sign.ofBitVec_toBitVec]
  rw [if_neg hinf, if_neg hzero]
  rfl

theorem unpack_subnormal (s : Sign) {y : BitVec 52} (hy : 0 < y.toNat) :
    unpack .binary64 (packComponents .binary64 s 0#11 y) = .finite s y.toNat (-1074) hy := by
  have hzero : y ≠ 0#52 := by
    rintro rfl
    exact absurd hy (by decide)
  unfold UnpackedFloat.unpack
  simp only [unpackExponent_packComponents, unpackMantissa_packComponents,
    unpackSign_packComponents, Sign.ofBitVec_toBitVec]
  rw [if_neg (by decide), if_pos trivial, dif_neg hzero]
  rfl

theorem finite_congr {s : Sign} {m m' : Nat} {e e' : Int} {hm : 0 < m} {hm' : 0 < m'}
    (h : m = m') (he : e = e') :
    UnpackedFloat.finite s m e hm = .finite s m' e' hm' := by
  subst h he
  rfl

theorem pack_finite {s : Sign} {m : Nat} {e : Int} {hm : 0 < m} (h : CanonicalPair m e) :
    UnpackedFloat.pack .binary64 (.finite s m e hm) =
      if 971 < e then packedInfinity .binary64 s
      else if 2 ^ 52 ≤ m then
        packComponents .binary64 s (BitVec.ofNat 11 (e + 1075).toNat) (BitVec.ofNat 52 m)
      else packComponents .binary64 s 0#11 (BitVec.ofNat 52 m) := by
  obtain ⟨hlt, hmin, -⟩ := h
  have hbiased : (e + (Format.binary64.exponentBias : Int) + (52 : Nat)).toNat =
      (e + 1075).toNat := by
    show (e + (1023 : Nat) + (52 : Nat)).toNat = _
    omega
  have hlarge : 2 ^ 11 ≤ (e + 1075).toNat + 1 ↔ 971 < e := by omega
  have hlead : m.log2 + 1 = Format.mantissaBits .binary64 ↔ 2 ^ 52 ≤ m := by
    show m.log2 + 1 = 53 ↔ _
    rw [← Nat.le_log2 (by omega)]
    have := (Nat.log2_lt (by omega)).mpr hlt
    omega
  unfold UnpackedFloat.pack
  simp only [hbiased, hlarge, hlead]

theorem unpack_pack {s : Sign} {m : Nat} {e : Int} {hm : 0 < m} (h : CanonicalPair m e)
    (he : e ≤ 971) :
    unpack .binary64 (UnpackedFloat.pack .binary64 (.finite s m e hm)) = .finite s m e hm := by
  rw [pack_finite h, if_neg (by omega)]
  obtain ⟨hlt, hmin, hlead⟩ := h
  split_ifs with hnormal
  · have hx : (BitVec.ofNat 11 (e + 1075).toNat).toNat = (e + 1075).toNat := by
      rw [BitVec.toNat_ofNat, Nat.mod_eq_of_lt (by omega)]
    have hy : (1#1 ++ BitVec.ofNat 52 m).toNat = m := by
      rw [toNat_one_append, BitVec.toNat_ofNat]
      omega
    rw [unpack_normal]
    · exact finite_congr hy (by omega)
    · exact fun h => absurd (congrArg BitVec.toNat h) (by rw [hx]; simp; omega)
    · exact fun h => absurd (congrArg BitVec.toNat h) (by rw [hx]; simp; omega)
  · have hy : (BitVec.ofNat 52 m).toNat = m := by
      rw [BitVec.toNat_ofNat, Nat.mod_eq_of_lt (by omega)]
    rw [unpack_subnormal s (by omega)]
    exact finite_congr hy (by omega)

theorem unpack_pack_large {s : Sign} {m : Nat} {e : Int} {hm : 0 < m} (h : CanonicalPair m e)
    (he : 971 < e) :
    unpack .binary64 (UnpackedFloat.pack .binary64 (.finite s m e hm)) = .infinity s := by
  rw [pack_finite h, if_pos he]
  cases s <;> rfl

theorem unpack_ofModel_pack (u : UnpackedFloat) :
    (Float.ofModel (Float.Model.pack u)).toModel.unpack =
      unpack .binary64 (UnpackedFloat.pack .binary64 u) := rfl

theorem unpack_ofModel_pack_of_fits {u : UnpackedFloat} (hcanon : Canonical u) (hfits : Fits u) :
    (Float.ofModel (Float.Model.pack u)).toModel.unpack = u := by
  rw [unpack_ofModel_pack]
  rcases u with s | _ | s | ⟨s, m, e, hm⟩
  case infinity => cases s <;> rfl
  case notANumber => rfl
  case zero => cases s <;> rfl
  case finite => exact unpack_pack hcanon hfits

theorem eq_of_unpack_eq {x y : Float} (h : x.toModel.unpack = y.toModel.unpack) : x = y := by
  have hbits := (unpack_inj_of_valid x.toModel.valid y.toModel.valid).mp h
  exact Float.toBits_inj.mp (UInt64.toBitVec_inj.mp hbits)

/-! ## Values -/

theorem magnitude_pos {m : Nat} (hm : 0 < m) (e : Int) : (0 : ℝ) < m * 2 ^ e :=
  mul_pos (Nat.cast_pos.mpr hm) (zpow_pos two_pos e)

/-- The number that a finite unpacked double stands for. -/
noncomputable def unpackedValue : UnpackedFloat → ℝ
  | .finite s m e _ => s.apply m * 2 ^ e
  | _ => 0

theorem abs_finite (s : Sign) (m : Nat) (e : Int) (hm : 0 < m) :
    |unpackedValue (.finite s m e hm)| = m * 2 ^ e := by
  have := magnitude_pos hm e
  cases s <;> simp [unpackedValue, Sign.apply, abs_of_pos this]

/-- The number that a finite double stands for. -/
noncomputable def value (x : Float) : ℝ := unpackedValue x.toModel.unpack

theorem value_zero : value 0.0 = 0 := rfl

theorem unpack_neg (x : Float) : (-x).toModel.unpack = x.toModel.unpack.neg := by
  have hcanon := canonical x
  have hfits := fits x
  show (Float.ofModel (.pack x.toModel.unpack.neg)).toModel.unpack = _
  apply unpack_ofModel_pack_of_fits
  · revert hcanon
    cases x.toModel.unpack <;> exact id
  · revert hfits
    cases x.toModel.unpack <;> exact id

theorem value_neg (x : Float) : value (-x) = -value x := by
  unfold value
  rw [unpack_neg]
  rcases x.toModel.unpack with _ | _ | _ | ⟨_ | _, m, e, hm⟩ <;>
    simp [UnpackedFloat.neg, unpackedValue, Sign.apply]

theorem isFinite_neg (x : Float) : (-x).isFinite = x.isFinite := by
  show (-x).toModel.unpack.isFinite = x.toModel.unpack.isFinite
  rw [unpack_neg]
  cases x.toModel.unpack <;> rfl

theorem magnitude_lt {m m' : Nat} {e e' : Int} (h : CanonicalPair m e) (h' : CanonicalPair m' e')
    (hlt : e < e' ∨ e = e' ∧ m < m') : (m * 2 ^ e : ℝ) < m' * 2 ^ e' := by
  rcases hlt with hlt | ⟨rfl, hlt⟩
  · have hm : (m : ℝ) < 2 ^ 53 := by exact_mod_cast h.1
    have hm' : (2 ^ 52 : ℝ) ≤ m' := by
      have : 2 ^ 52 ≤ m' := h'.2.2.resolve_left (by have := h.2.1; omega)
      exact_mod_cast this
    calc (m * 2 ^ e : ℝ) < 2 ^ 53 * 2 ^ e := by gcongr
      _ = 2 ^ 52 * 2 ^ (e + 1) := by rw [zpow_add₀ two_ne_zero]; ring
      _ ≤ m' * 2 ^ e' := mul_le_mul hm' (zpow_le_zpow_right₀ one_le_two (by omega))
          (by positivity) (by positivity)
  · have : (m : ℝ) < m' := by exact_mod_cast hlt
    gcongr

/-- No canonical magnitude lies strictly between the two numbers. -/
def NoneBetween (v w : ℝ) : Prop :=
  ∀ n f, CanonicalPair n f →
    (v ≤ n * 2 ^ f → w ≤ n * 2 ^ f) ∧ ((n * 2 ^ f : ℝ) ≤ v → (n * 2 ^ f : ℝ) ≤ w)

theorem place_lt_place {s e m s' e' m' : Int} :
    place s e m < place s' e' m' ↔ s < s' ∨ s = s' ∧ (e < e' ∨ e = e' ∧ m < m') := by
  simp only [place, Prod.Lex.toLex_lt_toLex]

theorem unpackedValue_lt {u v : UnpackedFloat} (hu : Canonical u) (hv : Canonical v)
    (hu' : u.isFinite = true) (hv' : v.isFinite = true) {a b : Line}
    (ha : unpackedLevel? u = some a) (hb : unpackedLevel? v = some b) (h : a < b) :
    unpackedValue u < unpackedValue v := by
  rcases u with _ | _ | _ | ⟨_ | _, m, e, hm⟩ <;> cases hu' <;> cases ha <;>
    rcases v with _ | _ | _ | ⟨_ | _, m', e', hm'⟩ <;> cases hv' <;> cases hb <;>
    simp only [place_lt_place, unpackedValue, Sign.apply, Int.cast_neg, Int.cast_natCast,
      neg_mul] at h ⊢
  case finite.negative.refl.refl.finite.negative.refl.refl =>
    exact neg_lt_neg (magnitude_lt hv hu (by omega))
  case finite.positive.refl.refl.finite.positive.refl.refl =>
    exact magnitude_lt hu hv (by omega)
  case finite.negative.refl.refl.zero.refl.refl =>
    exact neg_neg_of_pos (magnitude_pos hm e)
  case finite.negative.refl.refl.finite.positive.refl.refl =>
    exact (neg_neg_of_pos (magnitude_pos hm e)).trans (magnitude_pos hm' e')
  case zero.refl.refl.finite.positive.refl.refl => exact magnitude_pos hm' e'
  -- In the other cases the places are in the opposite order.
  all_goals omega

/-- The number that stands at a place, apart from the infinities. -/
noncomputable def lineValue (a : Line) : ℝ :=
  if (ofLex a).1 = 1 then (ofLex (ofLex a).2).2 * 2 ^ (ofLex (ofLex a).2).1
  else if (ofLex a).1 = -1 then (ofLex (ofLex a).2).2 * 2 ^ (-(ofLex (ofLex a).2).1)
  else 0

theorem lineValue_of_level {u : UnpackedFloat} {a : Line} (h : unpackedLevel? u = some a) :
    unpackedValue u = lineValue a := by
  rcases u with (_ | _) | _ | _ | ⟨_ | _, m, e, hm⟩ <;> cases h <;>
    simp [unpackedValue, lineValue, place, Sign.apply]

/-! ## Finite doubles -/

section Finite

variable {x y : Float} (hx : x.isFinite = true) (hy : y.isFinite = true)

include hx

theorem isNaN_of_isFinite : x.isNaN = false := by
  revert hx
  show x.toModel.unpack.isFinite = true → x.toModel.unpack.isNaN = false
  rcases x.toModel.unpack with _ | _ | _ | _ <;> intro hx <;> first | rfl | cases hx

theorem isInf_of_isFinite : x.isInf = false := by
  revert hx
  show x.toModel.unpack.isFinite = true → x.toModel.unpack.isInf = false
  rcases x.toModel.unpack with _ | _ | _ | _ <;> intro hx <;> first | rfl | cases hx

theorem exists_level_of_isFinite : ∃ a, level? x = some a := exists_level (isNaN_of_isFinite hx)

include hy

/-- **Values.** Finite doubles compare as the numbers do that they stand for. -/
theorem le_iff_value : x ≤ y ↔ value x ≤ value y := by
  obtain ⟨a, ha⟩ := exists_level_of_isFinite hx
  obtain ⟨b, hb⟩ := exists_level_of_isFinite hy
  have hle : x ≤ y ↔ a ≤ b := by simp [le_iff, ha, hb]
  have hlt := unpackedValue_lt (canonical x) (canonical y) hx hy ha hb
  have hgt := unpackedValue_lt (canonical y) (canonical x) hy hx hb ha
  rw [hle]
  rcases lt_trichotomy a b with h | rfl | h
  · exact iff_of_true h.le (hlt h).le
  · refine iff_of_true le_rfl (le_of_eq ?_)
    exact (lineValue_of_level ha).trans (lineValue_of_level hb).symm
  · exact iff_of_false (not_le.mpr h) (not_le.mpr (hgt h))

theorem lt_iff_value : x < y ↔ value x < value y := by
  rw [← not_le, ← le_iff_value hy hx]
  refine ⟨not_le_of_lt, fun h => ?_⟩
  exact (lt_or_le (isNaN_of_isFinite hx) (isNaN_of_isFinite hy)).resolve_right h

theorem beq_iff_value : (x == y) = true ↔ value x = value y := by
  rw [beq_iff_le, le_iff_value hx hy, le_iff_value hy hx, ← le_antisymm_iff]

/-- Apart from the two zeros, no two finite doubles stand for the same number. -/
theorem eq_of_value_eq (h : value x = value y) (hne : value x ≠ 0) : x = y := by
  obtain ⟨a, ha⟩ := exists_level_of_isFinite hx
  obtain ⟨b, hb⟩ := exists_level_of_isFinite hy
  have hab : a = b := by
    rcases lt_trichotomy a b with hlt | rfl | hlt
    · exact absurd h (unpackedValue_lt (canonical x) (canonical y) hx hy ha hb hlt).ne
    · rfl
    · exact absurd h (unpackedValue_lt (canonical y) (canonical x) hy hx hb ha hlt).ne'
  apply eq_of_unpack_eq
  subst hab
  revert hne ha hb
  show unpackedValue x.toModel.unpack ≠ 0 → unpackedLevel? x.toModel.unpack = some a →
    unpackedLevel? y.toModel.unpack = some a → _
  rcases x.toModel.unpack with _ | _ | _ | ⟨_ | _, m, e, hm⟩ <;> intro hne ha <;>
    first | exact absurd rfl hne | cases ha
  all_goals
    rcases y.toModel.unpack with (_ | _) | _ | _ | ⟨_ | _, m', e', hm'⟩ <;> intro hb <;>
      simp only [unpackedLevel?, place, Option.some.injEq, reduceCtorEq, toLex_inj,
        Prod.mk.injEq] at hb <;>
      first | exact finite_congr (by omega) (by omega) | omega

end Finite

end PenTouch.Double
