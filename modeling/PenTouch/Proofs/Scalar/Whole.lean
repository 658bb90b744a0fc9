import Mathlib
import PenTouch.Proofs.Scalar.Nonnegative
import PenTouch.Proofs.Scalar.Nearest

/-!
# Whole numbers

The whole units of a double, and the whole numbers next to it. A magnitude below `2 ^ 52` is cut
exactly, and so is what is cut off; from there on every double is a whole number.

1. `toNat_eq`: the whole units are those of the value, up to the largest count.
2. `value_floor`, `value_ceil`: the largest whole number not above a double, and the smallest not
   below it.
3. `value_round`: the whole number closest to a double that is not below zero. Once they are
   rounded, larger doubles have as many units or more (`toNat_round_le`).
-/

namespace PenTouch.Double

open Float.Model UnpackedFloat

/-! ## Whole units -/

theorem roundToInt_eq (s : Sign) (m : ℕ) (e : ℤ) :
    roundToInt s m e = s.apply ⌊(m * 2 ^ e : ℝ)⌋₊ := by
  obtain ⟨k, hk⟩ : ∃ k, (e - 0).toNat = k := ⟨_, rfl⟩
  obtain ⟨j, hj⟩ : ∃ j, (0 - (e - k)).toNat = j := ⟨_, rfl⟩
  have htrunc := (truncates_exact (m <<< k)).shiftRight j
  have hvalue : ((m <<< k : ℕ) / 2 ^ j : ℝ) = m * 2 ^ e := by
    obtain rfl : e = k - j := by omega
    rw [Nat.shiftLeft_eq, zpow_sub₀ two_ne_zero, zpow_natCast, zpow_natCast]
    push_cast
    ring
  rw [hvalue] at htrunc
  rw [(Nat.floor_eq_iff (by positivity)).mpr ⟨htrunc.le, htrunc.lt⟩]
  unfold roundToInt decreaseExponent shiftToExponent
  simp only [hk, hj]

theorem toNat_toInt {u : UnpackedFloat} (hu : u.isFinite = true) (low high : ℤ) :
    (u.toInt low high).toNat = ⌊unpackedValue u⌋₊ := by
  rcases u with _ | _ | s | ⟨_ | _, m, e, hm⟩ <;> cases hu
  case zero => exact (Nat.floor_zero (R := ℝ)).symm
  case finite.negative =>
    have hneg : unpackedValue (.finite .negative m e hm) ≤ 0 := by
      have := magnitude_pos hm e
      simp only [unpackedValue, Sign.apply, Int.cast_neg, Int.cast_natCast]
      linarith
    rw [Nat.floor_of_nonpos hneg]
    show (roundToInt .negative m e).toNat = 0
    rw [roundToInt_eq]
    exact Int.toNat_of_nonpos (by simp only [Sign.apply]; omega)
  case finite.positive =>
    show (roundToInt .positive m e).toNat = _
    rw [roundToInt_eq]
    rfl

def largestCount : ℕ := 2 ^ 64 - 1

theorem toNat_ofNatClamp (n : ℕ) : (UInt64.ofNatClamp n).toNat = min n largestCount := by
  unfold UInt64.ofNatClamp
  split_ifs with h
  · change n < 2 ^ 64 at h
    rw [UInt64.toNat_ofNatLT, min_eq_left (by unfold largestCount; omega)]
  · change ¬n < 2 ^ 64 at h
    rw [UInt64.toNat_ofNatLT, min_eq_right (by unfold largestCount; omega)]
    rfl

theorem toNat_eq {x : Float} (hx : x.isFinite = true) :
    toNat x = min ⌊value x⌋₊ largestCount := by
  show (UInt64.ofNatClamp (x.toModel.unpack.toInt 0 (UInt64.size - 1)).toNat).toNat = _
  rw [toNat_ofNatClamp, toNat_toInt hx]
  rfl

theorem toNat_infinity {x : Float} (hx : x.toModel.unpack = .infinity .positive) :
    toNat x = largestCount := by
  show (UInt64.ofNatClamp (x.toModel.unpack.toInt 0 (UInt64.size - 1)).toNat).toNat = _
  rw [hx]
  rfl

theorem toNat_le (x : Float) : toNat x ≤ largestCount := Nat.le_sub_one_of_lt x.toUInt64.toNat_lt

/-! ## Magnitudes -/

theorem unpack_abs (x : Float) : x.abs.toModel.unpack = x.toModel.unpack.abs := by
  have hcanon := canonical x
  have hfits := fits x
  show (Float.ofModel (.pack x.toModel.unpack.abs)).toModel.unpack = _
  apply unpack_ofModel_pack_of_fits
  · revert hcanon
    cases x.toModel.unpack <;> exact id
  · revert hfits
    cases x.toModel.unpack <;> exact id

theorem value_abs (x : Float) : value x.abs = |value x| := by
  unfold value
  rw [unpack_abs]
  rcases x.toModel.unpack with _ | _ | _ | ⟨s, m, e, hm⟩
  case finite =>
    rw [abs_finite]
    simp [UnpackedFloat.abs, unpackedValue, Sign.apply]
  all_goals exact abs_zero.symm

theorem isFinite_abs (x : Float) : x.abs.isFinite = x.isFinite := by
  show x.abs.toModel.unpack.isFinite = x.toModel.unpack.isFinite
  rw [unpack_abs]
  cases x.toModel.unpack <;> rfl

theorem value_wholeFrom : wholeFrom.isFinite = true ∧ value wholeFrom = 2 ^ 52 := by
  have h : wholeFrom.toModel.unpack = .finite .positive (2 ^ 52) 0 (by decide) := rfl
  refine ⟨rfl, ?_⟩
  unfold value
  rw [h]
  norm_num [unpackedValue, Sign.apply]

theorem abs_lt_wholeFrom {x : Float} (hx : x.isFinite = true) :
    x.abs < wholeFrom ↔ |value x| < 2 ^ 52 := by
  rw [lt_iff_value ((isFinite_abs x).trans hx) value_wholeFrom.1, value_abs, value_wholeFrom.2]

theorem not_abs_infinity_lt {x : Float} {s : Sign} (hx : x.toModel.unpack = .infinity s) :
    ¬x.abs < wholeFrom := by
  have hinf : x.abs.toModel.unpack = .infinity .positive := by
    rw [unpack_abs, hx]
    rfl
  exact fun hlt => not_le_of_lt hlt (le_of_lt (lt_infinity hinf value_wholeFrom.1))

theorem value_cut {x : Float} (hx : x.isFinite = true) (h : 0 ≤ value x)
    (hlt : value x < 2 ^ 52) :
    (cut x).isFinite = true ∧ value (cut x) = ⌊value x⌋₊ := by
  have hfloor : ⌊value x⌋₊ < 2 ^ 52 := (Nat.floor_lt h).mpr (by exact_mod_cast hlt)
  have hunits : toNat x = ⌊value x⌋₊ := by
    rw [toNat_eq hx]
    exact min_eq_left (by unfold largestCount; omega)
  have hcut : cut x = .ofModel (.pack (.ofNat .binary64 (toNat x))) := rfl
  rw [hcut, hunits]
  exact value_pack_ofNat (by omega)

theorem value_cut_add_one {x : Float} (hx : x.isFinite = true) (h : 0 ≤ value x)
    (hlt : value x < 2 ^ 52) :
    (cut x + 1.0).isFinite = true ∧ value (cut x + 1.0) = ⌊value x⌋₊ + 1 := by
  obtain ⟨hfinite, hvalue⟩ := value_cut hx h hlt
  have hfloor : ⌊value x⌋₊ < 2 ^ 52 := (Nat.floor_lt h).mpr (by exact_mod_cast hlt)
  obtain ⟨z, hz, hsum⟩ := exists_value_ofNat (show ⌊value x⌋₊ + 1 < 2 ^ 53 by omega)
  have hrounds := rounds_add hfinite (y := 1.0) rfl
  rw [hvalue, value_one] at hrounds
  exact hrounds.exact hz (by rw [hsum]; push_cast; rfl)

theorem exists_int {x : Float} (hx : x.isFinite = true) (h : 2 ^ 52 ≤ |value x|) :
    ∃ n : ℤ, value x = n := by
  obtain ⟨m, e, hcanon, hvalue⟩ := exists_magnitude hx (canonical x)
  change value x = _ ∨ value x = _ at hvalue
  have habs : |value x| = m * 2 ^ e := by
    rcases hvalue with hvalue | hvalue <;> rw [hvalue]
    · exact abs_of_nonneg (by positivity)
    · rw [abs_neg, abs_of_nonneg (by positivity)]
  -- The units of so large a magnitude are whole.
  have he : 0 ≤ e := by
    by_contra hneg
    have hm : (m : ℝ) < 2 ^ 53 := by exact_mod_cast hcanon.1
    have hlt : (m * 2 ^ e : ℝ) < 2 ^ 53 * 2 ^ (-1 : ℤ) :=
      mul_lt_mul hm (zpow_le_zpow_right₀ one_le_two (by omega)) (by positivity) (by positivity)
    norm_num at hlt
    linarith
  obtain ⟨k, rfl⟩ : ∃ k : ℕ, e = k := ⟨e.toNat, by omega⟩
  rcases hvalue with hvalue | hvalue
  · exact ⟨m * 2 ^ k, by rw [hvalue]; push_cast; rfl⟩
  · exact ⟨-(m * 2 ^ k), by rw [hvalue]; push_cast; rfl⟩

/-! ## Floor and ceiling -/

theorem value_floor {x : Float} (hx : x.isFinite = true) :
    (floor x).isFinite = true ∧ value (floor x) = ⌊value x⌋ := by
  have hx' : x.abs.isFinite = true := (isFinite_abs x).trans hx
  unfold floor
  split_ifs with hsmall hneg hcut hpos <;> rw [abs_lt_wholeFrom hx] at hsmall
  · -- Below zero the units are those of the magnitude, and one more for a remainder.
    rw [lt_iff_value hx rfl, value_zero] at hneg
    have habs : value x.abs = -value x := by rw [value_abs, abs_of_neg hneg]
    rw [abs_of_neg hneg, ← habs] at hsmall
    obtain ⟨hfinite, hvalue⟩ := value_cut_add_one hx' (by linarith) hsmall
    obtain ⟨hunits, hlower⟩ := value_cut hx' (by linarith) hsmall
    rw [lt_iff_value hunits hx', hlower, habs] at hcut
    have hupper := Nat.lt_floor_add_one (-value x)
    have hfloor : ⌊value x⌋ = -((⌊-value x⌋₊ : ℤ) + 1) :=
      Int.floor_eq_iff.mpr ⟨by push_cast; linarith, by push_cast; linarith⟩
    refine ⟨(isFinite_neg _).trans hfinite, ?_⟩
    rw [value_neg, hvalue, hfloor, habs]
    push_cast
    rfl
  · rw [lt_iff_value hx rfl, value_zero] at hneg
    have habs : value x.abs = -value x := by rw [value_abs, abs_of_neg hneg]
    rw [abs_of_neg hneg, ← habs] at hsmall
    obtain ⟨hfinite, hvalue⟩ := value_cut hx' (by linarith) hsmall
    rw [lt_iff_value hfinite hx', hvalue, habs] at hcut
    have hwhole : (⌊-value x⌋₊ : ℝ) = -value x :=
      le_antisymm (Nat.floor_le (by linarith)) (not_lt.mp hcut)
    have hfloor : ⌊value x⌋ = -(⌊-value x⌋₊ : ℤ) :=
      Int.floor_eq_iff.mpr ⟨by push_cast; linarith, by push_cast; linarith⟩
    refine ⟨(isFinite_neg _).trans hfinite, ?_⟩
    rw [value_neg, hvalue, hfloor, habs]
    push_cast
    rfl
  · rw [lt_iff_value hx rfl, value_zero, not_lt] at hneg
    rw [abs_of_nonneg hneg] at hsmall
    obtain ⟨hfinite, hvalue⟩ := value_cut hx hneg hsmall
    refine ⟨hfinite, ?_⟩
    rw [hvalue]
    exact_mod_cast Int.natCast_floor_eq_floor hneg
  · -- What is neither below nor above zero is a zero.
    rw [lt_iff_value hx rfl, value_zero, not_lt] at hneg
    rw [lt_iff_value rfl hx, value_zero, not_lt] at hpos
    rw [le_antisymm hpos hneg, Int.floor_zero, Int.cast_zero]
    exact ⟨hx, rfl⟩
  · obtain ⟨n, hn⟩ := exists_int hx (not_lt.mp hsmall)
    rw [hn, Int.floor_intCast]
    exact ⟨hx, rfl⟩

theorem value_ceil {x : Float} (hx : x.isFinite = true) :
    (ceil x).isFinite = true ∧ value (ceil x) = ⌈value x⌉ := by
  obtain ⟨hfinite, hvalue⟩ := value_floor ((isFinite_neg x).trans hx)
  refine ⟨(isFinite_neg _).trans hfinite, ?_⟩
  rw [ceil, value_neg, hvalue, value_neg, Int.floor_neg, Int.cast_neg, neg_neg]

theorem floor_le {x : Float} (hx : x.isFinite = true) : floor x ≤ x := by
  obtain ⟨hfinite, hvalue⟩ := value_floor hx
  rw [le_iff_value hfinite hx, hvalue]
  exact Int.floor_le _

theorem le_ceil {x : Float} (hx : x.isFinite = true) : x ≤ ceil x := by
  obtain ⟨hfinite, hvalue⟩ := value_ceil hx
  rw [le_iff_value hx hfinite, hvalue]
  exact Int.le_ceil _

theorem ceil_infinity {x : Float} (hx : x.toModel.unpack = .infinity .positive) :
    (ceil x).toModel.unpack = .infinity .positive := by
  have hneg : (-x).toModel.unpack = .infinity .negative := by
    rw [unpack_neg, hx]
    rfl
  rw [ceil, floor, if_neg (not_abs_infinity_lt hneg), unpack_neg, hneg]
  rfl

/-! ## Closest whole numbers -/

/-- What is left of a double without its units is a double. -/
theorem exists_fraction {x : Float} (hx : x.isFinite = true) :
    ∃ z : Float, z.isFinite = true ∧ value z = value x - ⌊value x⌋₊ := by
  rcases lt_or_ge (value x) 1 with hlt | hge
  · refine ⟨x, hx, ?_⟩
    rw [Nat.floor_eq_zero.mpr hlt, Nat.cast_zero, sub_zero]
  obtain ⟨m, e, hcanon, hvalue⟩ := exists_magnitude hx (canonical x)
  change value x = _ ∨ value x = _ at hvalue
  have hpos : (0 : ℝ) ≤ m * 2 ^ e := by positivity
  replace hvalue : value x = m * 2 ^ e := hvalue.resolve_right fun hneg => by linarith
  rcases lt_or_ge e 0 with hneg | hwhole
  · -- The fraction has the last bits of the mantissa, in the same units.
    obtain ⟨k, rfl⟩ : ∃ k : ℕ, e = -k := ⟨(-e).toNat, by omega⟩
    have hquotient : value x = m / (2 ^ k : ℕ) := by
      rw [hvalue, zpow_neg, zpow_natCast]
      push_cast
      rfl
    have hk : k < 53 := by
      rw [hquotient, le_div_iff₀ (by positivity), one_mul] at hge
      have hle : 2 ^ k ≤ m := by exact_mod_cast hge
      exact (Nat.pow_lt_pow_iff_right one_lt_two).mp (hle.trans_lt hcanon.1)
    obtain ⟨z, hz, hfraction⟩ := exists_value .positive (n := m % 2 ^ k) (k := -k)
      ((Nat.mod_le _ _).trans_lt hcanon.1) (by omega) (by omega)
    refine ⟨z, hz, ?_⟩
    have hsplit : ((m / 2 ^ k : ℕ) : ℝ) * (2 ^ k : ℕ) + (m % 2 ^ k : ℕ) = m := by
      exact_mod_cast Nat.div_add_mod' m (2 ^ k)
    rw [hfraction, hquotient, Nat.floor_div_eq_div, eq_sub_iff_add_eq,
      eq_div_iff (by positivity), zpow_neg, zpow_natCast]
    simp only [Sign.apply, Int.cast_natCast]
    rw [← hsplit]
    push_cast
    field_simp
    ring
  · obtain ⟨k, rfl⟩ : ∃ k : ℕ, e = k := ⟨e.toNat, by omega⟩
    have hnat : value x = (m * 2 ^ k : ℕ) := by
      rw [hvalue]
      push_cast
      rfl
    refine ⟨0.0, rfl, ?_⟩
    rw [hnat, Nat.floor_natCast, sub_self, value_zero]

theorem value_round {x : Float} (hx : x.isFinite = true) (h : 0 ≤ value x) :
    (round x).isFinite = true ∧ value (round x) = ⌊value x + 1 / 2⌋₊ := by
  have hx' : x.abs.isFinite = true := (isFinite_abs x).trans hx
  have habs : value x.abs = value x := by rw [value_abs, abs_of_nonneg h]
  unfold round
  dsimp only
  rw [if_neg (show ¬x < 0.0 by rwa [lt_iff_value hx rfl, value_zero, not_lt])]
  by_cases hsmall : x.abs < wholeFrom
  · rw [if_pos hsmall]
    rw [lt_iff_value hx' value_wholeFrom.1, value_wholeFrom.2] at hsmall
    obtain ⟨hcut, hvalue⟩ := value_cut hx' (habs ▸ h) hsmall
    obtain ⟨hnext, hvalue'⟩ := value_cut_add_one hx' (habs ▸ h) hsmall
    obtain ⟨z, hz, hfraction⟩ := exists_fraction hx'
    have hrounds := rounds_sub hx' hcut
    rw [hvalue] at hrounds
    obtain ⟨hrest, hvalue''⟩ := hrounds.exact hz hfraction
    rw [habs] at hvalue hvalue' hvalue''
    have hlower := Nat.floor_le h
    have hupper := Nat.lt_floor_add_one (value x)
    split_ifs with hpos hnear
    · rw [lt_iff_value hrest rfl, hvalue'', value_half] at hnear
      have hfloor : ⌊value x + 1 / 2⌋₊ = ⌊value x⌋₊ :=
        (Nat.floor_eq_iff (by linarith)).mpr ⟨by linarith, by linarith⟩
      exact ⟨hcut, by rw [hvalue, hfloor]⟩
    · rw [lt_iff_value hrest rfl, hvalue'', value_half] at hnear
      have hfloor : ⌊value x + 1 / 2⌋₊ = ⌊value x⌋₊ + 1 :=
        (Nat.floor_eq_iff (by linarith)).mpr ⟨by push_cast; linarith, by push_cast; linarith⟩
      exact ⟨hnext, by rw [hvalue', hfloor]; push_cast; rfl⟩
    · rw [lt_iff_value rfl hx, value_zero, not_lt] at hpos
      rw [le_antisymm hpos h, zero_add, Nat.floor_eq_zero.mpr (by norm_num), Nat.cast_zero]
      exact ⟨hx, rfl⟩
  · rw [if_neg hsmall]
    rw [abs_lt_wholeFrom hx] at hsmall
    obtain ⟨n, hn⟩ := exists_int hx (not_lt.mp hsmall)
    lift n to ℕ using (by rw [hn] at h; exact_mod_cast h)
    have hfloor : ⌊value x + 1 / 2⌋₊ = n :=
      (Nat.floor_eq_iff (by linarith)).mpr ⟨by rw [hn]; norm_num, by rw [hn]; norm_num⟩
    exact ⟨hx, by rw [hfloor, hn, Int.cast_natCast]⟩

theorem round_infinity {x : Float} (hx : x.toModel.unpack = .infinity .positive) :
    round x = x := if_neg (not_abs_infinity_lt hx)

theorem toNat_round {x : Float} (hx : x.isFinite = true) (h : 0 ≤ value x) :
    toNat (round x) = min ⌊value x + 1 / 2⌋₊ largestCount := by
  obtain ⟨hfinite, hvalue⟩ := value_round hx h
  rw [toNat_eq hfinite, hvalue, Nat.floor_natCast]

theorem toNat_round_le {x y : Float} (hx : 0.0 ≤ x) (hxy : x ≤ y) :
    toNat (round x) ≤ toNat (round y) := by
  rcases isFinite_or_infinity (le_trans hx hxy) with hy | hy
  · have hx' := isFinite_of_le_of_le rfl hy hx hxy
    rw [zero_le_iff_value hx'] at hx
    rw [le_iff_value hx' hy] at hxy
    rw [toNat_round hx' hx, toNat_round hy (hx.trans hxy)]
    exact min_le_min_right _ (Nat.floor_le_floor (by linarith))
  · rw [round_infinity hy, toNat_infinity hy]
    exact toNat_le _

end PenTouch.Double
