import Mathlib
import PenTouch.Proofs.Scalar.Nonnegative

/-!
# The length of a vector

`hypot` works on the binary forms of its arguments: it adds the squares exactly, in units that both
share, and rounds once, in the root.

1. `abs_value_eq`: the binary form of a double is its magnitude.
2. `unpackedRounds_sqrt`: the integer root and its remainder are the root cut to a whole number,
   with enough bits to round it.
3. `rounds_hypot`: so the length is rounded like the result of the other operations.
-/

namespace PenTouch.Double

open Float.Model UnpackedFloat

/-! ## Binary forms -/

theorem toNat_unpackMantissa (b : BitVec Format.binary64.numBits) :
    (@unpackMantissa .binary64 b).toNat = b.toNat % 2 ^ 52 := by
  simp [unpackMantissa, BitVec.extractLsb_toNat]

theorem toNat_unpackExponent (b : BitVec Format.binary64.numBits) :
    (@unpackExponent .binary64 b).toNat = b.toNat / 2 ^ 52 % 2 ^ 11 := by
  simp [unpackExponent, BitVec.extractLsb_toNat, Nat.shiftRight_eq_div_pow]

theorem abs_unpackedValue_unpack {b : BitVec Format.binary64.numBits}
    (hb : (unpack .binary64 b).isFinite = true) :
    |unpackedValue (unpack .binary64 b)| =
      (if b.toNat / 2 ^ 52 % 2 ^ 11 = 0 then b.toNat % 2 ^ 52
        else 2 ^ 52 + b.toNat % 2 ^ 52 : Nat) *
        2 ^ ((max (b.toNat / 2 ^ 52 % 2 ^ 11) 1 : Nat) - 1075 : Int) := by
  have hmant := toNat_unpackMantissa b
  have hexp := toNat_unpackExponent b
  revert hb
  fun_cases unpack .binary64 b with
  | case1 => exact nofun
  | case2 => exact nofun
  | case3 mvec evec svec s hinf hsub hzero =>
    intro _
    have hm : b.toNat % 2 ^ 52 = 0 := by
      rw [← hmant, show unpackMantissa b = 0#52 from hzero]
      rfl
    have he : b.toNat / 2 ^ 52 % 2 ^ 11 = 0 := by
      rw [← hexp, show unpackExponent b = 0#11 from hsub]
      rfl
    rw [he, hm]
    simp [unpackedValue]
  | case4 mvec evec e svec s hinf hsub hmvec =>
    intro _
    have he : b.toNat / 2 ^ 52 % 2 ^ 11 = 0 := by
      rw [← hexp, show unpackExponent b = 0#11 from hsub]
      rfl
    have he' : e + 1 = -1074 := by
      show ((unpackExponent b).toNat : Int) - (1023 + 52 : Nat) + 1 = _
      rw [hexp, he]
      rfl
    rw [abs_finite, he', he, ← hmant]
    rfl
  | case5 mvec evec e svec s hinf hsub =>
    intro _
    have hpos : b.toNat / 2 ^ 52 % 2 ^ 11 ≠ 0 := fun h =>
      hsub (BitVec.eq_of_toNat_eq (hexp.trans h))
    have hm : (1#1 ++ mvec).toNat = 2 ^ 52 + b.toNat % 2 ^ 52 := by
      rw [← hmant]
      exact toNat_one_append _
    have he : e = (max (b.toNat / 2 ^ 52 % 2 ^ 11) 1 : Nat) - 1075 := by
      show ((unpackExponent b).toNat : Int) - (1023 + 52 : Nat) = _
      rw [hexp]
      omega
    rw [abs_finite, hm, he, if_neg hpos]

theorem abs_value_eq {x : Float} (hx : x.isFinite = true) :
    |value x| = (binary x).mantissa * 2 ^ (binary x).exponent :=
  abs_unpackedValue_unpack (b := x.toBits.toBitVec) hx

/-! ## Roots -/

theorem truncates_sqrt (n : Nat) :
    let rem := n - n.sqrt * n.sqrt
    Truncates (.ofMantissaAndAccuracy n.sqrt
      (if rem = 0 then .exact else .inexact (if rem ≤ n.sqrt then .lt else .gt))) (√n) := by
  intro rem
  have hsq : n.sqrt * n.sqrt ≤ n := n.sqrt_le
  have hlt : n < (n.sqrt + 1) * (n.sqrt + 1) := n.lt_succ_sqrt
  refine ⟨?_, ?_, fun hbits => ?_⟩ <;> rw [mantissa_ofMantissaAndAccuracy]
  · exact Real.le_sqrt_of_sq_le (by exact_mod_cast (sq n.sqrt).trans_le hsq)
  · rw [Real.sqrt_lt' (by positivity)]
    exact_mod_cast hlt.trans_eq (sq _).symm
  · have hrem : rem ≠ 0 := by
      intro h
      simp [h, ExtendedMantissa.ofMantissaAndAccuracy] at hbits
    apply Real.lt_sqrt_of_sq_lt
    rw [sq]
    exact_mod_cast (show n.sqrt * n.sqrt < n by omega)

theorem unpackedRounds_sqrt {m : Nat} (hm : 0 < m) (e : Int) :
    UnpackedRounds (UnpackedFloat.sqrt .binary64 (.finite .positive m e hm)) (√(m * 2 ^ e)) := by
  obtain ⟨t, ht⟩ : ∃ t, min (e.ediv 2) (Format.binary64.targetExponent
      ((totalExponent m e + 1).ediv 2)) = t := ⟨_, rfl⟩
  obtain ⟨k, hk⟩ : ∃ k, (e - 2 * t).toNat = k := ⟨_, rfl⟩
  have htarget : Format.binary64.targetExponent ((totalExponent m e + 1).ediv 2) =
      max (((m.log2 : Int) + 2 + e) / 2 - 53) (-1074) := by
    show max (((m.log2 : Int) + 1 + e + 1) / 2 - (1 + 52 : Nat))
      (3 - 2 ^ (11 - 1) - (1 + 52 : Nat)) = _
    omega
  have ht' : min (e / 2) (Format.binary64.targetExponent
      ((totalExponent m e + 1).ediv 2)) = t := ht
  rw [htarget] at ht'
  -- The radicand has been made so long that the root has its leading bit.
  have hfine : t ≤ target (m <<< k).sqrt t := le_target fun hleast => by
    rw [Nat.le_sqrt]
    calc 2 ^ 52 * 2 ^ 52 = 2 ^ 104 := by rw [← Nat.pow_add]
      _ ≤ 2 ^ (m.log2 + k) := Nat.pow_le_pow_right two_pos (by omega)
      _ ≤ m <<< k := two_pow_log2_add_le hm k
  have h := unpackedRounds_roundWithAccuracy .positive (truncates_sqrt (m <<< k))
    (Real.sqrt_nonneg _) hfine
  have hvalue : (Sign.positive.apply 1 * (√(m <<< k : Nat) * 2 ^ t) : ℝ) = √(m * 2 ^ e) := by
    have hpos : (0 : ℝ) < 2 ^ t := zpow_pos two_pos t
    have hsplit : (m * 2 ^ e : ℝ) = (m <<< k : Nat) * (2 ^ t * 2 ^ t) := by
      rw [Nat.shiftLeft_eq, ← zpow_add₀ two_ne_zero]
      push_cast
      rw [mul_assoc, ← zpow_natCast, ← zpow_add₀ two_ne_zero]
      congr 2
      omega
    rw [hsplit, Real.sqrt_mul (Nat.cast_nonneg _), Real.sqrt_mul_self hpos.le]
    simp [Sign.apply]
  rw [hvalue] at h
  unfold UnpackedFloat.sqrt sqrtCore
  simp only [ht, hk]
  exact h

theorem rounds_sqrtBinary (m : Nat) (e : Int) : Rounds (sqrtBinary m e) (√(m * 2 ^ e)) := by
  unfold sqrtBinary
  split_ifs with hm
  · exact .pack (unpackedRounds_sqrt hm e)
  · rw [show m = 0 by omega, Nat.cast_zero, zero_mul, Real.sqrt_zero]
    exact .pack (unpackedRounds_zero .positive)

/-! ## Lengths -/

theorem squareIn_eq {x : Float} (hx : x.isFinite = true) {unit : Int}
    (hunit : unit ≤ (binary x).exponent) :
    ((binary x).squareIn unit : ℝ) * 2 ^ (2 * unit) = value x ^ 2 := by
  obtain ⟨k, hk⟩ : ∃ k : Nat, (binary x).exponent = k + unit :=
    ⟨((binary x).exponent - unit).toNat, by omega⟩
  rw [← sq_abs, abs_value_eq hx, hk]
  unfold Binary.squareIn
  simp only [hk, show ((k : Int) + unit - unit).toNat = k by omega, Nat.shiftLeft_eq]
  rw [zpow_add₀ two_ne_zero, zpow_natCast, two_mul, zpow_add₀ two_ne_zero]
  push_cast
  ring

theorem rounds_hypot {x y : Float} (hx : x.isFinite = true) (hy : y.isFinite = true) :
    Rounds (hypot x y) (√(value x ^ 2 + value y ^ 2)) := by
  have h := rounds_sqrtBinary
    ((binary x).squareIn (min (binary x).exponent (binary y).exponent) +
      (binary y).squareIn (min (binary x).exponent (binary y).exponent))
    (2 * min (binary x).exponent (binary y).exponent)
  rw [Nat.cast_add, add_mul, squareIn_eq hx (min_le_left _ _),
    squareIn_eq hy (min_le_right _ _)] at h
  unfold hypot
  rw [isInf_of_isFinite hx, isInf_of_isFinite hy, isNaN_of_isFinite hx, isNaN_of_isFinite hy]
  exact h

end PenTouch.Double
