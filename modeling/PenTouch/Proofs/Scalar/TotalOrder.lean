import Mathlib
import PenTouch.Proofs.Scalar.Length

/-!
# The total order of the doubles

`rank` puts the doubles into one line by their bits. On numbers this line agrees with the
comparisons, so what is last in the total order is not below any number (`rank_lt_rank`).
-/

namespace PenTouch.Double

open Float.Model UnpackedFloat

/-! ## Bits -/

def unpackedSign : UnpackedFloat → Sign
  | .infinity s | .zero s | .finite s _ _ _ => s
  | .notANumber => .positive

/-- The bits below the sign. -/
def unpackedBits : UnpackedFloat → Int
  | .infinity _ => 2047 * 2 ^ 52
  | .zero _ | .notANumber => 0
  | .finite _ m e _ => (e + 1074) * 2 ^ 52 + m

def bitOfSign : Sign → Int
  | .positive => 0
  | .negative => 2 ^ 63

/-- The place of the number with the given sign and bits below it. -/
def signedRank : Sign → Int → Int
  | .positive, n => n
  | .negative, n => -n - 1

theorem toNat_unpackSign (b : BitVec Format.binary64.numBits) :
    (@unpackSign .binary64 b).toNat = b.toNat / 2 ^ 63 := by
  have hb : b.toNat < 2 ^ 64 := b.isLt
  simp [unpackSign, BitVec.extractLsb_toNat, Nat.shiftRight_eq_div_pow]
  omega

theorem bitOfSign_ofBitVec (v : BitVec 1) : bitOfSign (.ofBitVec v) = v.toNat * 2 ^ 63 := by
  revert v; decide

/-- The bits of a number are those of its sign and those below it. -/
theorem toNat_eq_unpackedBits {b : BitVec Format.binary64.numBits}
    (hb : (unpack .binary64 b).isNaN = false) :
    (b.toNat : Int) =
      bitOfSign (unpackedSign (unpack .binary64 b)) + unpackedBits (unpack .binary64 b) := by
  have hlt : b.toNat < 2 ^ 64 := b.isLt
  have hmant := toNat_unpackMantissa b
  have hexp := toNat_unpackExponent b
  have hsign : bitOfSign (.ofBitVec (unpackSign b)) = (b.toNat / 2 ^ 63 : Nat) * 2 ^ 63 := by
    rw [bitOfSign_ofBitVec, toNat_unpackSign]
  revert hb
  fun_cases unpack .binary64 b with
  | case1 mvec evec svec s hinf hzero =>
    intro _
    rw [show unpackMantissa b = 0#52 from hzero] at hmant
    rw [show unpackExponent b = -1#11 from hinf] at hexp
    have hm : b.toNat % 2 ^ 52 = 0 := hmant.symm
    have he : b.toNat / 2 ^ 52 % 2 ^ 11 = 2047 := hexp.symm
    show (b.toNat : Int) = bitOfSign (.ofBitVec (unpackSign b)) + 2047 * 2 ^ 52
    omega
  | case2 => exact nofun
  | case3 mvec evec svec s hinf hsub hzero =>
    intro _
    rw [show unpackMantissa b = 0#52 from hzero] at hmant
    rw [show unpackExponent b = 0#11 from hsub] at hexp
    have hm : b.toNat % 2 ^ 52 = 0 := hmant.symm
    have he : b.toNat / 2 ^ 52 % 2 ^ 11 = 0 := hexp.symm
    show (b.toNat : Int) = bitOfSign (.ofBitVec (unpackSign b)) + 0
    omega
  | case4 mvec evec e svec s hinf hsub hmvec =>
    intro _
    rw [show unpackExponent b = 0#11 from hsub] at hexp
    have he : b.toNat / 2 ^ 52 % 2 ^ 11 = 0 := hexp.symm
    show (b.toNat : Int) = bitOfSign (.ofBitVec (unpackSign b)) +
      (((unpackExponent b).toNat - (1023 + 52 : Nat) + 1 + 1074) * 2 ^ 52 +
        (unpackMantissa b).toNat)
    rw [hmant, show unpackExponent b = 0#11 from hsub]
    omega
  | case5 mvec evec e svec s hinf hsub =>
    intro _
    show (b.toNat : Int) = bitOfSign (.ofBitVec (unpackSign b)) +
      (((unpackExponent b).toNat - (1023 + 52 : Nat) + 1074) * 2 ^ 52 +
        (1#1 ++ unpackMantissa b).toNat)
    rw [toNat_one_append, hmant, hexp]
    omega

/-! ## The line -/

theorem unpackedBits_mem {u : UnpackedFloat} (hcanon : Canonical u) (hfits : Fits u) :
    0 ≤ unpackedBits u ∧ unpackedBits u < 2 ^ 63 := by
  cases u <;> simp only [Canonical, Fits, CanonicalPair, unpackedBits] at * <;> omega

theorem rank_eq {x : Float} (hx : x.isNaN = false) :
    rank x = signedRank (unpackedSign x.toModel.unpack) (unpackedBits x.toModel.unpack) := by
  have hbits : (x.toBits.toNat : Int) = _ := toNat_eq_unpackedBits (b := x.toBits.toBitVec) hx
  have hmem : 0 ≤ unpackedBits x.toModel.unpack ∧ unpackedBits x.toModel.unpack < 2 ^ 63 :=
    unpackedBits_mem (canonical x) (fits x)
  change _ = bitOfSign (unpackedSign x.toModel.unpack) + unpackedBits x.toModel.unpack at hbits
  have hbit : signBit = 2 ^ 63 := rfl
  unfold rank
  dsimp only
  rw [hbit]
  split
  · rename_i hlt
    cases hs : unpackedSign x.toModel.unpack <;> rw [hs] at hbits <;>
      simp only [bitOfSign, signedRank] at hbits ⊢ <;> omega
  · rename_i hlt
    cases hs : unpackedSign x.toModel.unpack <;> rw [hs] at hbits <;>
      simp only [bitOfSign, signedRank] at hbits ⊢ <;> omega

/-- **The total order.** It agrees with the comparisons of numbers. -/
theorem rank_lt_rank {x y : Float} (h : x < y) : rank x < rank y := by
  obtain ⟨a, b, ha, hb, hab⟩ := lt_iff.mp h
  have hx : x.isNaN = false := by
    rw [← Bool.not_eq_true, ← level?_eq_none, ha]
    exact Option.some_ne_none a
  have hy : y.isNaN = false := isNaN_of_le (le_of_lt h)
  rw [rank_eq hx, rank_eq hy]
  have hxc := canonical x
  have hxf := fits x
  have hyc := canonical y
  have hyf := fits y
  unfold level? at ha hb
  revert ha hb hxc hxf hyc hyf
  generalize x.toModel.unpack = u
  generalize y.toModel.unpack = v
  intro ha hb hxc hxf hyc hyf
  rcases u with (_ | _) | _ | (_ | _) | ⟨_ | _, m, e, hm⟩ <;> cases ha <;>
    rcases v with (_ | _) | _ | (_ | _) | ⟨_ | _, m', e', hm'⟩ <;> cases hb <;>
    simp only [place_lt_place, unpackedSign, unpackedBits, signedRank, Canonical, Fits,
      CanonicalPair] at hab hxc hxf hyc hyf ⊢ <;> omega

end PenTouch.Double
