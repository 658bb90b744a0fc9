import Mathlib
import PenTouch.Measure
import PenTouch.Proofs.Scalar.TotalOrder
import PenTouch.Proofs.Scalar.Whole

/-!
# Distributions

A distribution is read off a sorted list. No two measures share a place in their line, so the sorted
list does not depend on the order of the measures (`ofMeasures?_perm`). The rank of a percentile is
computed with doubles, and it is in the list however long that is (`nearestRank_lt`); so the outer
percentiles are measures of the list, in their order (`exists_ofMeasures?`).
-/

namespace PenTouch

/-! ## The line of measures -/

namespace Double

theorem rank_injective : Function.Injective rank := by
  intro x y h
  have hx := x.toBits.toNat_lt
  have hy := y.toBits.toNat_lt
  unfold rank signBit at h
  dsimp only at h
  have hbits : x.toBits.toNat = y.toBits.toNat := by
    split at h <;> split at h <;> omega
  exact Float.toBits_inj.mp (UInt64.toNat_inj.mp hbits)

theorem unpackedBits_le {u : Float.Model.UnpackedFloat} (hcanon : Canonical u) (hfits : Fits u) :
    unpackedBits u ≤ 2047 * 2 ^ 52 := by
  cases u <;> simp only [Canonical, Fits, CanonicalPair, unpackedBits] at * <;> omega

/-- The place before the negative infinity is that of no double. -/
theorem neg_signBit_lt_rank (x : Float) : -(signBit : ℤ) < rank x := by
  have hbit : signBit = 2 ^ 63 := rfl
  cases hx : x.isNaN with
  | true =>
    obtain rfl : x = nan := eq_of_unpack_eq ((isNaN_iff.mp hx).trans (isNaN_iff.mp rfl).symm)
    decide +kernel
  | false =>
    have hle := unpackedBits_le (canonical x) (fits x)
    have hmem := unpackedBits_mem (canonical x) (fits x)
    rw [rank_eq hx, hbit]
    cases unpackedSign x.toModel.unpack <;> simp only [signedRank] <;> omega

end Double

namespace Measure

theorem rank_injective : Function.Injective rank := by
  rintro (_ | x) (_ | y) h
  · rfl
  · exact absurd h (Double.neg_signBit_lt_rank y).ne
  · exact absurd h (Double.neg_signBit_lt_rank x).ne'
  · rw [Double.rank_injective h]

theorem le_antisymm {a b : Measure} (hab : a.le b = true) (hba : b.le a = true) : a = b :=
  rank_injective (Int.le_antisymm (of_decide_eq_true hab) (of_decide_eq_true hba))

end Measure

/-! ## Percentiles -/

namespace Statistics

open Double Float.Model UnpackedFloat

/-- The place of a percentile in a sorted list of a length. -/
def nearestRank (length : ℕ) (p : Float) : ℕ :=
  toNat (round ((length - 1).toFloat * Scalar.clamp p 0.0 1.0))

theorem percentile?_eq {β : Type} {sorted : List β} (h : sorted ≠ []) (p : Float) :
    percentile? sorted p = sorted[nearestRank sorted.length p]? :=
  if_neg (by simpa using h)

section NearestRank

variable {p q : Float}

/-- A share of a count, and a larger share of it. -/
theorem ofNat_mul_le (n : ℕ) (hp : 0.0 < p) (hpq : p ≤ q) (hq : q ≤ 1.0) :
    0.0 ≤ Float.ofNat n * p ∧ Float.ofNat n * p ≤ Float.ofNat n * q := by
  have hp' := isFinite_of_le_of_le rfl rfl (le_of_lt hp) (le_trans hpq hq)
  have hq' := isFinite_of_le_of_le hp' rfl hpq hq
  have hq'' := lt_of_lt_of_le hp hpq
  rcases isFinite_or_infinity (zero_le_ofNat n) with hn | hn
  · have hge := zero_le_mul hn hp' (zero_le_ofNat n) (le_of_lt hp)
    rw [le_iff_value hp' hq'] at hpq
    rw [le_iff_value hq' rfl, value_one] at hq
    have hpos := (zero_le_iff_value hn).mp (zero_le_ofNat n)
    have hmul := mul_le_mul_of_nonneg_left hpq hpos
    have hle := mul_le_of_le_one_right hpos hq
    have hqle := (rounds_mul hn hq').le_of_le hn hle
    have hple := (rounds_mul hn hp').le_of_le hn (hmul.trans hle)
    refine ⟨hge, (roundsNearest_mul hn hp').mono (roundsNearest_mul hn hq') ?_ ?_ hmul⟩
    · exact isFinite_of_le_of_le rfl hn hge hple
    · exact isFinite_of_le_of_le rfl hn (zero_le_mul hn hq' (zero_le_ofNat n) (le_of_lt hq'')) hqle
  · have hp'' := zero_le_infinity (infinity_mul hn hp' hp)
    exact ⟨hp'', le_infinity hp'' (infinity_mul hn hq' hq'')⟩

theorem nearestRank_mono (n : ℕ) (hp : 0.0 < p) (hpq : p ≤ q) (hq : q ≤ 1.0) :
    nearestRank n p ≤ nearestRank n q := by
  unfold nearestRank
  rw [clamp_eq (le_of_lt hp) (le_trans hpq hq), clamp_eq (le_trans (le_of_lt hp) hpq) hq]
  obtain ⟨hpos, hle⟩ := ofNat_mul_le (n - 1) hp hpq hq
  exact toNat_round_le hpos hle

/-- A percentile up to the 99th is a share, and leaves at least one part in 128. -/
theorem share_bounds (hp : 0.0 < p) (hp' : p ≤ 0.99) :
    p.isFinite = true ∧ 0 < value p ∧ value p ≤ 1 - 1 / 128 := by
  have hfinite := isFinite_of_le_of_le rfl rfl (le_of_lt hp) hp'
  have h : (0.99 : Float).toModel.unpack =
    .finite .positive 8917127262193582 (-53) (by decide) := rfl
  have hvalue : value 0.99 ≤ 1 - 1 / 128 := by
    unfold value
    rw [h]
    norm_num [unpackedValue, Sign.apply]
  rw [zero_lt_iff_value hfinite] at hp
  rw [le_iff_value hfinite rfl] at hp'
  exact ⟨hfinite, hp, hp'.trans hvalue⟩

/-- Between a share of a count, which may have been rounded up, and the count itself is a double. -/
theorem exists_between {n : ℕ} (hn : n < 2 ^ 64) {c : ℝ} (hc : 0 ≤ c) (hc' : c ≤ 1 - 1 / 128) :
    ∃ z : Float, z.isFinite = true ∧ value (Float.ofNat n) * c ≤ value z ∧ value z ≤ n := by
  rcases lt_or_ge n (2 ^ 53) with hlt | hge
  · obtain ⟨hfinite, hvalue⟩ := value_ofNat hlt
    refine ⟨Float.ofNat n, hfinite, mul_le_of_le_one_right ?_ (by linarith), hvalue.le⟩
    rw [hvalue]
    exact Nat.cast_nonneg n
  · -- In units of `2 ^ 12` there are so many that one of them more or less does not matter.
    obtain ⟨j, hj⟩ : ∃ j, n / 2 ^ 12 = j := ⟨_, rfl⟩
    obtain ⟨z, hz, hlow⟩ := exists_value .positive (n := j) (k := 12) (by omega) (by omega)
      (by omega)
    obtain ⟨w, hw, hhigh⟩ := exists_value .positive (n := j + 1) (k := 12) (by omega) (by omega)
      (by omega)
    simp only [Sign.apply, Int.cast_natCast] at hlow hhigh
    have hbelow : (j * 2 ^ 12 : ℝ) ≤ n := by exact_mod_cast (by omega : j * 2 ^ 12 ≤ n)
    have habove : (n : ℝ) ≤ (j + 1) * 2 ^ 12 := by
      exact_mod_cast (by omega : n ≤ (j + 1) * 2 ^ 12)
    have hmany : (127 : ℝ) ≤ j := by exact_mod_cast (by omega : 127 ≤ j)
    have hround : Float.ofNat n ≤ w := (rounds_ofNat n).le_of_le hw (by
      rw [hhigh]
      push_cast
      exact habove)
    rw [le_iff_value (isFinite_ofNat hn.le) hw, hhigh] at hround
    refine ⟨z, hz, ?_, hlow ▸ hbelow⟩
    calc value (Float.ofNat n) * c ≤ ((j + 1 : ℕ) * 2 ^ 12) * (1 - 1 / 128) :=
          mul_le_mul hround hc' hc (by positivity)
      _ ≤ value z := by
        rw [hlow]
        push_cast
        linarith

theorem nearestRank_lt {n : ℕ} (hn : 0 < n) (hp : 0.0 < p) (hp' : p ≤ 0.99) :
    nearestRank n p < n := by
  obtain ⟨hfinite, hpos, hle⟩ := share_bounds hp hp'
  unfold nearestRank
  rw [clamp_eq (le_of_lt hp) (le_trans hp' (by decide +kernel))]
  rcases lt_or_ge (n - 1) (2 ^ 64) with hlt | hge
  · have hpos' := zero_le_ofNat (n - 1)
    have hcount := isFinite_ofNat hlt.le
    obtain ⟨z, hz, hshare, hbound⟩ := exists_between hlt hpos.le hle
    have hshare' := (rounds_mul hcount hfinite).le_of_le hz hshare
    have hge := zero_le_mul hcount hfinite hpos' (le_of_lt hp)
    have hproduct := isFinite_of_le_of_le rfl hz hge hshare'
    rw [zero_le_iff_value hproduct] at hge
    rw [le_iff_value hproduct hz] at hshare'
    have hfloor : ⌊value (Float.ofNat (n - 1) * p) + 1 / 2⌋₊ < n := by
      rw [Nat.floor_lt (by linarith)]
      have hsucc : ((n - 1 : ℕ) : ℝ) + 1 = n := by exact_mod_cast Nat.sub_add_cancel hn
      linarith
    exact (toNat_round hproduct hge).trans_lt ((min_le_left _ _).trans_lt hfloor)
  · have := toNat_le (round ((n - 1).toFloat * p))
    unfold largestCount at this
    omega

end NearestRank

end Statistics

/-! ## Distributions of measures -/

namespace Distribution

open Statistics

theorem ofMeasures?_nil : ofMeasures? [] = none := by
  unfold ofMeasures?
  rw [List.mergeSort_nil]
  rfl

theorem pairwise_mergeSort (l : List Measure) :
    (l.mergeSort Measure.le).Pairwise fun a b => a.le b = true :=
  @List.pairwise_mergeSort _ Measure.le (fun _ _ _ => Measure.le_trans) Measure.le_total l

theorem mergeSort_eq {l l' : List Measure} (h : l.Perm l') :
    l.mergeSort Measure.le = l'.mergeSort Measure.le :=
  ((l.mergeSort_perm Measure.le).trans (h.trans (l'.mergeSort_perm Measure.le).symm)).eq_of_pairwise
    (fun _ _ _ _ => Measure.le_antisymm) (pairwise_mergeSort l) (pairwise_mergeSort l')

/-- **Order.** The distribution depends on how often each measure occurs, and on nothing else. -/
theorem ofMeasures?_perm {l l' : List Measure} (h : l.Perm l') :
    ofMeasures? l = ofMeasures? l' := by
  unfold ofMeasures?
  rw [mergeSort_eq h]

/-- The percentiles are measures of the list, in their order. -/
structure Within (d : Distribution) (l : List Measure) : Prop where
  low_mem : d.low ∈ l
  high_mem : d.high ∈ l
  ordered : d.low.le d.high = true

/-- **Range.** There is a distribution of measures, and its percentiles are among them. -/
theorem exists_ofMeasures? {l : List Measure} (hne : l ≠ []) :
    ∃ d, ofMeasures? l = some d ∧ d.Within l := by
  have hpairwise := pairwise_mergeSort l
  have hperm := l.mergeSort_perm Measure.le
  unfold ofMeasures?
  generalize l.mergeSort Measure.le = sorted at hpairwise hperm ⊢
  have hne' : sorted ≠ [] := fun h => hne (List.nil_perm.mp (h ▸ hperm))
  have hpos : 0 < sorted.length := List.length_pos_of_ne_nil hne'
  have hlow := nearestRank_lt (p := 0.01) hpos (by decide +kernel) (by decide +kernel)
  have hhigh := nearestRank_lt (p := 0.99) hpos (by decide +kernel) (by decide +kernel)
  have hranks := nearestRank_mono (p := 0.01) (q := 0.99) sorted.length (by decide +kernel)
    (by decide +kernel) (by decide +kernel)
  dsimp only
  rw [percentile?_eq hne', percentile?_eq hne', List.getElem?_eq_getElem hlow,
    List.getElem?_eq_getElem hhigh]
  refine ⟨_, rfl, hperm.mem_iff.mp (List.getElem_mem hlow),
    hperm.mem_iff.mp (List.getElem_mem hhigh), ?_⟩
  rcases hranks.lt_or_eq with hlt | heq
  · exact List.pairwise_iff_getElem.mp hpairwise _ _ hlow hhigh hlt
  · simp only [heq]
    exact decide_eq_true le_rfl

end Distribution

end PenTouch
