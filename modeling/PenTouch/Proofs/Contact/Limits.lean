import Mathlib
import PenTouch.Proofs.Contact.Recording

/-!
# Suggested limits

The limits of the sizes are the observed ones, rounded outwards to whole millimetres, so they admit
them. The limit of the aspect ratio is rounded up to tenths, by a product and a quotient that are
each rounded to a double. If the product is rounded down to a whole number, rounding up leaves it
there, and the limit may be below the observed ratio (`not_le_ceil_tenths_iff`). But then it is the
next double below it (`le_ceil_tenths_of_lt`).
-/

namespace PenTouch

namespace Double

open Float.Model UnpackedFloat

/-! ## Next below -/

/-- The distance to the next magnitude below is a unit of the last bit, or half of one where the
exponent changes. -/
theorem magnitude_add_le {n m : ℕ} {f e : ℤ} (hn : CanonicalPair n f) (hm : CanonicalPair m e)
    (h : (n * 2 ^ f : ℝ) < m * 2 ^ e) :
    (n * 2 ^ f + 2 ^ e : ℝ) ≤ m * 2 ^ e ∨
      m = 2 ^ 52 ∧ (n * 2 ^ f + 2 ^ e / 2 : ℝ) ≤ m * 2 ^ e := by
  have hpos : (0 : ℝ) < 2 ^ e := zpow_pos two_pos e
  rcases le_or_gt e f with hef | hfe
  · -- Both are whole numbers of units.
    obtain ⟨k, rfl⟩ : ∃ k : ℕ, f = k + e := ⟨(f - e).toNat, by omega⟩
    have hwhole : (n * 2 ^ (k + e : ℤ) : ℝ) = ((n * 2 ^ k : ℕ) : ℝ) * 2 ^ e := by
      rw [zpow_add₀ two_ne_zero, zpow_natCast]
      push_cast
      ring
    rw [hwhole, mul_lt_mul_iff_left₀ hpos] at h
    have hsucc : ((n * 2 ^ k : ℕ) : ℝ) + 1 ≤ m := by exact_mod_cast h
    left
    rw [hwhole]
    nlinarith
  · -- Below the exponent there is at most a mantissa with all bits set.
    have hbelow : (n * 2 ^ f + 2 ^ e / 2 : ℝ) ≤ 2 ^ 52 * 2 ^ e := by
      have hn' : (n : ℝ) + 1 ≤ 2 ^ 53 := by exact_mod_cast hn.1
      have hstep : (2 : ℝ) ^ f ≤ 2 ^ (e - 1) := zpow_le_zpow_right₀ one_le_two (by omega)
      have hhalf : (2 : ℝ) ^ (e - 1) = 2 ^ e / 2 := by rw [zpow_sub₀ two_ne_zero, zpow_one]
      have hn'' : (0 : ℝ) ≤ n := Nat.cast_nonneg n
      nlinarith
    have hlead : 2 ^ 52 ≤ m := hm.2.2.resolve_left (by have := hn.2.1; omega)
    rcases hlead.eq_or_lt with rfl | hlt
    · right
      exact ⟨rfl, by exact_mod_cast hbelow⟩
    · left
      have hsucc : (2 : ℝ) ^ 52 + 1 ≤ m := by exact_mod_cast hlt
      nlinarith

/-- A product by ten is not rounded down below ten times a smaller double. -/
theorem ten_mul_le_of_lt {x z p : Float} (hx : x.isFinite = true) (hz : z.isFinite = true)
    (hpos : 0 ≤ value z) (hlt : value z < value x) (hp : p.isFinite = true)
    (hround : RoundsNearest p (value x * 10)) : value z * 10 ≤ value p := by
  obtain ⟨n, f, hn, hvalue⟩ := exists_magnitude hz (canonical z)
  obtain ⟨m, e, hm, hvalue'⟩ := exists_magnitude hx (canonical x)
  change value z = _ ∨ value z = _ at hvalue
  change value x = _ ∨ value x = _ at hvalue'
  have hn' : (0 : ℝ) ≤ n * 2 ^ f := by positivity
  have hm' : (0 : ℝ) ≤ m * 2 ^ e := by positivity
  have hz' : value z = n * 2 ^ f := by rcases hvalue with h | h <;> linarith
  have hx' : value x = m * 2 ^ e := hvalue'.resolve_right fun h => by linarith
  have hunit : (0 : ℝ) < 2 ^ e := zpow_pos two_pos e
  rw [hx'] at hround hlt
  rw [hz'] at hlt ⊢
  rcases magnitude_add_le hn hm hlt with hgap | ⟨rfl, hgap⟩
  · have hbound : (m : ℝ) < 2 ^ 53 := by exact_mod_cast hm.1
    have hscale : (2 : ℝ) ^ (e + 4) = 16 * 2 ^ e := by rw [zpow_add₀ two_ne_zero]; ring
    have herror := hround.error_le (k := e + 4) hp (by have := hm.2.1; omega) (by
      rw [abs_of_nonneg (by positivity), hscale]
      nlinarith)
    rw [hscale] at herror
    linarith [(abs_le.mp herror).2]
  · have hscale : (2 : ℝ) ^ (e + 3) = 8 * 2 ^ e := by rw [zpow_add₀ two_ne_zero]; ring
    have herror := hround.error_le (k := e + 3) hp (by have := hm.2.1; omega) (by
      rw [abs_of_nonneg (by positivity), hscale]
      push_cast
      linarith)
    rw [hscale] at herror
    linarith [(abs_le.mp herror).2]

/-! ## Tenths -/

open Survey (tenths)

theorem value_tenths : tenths.isFinite = true ∧ value tenths = 10 := by
  have h : tenths.toModel.unpack = .finite .positive (5 * 2 ^ 50) (-49) (by decide) := rfl
  refine ⟨rfl, ?_⟩
  unfold value
  rw [h]
  norm_num [unpackedValue, Sign.apply]

section Tenths

variable {x z : Float}

theorem rounds_ceil_tenths {p : Float} (hp : p.isFinite = true) :
    Rounds (ceil p / tenths) (⌈value p⌉ / 10) := by
  obtain ⟨hfinite, hvalue⟩ := value_ceil hp
  have h := rounds_div hfinite value_tenths.1 (by rw [value_tenths.2]; norm_num)
  rwa [hvalue, value_tenths.2] at h

/-- Where rounding up changes nothing, it changes nothing about the quotient either. -/
theorem ceil_tenths_lt_iff {p : Float} (hp : p.isFinite = true) (hx : x.isFinite = true)
    (h : (⌈value p⌉ : ℝ) = value p) : ceil p / tenths < x ↔ p / tenths < x := by
  obtain ⟨hfinite, hvalue⟩ := value_ceil hp
  rcases eq_or_ne (value p) 0 with hzero | hne
  · have hrounds := rounds_ceil_tenths hp
    have hrounds' := rounds_div hp value_tenths.1 (by rw [value_tenths.2]; norm_num)
    rw [h, hzero, zero_div] at hrounds
    rw [hzero, zero_div] at hrounds'
    obtain ⟨hr, hr'⟩ := hrounds.exact (z := 0.0) rfl value_zero
    obtain ⟨hq, hq'⟩ := hrounds'.exact (z := 0.0) rfl value_zero
    rw [lt_iff_value hr hx, lt_iff_value hq hx, hr', hq']
  · rw [eq_of_value_eq hfinite hp (hvalue.trans h) (by rwa [hvalue, h])]

theorem infinity_tenths {p : Float} (hp : p.toModel.unpack = .infinity .positive) :
    (p / tenths).toModel.unpack = .infinity .positive :=
  infinity_div hp value_tenths.1 (by decide +kernel)

variable (hx : x.isFinite = true)

include hx

theorem roundsNearest_mul_tenths : RoundsNearest (x * tenths) (value x * 10) :=
  value_tenths.2 ▸ roundsNearest_mul hx value_tenths.1

/-- Rounding up to a whole number passes the exact product, unless the product was rounded down to
that whole number. -/
theorem ceil_eq_of_le (hp : (x * tenths).isFinite = true)
    (h : (⌈value (x * tenths)⌉ : ℝ) ≤ value x * 10) :
    (⌈value (x * tenths)⌉ : ℝ) = value (x * tenths) := by
  obtain ⟨hfinite, hvalue⟩ := value_ceil hp
  have hle := (roundsNearest_mul_tenths hx).ge_of_ge hfinite (hvalue.trans_le h)
  rw [le_iff_value hfinite hp, hvalue] at hle
  exact le_antisymm hle (Int.le_ceil _)

variable (hpos : 0.0 ≤ x)

include hpos

theorem zero_le_mul_tenths : 0.0 ≤ x * tenths :=
  zero_le_mul hx value_tenths.1 hpos (by decide +kernel)

theorem le_ceil_tenths_of_lt (hz : z < x) : z ≤ ceil (x * tenths) / tenths := by
  have hproduct := zero_le_mul_tenths hx hpos
  rcases isFinite_or_infinity hproduct with hp | hp
  · have hrounds := rounds_ceil_tenths hp
    rw [zero_le_iff_value hp] at hproduct
    have hceil : value (x * tenths) ≤ ⌈value (x * tenths)⌉ := Int.le_ceil _
    rcases lt_or_le (y := 0.0) (isNaN_of_lt hz) rfl with hneg | hz'
    · exact le_trans (le_of_lt hneg) (hrounds.zero_le (by linarith))
    have hzfinite := isFinite_of_le_of_le rfl hx hz' (le_of_lt hz)
    have hlt := (lt_iff_value hzfinite hx).mp hz
    have hbound := ten_mul_le_of_lt hx hzfinite ((zero_le_iff_value hzfinite).mp hz') hlt hp
      (roundsNearest_mul_tenths hx)
    exact hrounds.ge_of_ge hzfinite (by linarith)
  · exact le_trans (le_of_lt hz) (le_infinity hpos (infinity_tenths (ceil_infinity hp)))

/-- The limit is below the number just if the product was rounded down to a whole number of tenths
that is below the number. -/
theorem not_le_ceil_tenths_iff :
    ¬x ≤ ceil (x * tenths) / tenths ↔
      ceil (x * tenths) ≤ x * tenths ∧ x * tenths / tenths < x := by
  rcases isFinite_or_infinity (zero_le_mul_tenths hx hpos) with hp | hp
  · have hrounds := rounds_ceil_tenths hp
    obtain ⟨hfinite, hvalue⟩ := value_ceil hp
    constructor
    · intro h
      have hlt : (⌈value (x * tenths)⌉ / 10 : ℝ) < value x :=
        not_le.mp fun hle => h (hrounds.ge_of_ge hx hle)
      have hceil := ceil_eq_of_le hx hp (by linarith)
      refine ⟨by rw [le_iff_value hfinite hp, hvalue, hceil], ?_⟩
      rw [← ceil_tenths_lt_iff hp hx hceil]
      exact (lt_or_le hrounds.number (isNaN_of_isFinite hx)).resolve_right h
    · rintro ⟨hle, hlt⟩
      rw [le_iff_value hfinite hp, hvalue] at hle
      have hceil := le_antisymm hle (Int.le_ceil (value (x * tenths)))
      exact not_le_of_lt ((ceil_tenths_lt_iff hp hx hceil).mpr hlt)
  · refine iff_of_false (not_not.mpr (le_infinity hpos (infinity_tenths (ceil_infinity hp)))) ?_
    exact fun h => not_le_of_lt h.2 (le_infinity hpos (infinity_tenths hp))

end Tenths

/-! ## Whole millimetres -/

theorem positivePart_floor_le_iff {x : Float} (hx : x.isFinite = true) :
    Scalar.positivePart (floor x) ≤ x ↔ 0.0 ≤ x := by
  unfold Scalar.positivePart
  split_ifs with h
  · exact iff_of_true (floor_le hx) (le_of_lt (lt_of_lt_of_le h (floor_le hx)))
  · exact Iff.rfl

end Double

/-! ## Limits for recorded shapes -/

/-- The sizes of a contact are numbers, as are the length and the ratio that follow from them. None
is below zero. -/
structure Contact.Measurable (c : Contact Float) (diagonal : Float) : Prop where
  major_finite : c.major.isFinite = true
  major_nonneg : 0.0 ≤ c.major
  minor_finite : c.minor.isFinite = true
  minor_pos : 0.0 < c.minor
  length_finite : (c.major * diagonal).isFinite = true
  aspect_finite : (c.major / c.minor).isFinite = true

namespace Contact.Measurable

open Double

variable {c : Contact Float} {diagonal : Float} (h : c.Measurable diagonal)

include h

theorem length_shape : (c.shape diagonal).length = .number (c.major * diagonal) := by
  unfold Contact.shape Measure.ofOperation
  rw [isNaN_of_isFinite h.length_finite]
  rfl

theorem aspect_shape : (c.shape diagonal).aspect = .number (c.major / c.minor) := by
  have haspect : c.aspect = c.major / c.minor := if_pos h.minor_pos
  unfold Contact.shape Measure.ofOperation
  rw [haspect, isNaN_of_isFinite h.aspect_finite]
  rfl

theorem zero_le_aspect : 0.0 ≤ c.major / c.minor :=
  zero_le_div h.major_nonneg h.minor_finite h.minor_pos

theorem zero_le_length (hdiagonal : 0.0 ≤ diagonal) : 0.0 ≤ c.major * diagonal := by
  rcases isFinite_or_infinity hdiagonal with hfinite | hinf
  · exact zero_le_mul h.major_finite hfinite h.major_nonneg hdiagonal
  · have := h.length_finite
    rw [not_isFinite_mul_infinity h.major_finite hinf] at this
    cases this

end Contact.Measurable

namespace Survey

open Double

variable {diagonal : Float}

theorem exists_value_eq {contacts : List (Contact Float)} {f : Shape → Measure}
    {g : Contact Float → Float} (h : ∀ c ∈ contacts, f (c.shape diagonal) = .number (g c))
    {m : Measure} (hm : m ∈ (contacts.map (·.shape diagonal)).map f) :
    ∃ c ∈ contacts, m.value = g c := by
  obtain ⟨shape, hshape, rfl⟩ := List.mem_map.mp hm
  obtain ⟨c, hc, rfl⟩ := List.mem_map.mp hshape
  exact ⟨c, hc, by rw [h c hc]; rfl⟩

/-- **Suggested limits.** The limits of the sizes admit what was recorded, on a panel whose diagonal
is not below zero. That of the aspect ratio admits every ratio below the observed one. It excludes
the observed one itself just if the product by ten was rounded down to a whole number whose tenths
are below it. All other settings stay as they are. -/
theorem suggest_admits {calls : List Call} (touch : TouchSettings Float)
    (hne : stableContacts calls ≠ [])
    (hmeasurable : ∀ c ∈ stableContacts calls, c.Measurable diagonal) :
    ∃ summary limits, (ofCalls diagonal calls).summary? = some summary ∧
      summary.suggest touch = limits ∧
      (limits.sizeMin ≤ summary.length.low.value ↔ 0.0 ≤ summary.length.low.value) ∧
      (0.0 ≤ diagonal → 0.0 ≤ summary.length.low.value) ∧
      summary.length.high.value ≤ limits.sizeMax ∧
      (∀ z, z < summary.aspect.high.value → z ≤ limits.aspectMax) ∧
      (¬summary.aspect.high.value ≤ limits.aspectMax ↔
        ceil (summary.aspect.high.value * tenths) ≤ summary.aspect.high.value * tenths ∧
          summary.aspect.high.value * tenths / tenths < summary.aspect.high.value) ∧
      { limits with
        sizeMin := touch.sizeMin
        sizeMax := touch.sizeMax
        aspectMin := touch.aspectMin
        aspectMax := touch.aspectMax } = touch := by
  obtain ⟨summary, hsome, habout⟩ := exists_summary? (s := ofCalls diagonal calls)
    (by rw [ofCalls_shapes]; simpa using hne)
  rw [ofCalls_shapes] at habout
  obtain ⟨c, hc, hlow⟩ :=
    exists_value_eq (fun c hc => (hmeasurable c hc).length_shape) habout.length.low_mem
  obtain ⟨c', hc', hhigh⟩ :=
    exists_value_eq (fun c hc => (hmeasurable c hc).length_shape) habout.length.high_mem
  obtain ⟨c'', hc'', haspect⟩ :=
    exists_value_eq (fun c hc => (hmeasurable c hc).aspect_shape) habout.aspect.high_mem
  have hfinite := (hmeasurable c'' hc'').aspect_finite
  have hpos := (hmeasurable c'' hc'').zero_le_aspect
  rw [← haspect] at hfinite hpos
  refine ⟨summary, _, hsome, rfl, ?_, ?_, ?_, ?_, ?_, rfl⟩
  · refine positivePart_floor_le_iff ?_
    rw [hlow]
    exact (hmeasurable c hc).length_finite
  · intro hdiagonal
    rw [hlow]
    exact (hmeasurable c hc).zero_le_length hdiagonal
  · refine le_ceil ?_
    rw [hhigh]
    exact (hmeasurable c' hc').length_finite
  · exact fun z hz => le_ceil_tenths_of_lt hfinite hpos hz
  · exact not_le_ceil_tenths_iff hfinite hpos

theorem suggest_together_admits :
    (∀ c ∈ stableContacts together, c.Measurable 300.0) ∧
      ∃ summary, (ofCalls 300.0 together).summary? = some summary ∧
        (summary.suggest .metric).sizeMin ≤ summary.length.low.value ∧
        summary.length.high.value ≤ (summary.suggest .metric).sizeMax := by
  have hmeasurable : ∀ c ∈ stableContacts together, c.Measurable 300.0 := by
    show ∀ c ∈ [contactOf 0.02 0.01 true, contactOf 0.03 0.02 true], c.Measurable 300.0
    rw [List.forall_mem_cons, List.forall_mem_singleton]
    refine ⟨?_, ?_⟩ <;> constructor <;> decide +kernel
  have hne : stableContacts together ≠ [] := List.cons_ne_nil _ _
  obtain ⟨summary, _, hsome, rfl, hlow, hdiagonal, hhigh, -⟩ :=
    suggest_admits .metric hne hmeasurable
  exact ⟨hmeasurable, summary, hsome, hlow.mpr (hdiagonal (by decide +kernel)), hhigh⟩

/-- A stable contact whose ratio is next above `1.7`. -/
def slender : List Call := [.output (.contacts [contactOf 0.034 0.02 true])]

/-- Ten times the ratio is rounded down to `17`, so the limit is `1.7`, and the contact is beyond
it. -/
theorem suggest_excludes_slender :
    (∀ c ∈ stableContacts slender, c.Measurable 300.0) ∧
      ∃ summary, (ofCalls 300.0 slender).summary? = some summary ∧
        ¬summary.aspect.high.value ≤ (summary.suggest .metric).aspectMax := by
  have hmeasurable : ∀ c ∈ stableContacts slender, c.Measurable 300.0 := by
    show ∀ c ∈ [contactOf 0.034 0.02 true], c.Measurable 300.0
    rw [List.forall_mem_singleton]
    constructor <;> decide +kernel
  obtain ⟨summary, hsome, habout⟩ := exists_summary? (s := ofCalls 300.0 slender) (by
    rw [ofCalls_shapes]
    exact List.cons_ne_nil _ _)
  refine ⟨hmeasurable, summary, hsome, ?_⟩
  rw [ofCalls_shapes] at habout
  obtain ⟨c, hc, haspect⟩ :=
    exists_value_eq (fun c hc => (hmeasurable c hc).aspect_shape) habout.aspect.high_mem
  obtain rfl := List.mem_singleton.mp hc
  show ¬summary.aspect.high.value ≤ ceil (summary.aspect.high.value * tenths) / tenths
  rw [haspect]
  decide +kernel

end Survey

end PenTouch
