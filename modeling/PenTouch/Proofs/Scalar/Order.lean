import Mathlib.Data.Prod.Lex
import PenTouch.Scalar.Double

/-!
# The order of the doubles

Doubles that are numbers stand in one line, in which the two zeros share a place.

1. `level?_eq_none`: a double has no place in the line just if it is not a number.
2. `lt_iff`, `le_iff`, `beq_iff`: doubles are compared by their places. A comparison that holds
   therefore says that both sides are numbers.
3. `lt_or_le`: of two numbers one is below the other, or the other is at most that one. A comparison
   that fails therefore says the opposite, or that a side is not a number (`not_lt_iff`).
-/

namespace PenTouch.Double

open Float.Model

/-! ## Places -/

/-- The line in which numbers are compared: the sign, doubled for the infinities, then the exponent,
then the mantissa. -/
abbrev Line := Int ×ₗ Int ×ₗ Int

def place (sign exponent mantissa : Int) : Line := toLex (sign, toLex (exponent, mantissa))

/-- The place of an unpacked double. -/
def unpackedLevel? : UnpackedFloat → Option Line
  | .notANumber => none
  | .infinity .negative => some (place (-2) 0 0)
  | .finite .negative mantissa exponent _ => some (place (-1) (-exponent) (-mantissa))
  | .zero _ => some (place 0 0 0)
  | .finite .positive mantissa exponent _ => some (place 1 exponent mantissa)
  | .infinity .positive => some (place 2 0 0)

/-- The place of a double; nothing for a value that is not a number. -/
def level? (x : Float) : Option Line := unpackedLevel? x.toModel.unpack

theorem unpackedLevel?_eq_none (u : UnpackedFloat) :
    unpackedLevel? u = none ↔ u.isNaN = true := by
  rcases u with (_ | _) | _ | _ | ⟨_ | _, m, e, hm⟩
  case notANumber => exact iff_of_true rfl rfl
  all_goals exact iff_of_false (Option.some_ne_none _) Bool.false_ne_true

theorem level?_eq_none {x : Float} : level? x = none ↔ x.isNaN = true :=
  unpackedLevel?_eq_none x.toModel.unpack

theorem exists_level {x : Float} (h : x.isNaN = false) : ∃ a, level? x = some a :=
  Option.ne_none_iff_exists'.mp fun hx =>
    Bool.false_ne_true (h.symm.trans (level?_eq_none.mp hx))

/-! ## Comparisons -/

theorem compare_place (s e m s' e' m' : Int) :
    compare (place s e m) (place s' e' m') =
      (compare s s').then ((compare e e').then (compare m m')) := by
  simp only [place, Prod.Lex.compare_def, compareLex, compareOn, ofLex_toLex]

theorem compare_neg (a b : Int) : compare (-a) (-b) = (compare a b).swap := by
  rcases Int.lt_trichotomy a b with h | h | h
  · rw [compare_lt_iff_lt.mpr h, compare_gt_iff_gt.mpr (Int.neg_lt_neg h), Ordering.swap_lt]
  · rw [h, compare_eq_iff_eq.mpr rfl, compare_eq_iff_eq.mpr rfl, Ordering.swap_eq]
  · rw [compare_gt_iff_gt.mpr h, compare_lt_iff_lt.mpr (Int.neg_lt_neg h), Ordering.swap_gt]

theorem compare_natCast (m n : Nat) : compare (m : Int) (n : Int) = compare m n := by
  rcases Nat.lt_trichotomy m n with h | h | h
  · rw [compare_lt_iff_lt.mpr h, compare_lt_iff_lt.mpr (Int.ofNat_lt.mpr h)]
  · rw [h, compare_eq_iff_eq.mpr rfl, compare_eq_iff_eq.mpr rfl]
  · rw [compare_gt_iff_gt.mpr h, compare_gt_iff_gt.mpr (Int.ofNat_lt.mpr h)]

theorem compare_unpacked (a b : UnpackedFloat) :
    a.compare b =
      (unpackedLevel? a).bind fun x => (unpackedLevel? b).map fun y => compare x y := by
  rcases a with (_ | _) | _ | _ | ⟨_ | _, m, e, hm⟩ <;>
    rcases b with (_ | _) | _ | _ | ⟨_ | _, m', e', hm'⟩
  case finite.negative.finite.negative =>
    show some ((compare e e').then (compare m m')).swap =
      some (compare (place (-1) (-e) (-m)) (place (-1) (-e') (-m')))
    rw [compare_place, compare_neg e, compare_neg m, compare_natCast, Ordering.swap_then]
    rfl
  case finite.positive.finite.positive =>
    show some ((compare e e').then (compare m m')) =
      some (compare (place 1 e m) (place 1 e' m'))
    rw [compare_place, compare_natCast]
    rfl
  -- In all other cases a value is not a number, or the signs decide.
  all_goals rfl

theorem exists_compare {x y : Float} {P : Ordering → Prop} :
    (∃ o, x.toModel.compare y.toModel = some o ∧ P o) ↔
      ∃ a b, level? x = some a ∧ level? y = some b ∧ P (compare a b) := by
  have hxy : x.toModel.compare y.toModel =
      (level? x).bind fun a => (level? y).map fun b => compare a b := compare_unpacked _ _
  rw [hxy]
  constructor
  · rintro ⟨o, h, ho⟩
    obtain ⟨a, ha, h⟩ := Option.bind_eq_some_iff.mp h
    obtain ⟨b, hb, rfl⟩ := Option.map_eq_some_iff.mp h
    exact ⟨a, b, ha, hb, ho⟩
  · rintro ⟨a, b, ha, hb, h⟩
    exact ⟨_, by rw [ha, hb]; rfl, h⟩

theorem lt_iff {x y : Float} :
    x < y ↔ ∃ a b, level? x = some a ∧ level? y = some b ∧ a < b := by
  have h : x < y ↔ ∃ o, x.toModel.compare y.toModel = some o ∧ o = .lt := by
    simp only [exists_eq_right]
    exact decide_eq_true_iff.trans beq_iff_eq
  rw [h, exists_compare]
  simp only [compare_lt_iff_lt]

theorem le_iff {x y : Float} :
    x ≤ y ↔ ∃ a b, level? x = some a ∧ level? y = some b ∧ a ≤ b := by
  have h : x ≤ y ↔ ∃ o, x.toModel.compare y.toModel = some o ∧ o.isLE = true :=
    decide_eq_true_iff.trans (Option.any_eq_true _ _)
  rw [h, exists_compare]
  simp only [Ordering.isLE_iff_ne_gt, compare_le_iff_le]

theorem beq_iff {x y : Float} :
    (x == y) = true ↔ ∃ a b, level? x = some a ∧ level? y = some b ∧ a = b := by
  have h : (x == y) = true ↔ ∃ o, x.toModel.compare y.toModel = some o ∧ o = .eq := by
    simp only [exists_eq_right]
    exact beq_iff_eq (a := x.toModel.compare y.toModel)
  rw [h, exists_compare]
  simp only [compare_eq_iff_eq]

/-! ## Numbers -/

section Numbers

variable {x y z : Float}

theorem isNaN_of_le (h : x ≤ y) : y.isNaN = false := by
  obtain ⟨-, b, -, hb, -⟩ := le_iff.mp h
  rw [← Bool.not_eq_true, ← level?_eq_none, hb]
  exact Option.some_ne_none b

theorem not_lt_of_isNaN (hx : x.isNaN = true) : ¬x < y ∧ ¬y < x := by
  have hlevel := level?_eq_none.mpr hx
  refine ⟨fun h => ?_, fun h => ?_⟩
  · obtain ⟨a, -, ha, -, -⟩ := lt_iff.mp h
    exact Option.some_ne_none a (ha.symm.trans hlevel)
  · obtain ⟨-, b, -, hb, -⟩ := lt_iff.mp h
    exact Option.some_ne_none b (hb.symm.trans hlevel)

theorem isNaN_of_lt (h : x < y) : x.isNaN = false := by
  rw [← Bool.not_eq_true]
  exact fun hx => (not_lt_of_isNaN hx).1 h

theorem not_le_of_isNaN (hx : x.isNaN = true) : ¬x ≤ y ∧ ¬y ≤ x := by
  have hlevel := level?_eq_none.mpr hx
  refine ⟨fun h => ?_, fun h => ?_⟩
  · obtain ⟨a, -, ha, -, -⟩ := le_iff.mp h
    exact Option.some_ne_none a (ha.symm.trans hlevel)
  · obtain ⟨-, b, -, hb, -⟩ := le_iff.mp h
    exact Option.some_ne_none b (hb.symm.trans hlevel)

theorem le_self (hx : x.isNaN = false) : x ≤ x := by
  obtain ⟨a, ha⟩ := exists_level hx
  exact le_iff.mpr ⟨a, a, ha, ha, le_refl a⟩

theorem lt_or_le (hx : x.isNaN = false) (hy : y.isNaN = false) : x < y ∨ y ≤ x := by
  obtain ⟨a, ha⟩ := exists_level hx
  obtain ⟨b, hb⟩ := exists_level hy
  rcases lt_or_ge a b with h | h
  · exact Or.inl (lt_iff.mpr ⟨a, b, ha, hb, h⟩)
  · exact Or.inr (le_iff.mpr ⟨b, a, hb, ha, h⟩)

theorem not_le_of_lt (h : x < y) : ¬y ≤ x := by
  obtain ⟨a, b, ha, hb, hab⟩ := lt_iff.mp h
  intro hyx
  obtain ⟨b', a', hb', ha', hba⟩ := le_iff.mp hyx
  cases ha.symm.trans ha'
  cases hb.symm.trans hb'
  exact absurd hba (not_le.mpr hab)

theorem lt_of_le_of_lt (h : x ≤ y) (h' : y < z) : x < z := by
  obtain ⟨a, b, ha, hb, hab⟩ := le_iff.mp h
  obtain ⟨b', c, hb', hc, hbc⟩ := lt_iff.mp h'
  cases hb.symm.trans hb'
  exact lt_iff.mpr ⟨a, c, ha, hc, hab.trans_lt hbc⟩

theorem lt_of_lt_of_le (h : x < y) (h' : y ≤ z) : x < z := by
  obtain ⟨a, b, ha, hb, hab⟩ := lt_iff.mp h
  obtain ⟨b', c, hb', hc, hbc⟩ := le_iff.mp h'
  cases hb.symm.trans hb'
  exact lt_iff.mpr ⟨a, c, ha, hc, hab.trans_le hbc⟩

theorem le_of_lt (h : x < y) : x ≤ y := by
  obtain ⟨a, b, ha, hb, hab⟩ := lt_iff.mp h
  exact le_iff.mpr ⟨a, b, ha, hb, hab.le⟩

theorem le_trans (h : x ≤ y) (h' : y ≤ z) : x ≤ z := by
  obtain ⟨a, b, ha, hb, hab⟩ := le_iff.mp h
  obtain ⟨b', c, hb', hc, hbc⟩ := le_iff.mp h'
  cases hb.symm.trans hb'
  exact le_iff.mpr ⟨a, c, ha, hc, hab.trans hbc⟩

theorem not_lt_iff : ¬y < x ↔ x ≤ y ∨ x.isNaN = true ∨ y.isNaN = true := by
  constructor
  · intro h
    by_cases hx : x.isNaN = true
    · exact .inr (.inl hx)
    by_cases hy : y.isNaN = true
    · exact .inr (.inr hy)
    rw [Bool.not_eq_true] at hx hy
    exact .inl ((lt_or_le hy hx).resolve_left h)
  · rintro (hle | hx | hy) h
    · exact not_le_of_lt h hle
    · exact (not_lt_of_isNaN hx).2 h
    · exact (not_lt_of_isNaN hy).1 h

theorem not_le_iff : ¬y ≤ x ↔ x < y ∨ x.isNaN = true ∨ y.isNaN = true := by
  constructor
  · intro h
    by_cases hx : x.isNaN = true
    · exact .inr (.inl hx)
    by_cases hy : y.isNaN = true
    · exact .inr (.inr hy)
    rw [Bool.not_eq_true] at hx hy
    exact .inl ((lt_or_le hx hy).resolve_right h)
  · rintro (hlt | hx | hy) h
    · exact not_le_of_lt hlt h
    · exact (not_le_of_isNaN hx).2 h
    · exact (not_le_of_isNaN hy).1 h

theorem not_lt_zero_iff : ¬x < 0.0 ↔ 0.0 ≤ x ∨ x.isNaN = true :=
  not_lt_iff.trans (or_congr_right (or_iff_right Bool.false_ne_true))

theorem not_le_zero_iff : ¬x ≤ 0.0 ↔ 0.0 < x ∨ x.isNaN = true :=
  not_le_iff.trans (or_congr_right (or_iff_right Bool.false_ne_true))

theorem clamp_eq (h : 0.0 ≤ x) (h' : x ≤ 1.0) : Scalar.clamp x 0.0 1.0 = x := by
  unfold Scalar.clamp
  rw [if_neg fun hlt => not_le_of_lt hlt h, if_neg fun hlt => not_le_of_lt hlt h']

theorem beq_iff_le : (x == y) = true ↔ x ≤ y ∧ y ≤ x := by
  constructor
  · intro h
    obtain ⟨a, b, ha, hb, rfl⟩ := beq_iff.mp h
    exact ⟨le_iff.mpr ⟨a, a, ha, hb, le_refl a⟩, le_iff.mpr ⟨a, a, hb, ha, le_refl a⟩⟩
  · rintro ⟨h, h'⟩
    obtain ⟨a, b, ha, hb, hab⟩ := le_iff.mp h
    obtain ⟨b', a', hb', ha', hba⟩ := le_iff.mp h'
    cases ha.symm.trans ha'
    cases hb.symm.trans hb'
    exact beq_iff.mpr ⟨a, b, ha, hb, le_antisymm hab hba⟩

end Numbers

end PenTouch.Double
