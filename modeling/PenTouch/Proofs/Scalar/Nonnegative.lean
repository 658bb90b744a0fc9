import Mathlib
import PenTouch.Proofs.Scalar.Arithmetic

/-!
# Infinities, undefined values and sums

What the operations give where their exact results do not tell.

1. Numbers that are not below zero stay so, the infinity included: `le_add_right`, `zero_le_mul`,
   `zero_le_div`.
2. A value that is not a number leads to no number, and the ratio of two zeros or of two infinities
   is none either.
3. A sum of such terms is not below any of them, however it is rounded (`le_foldl_add`), and it is
   finite as long as few terms are large (`isFinite_foldl_add`).
-/

namespace PenTouch.Double

open Float.Model UnpackedFloat

/-! ## Unrounded results -/

section Unrounded

variable {x y : Float} {u : UnpackedFloat}

theorem unpack_add (h : UnpackedFloat.add .binary64 x.toModel.unpack y.toModel.unpack = u)
    (hu : Canonical u) (hu' : Fits u) : (x + y).toModel.unpack = u := by
  subst h
  exact unpack_ofModel_pack_of_fits hu hu'

theorem unpack_mul (h : UnpackedFloat.mul .binary64 x.toModel.unpack y.toModel.unpack = u)
    (hu : Canonical u) (hu' : Fits u) : (x * y).toModel.unpack = u := by
  subst h
  exact unpack_ofModel_pack_of_fits hu hu'

theorem unpack_div (h : UnpackedFloat.div .binary64 x.toModel.unpack y.toModel.unpack = u)
    (hu : Canonical u) (hu' : Fits u) : (x / y).toModel.unpack = u := by
  subst h
  exact unpack_ofModel_pack_of_fits hu hu'

end Unrounded

/-! ## Numbers that are not below zero -/

section Nonnegative

variable {x y : Float}

theorem zero_le_iff_value (hx : x.isFinite = true) : 0.0 ≤ x ↔ 0 ≤ value x :=
  le_iff_value (x := 0.0) rfl hx

theorem zero_lt_iff_value (hx : x.isFinite = true) : 0.0 < x ↔ 0 < value x :=
  lt_iff_value (x := 0.0) rfl hx

theorem beq_zero_iff (hx : x.isFinite = true) : (x == 0.0) = true ↔ value x = 0 := by
  rw [beq_iff_value hx rfl, value_zero]

theorem eq_zero_of_le (h : 0.0 ≤ x) (h' : x ≤ 0.0) : x.isFinite = true ∧ value x = 0 := by
  have hx := isFinite_of_le_of_le rfl rfl h h'
  exact ⟨hx, le_antisymm ((le_iff_value (y := 0.0) hx rfl).mp h') ((zero_le_iff_value hx).mp h)⟩

theorem isFinite_or_infinity (h : 0.0 ≤ x) :
    x.isFinite = true ∨ x.toModel.unpack = .infinity .positive := by
  rcases isFinite_or (isNaN_of_le h) with hx | hx | hx
  · exact Or.inl hx
  · exact Or.inr hx
  · exact absurd h (not_le_of_lt (infinity_lt hx rfl))

theorem zero_le_infinity (hx : x.toModel.unpack = .infinity .positive) : 0.0 ≤ x :=
  le_of_lt (lt_infinity hx rfl)

theorem not_isFinite_infinity {s : Sign} (hx : x.toModel.unpack = .infinity s) :
    x.isFinite = false := by
  show x.toModel.unpack.isFinite = false
  rw [hx]
  rfl

theorem le_infinity (hx : 0.0 ≤ x) (hy : y.toModel.unpack = .infinity .positive) : x ≤ y := by
  rcases isFinite_or_infinity hx with hfinite | hinf
  · exact le_of_lt (lt_infinity hy hfinite)
  · rw [eq_of_unpack_eq (hinf.trans hy.symm)]
    exact le_self (isNaN_of_le (zero_le_infinity hy))

theorem unpackedAdd_infinity {u : UnpackedFloat}
    (hu : u.isFinite = true ∨ u = .infinity .positive) :
    UnpackedFloat.add .binary64 u (.infinity .positive) = .infinity .positive ∧
      UnpackedFloat.add .binary64 (.infinity .positive) u = .infinity .positive := by
  rcases hu with hu | rfl
  · rcases u with _ | _ | _ | _ <;> cases hu <;> exact ⟨rfl, rfl⟩
  · exact ⟨rfl, rfl⟩

theorem add_infinity (hx : 0.0 ≤ x) (hy : y.toModel.unpack = .infinity .positive) :
    (x + y).toModel.unpack = .infinity .positive := by
  refine unpack_add ?_ trivial trivial
  rw [hy]
  exact (unpackedAdd_infinity (isFinite_or_infinity hx)).1

theorem infinity_add (hx : x.toModel.unpack = .infinity .positive) (hy : 0.0 ≤ y) :
    (x + y).toModel.unpack = .infinity .positive := by
  refine unpack_add ?_ trivial trivial
  rw [hx]
  exact (unpackedAdd_infinity (isFinite_or_infinity hy)).2

theorem le_add_right (hx : 0.0 ≤ x) (hy : 0.0 ≤ y) : x ≤ x + y := by
  rcases isFinite_or_infinity hx with hx' | hx'
  · rcases isFinite_or_infinity hy with hy' | hy'
    · have := (zero_le_iff_value hy').mp hy
      exact (rounds_add hx' hy').ge_of_ge hx' (by linarith)
    · exact le_infinity hx (add_infinity hx hy')
  · exact le_infinity hx (infinity_add hx' hy)

theorem le_add_left (hx : 0.0 ≤ x) (hy : 0.0 ≤ y) : y ≤ x + y := by
  rcases isFinite_or_infinity hy with hy' | hy'
  · rcases isFinite_or_infinity hx with hx' | hx'
    · have := (zero_le_iff_value hx').mp hx
      exact (rounds_add hx' hy').ge_of_ge hy' (by linarith)
    · exact le_infinity hy (infinity_add hx' hy)
  · exact le_infinity hy (add_infinity hx hy')

theorem zero_le_mul (hx' : x.isFinite = true) (hy' : y.isFinite = true) (hx : 0.0 ≤ x)
    (hy : 0.0 ≤ y) : 0.0 ≤ x * y :=
  (rounds_mul hx' hy').zero_le
    (mul_nonneg ((zero_le_iff_value hx').mp hx) ((zero_le_iff_value hy').mp hy))

theorem unpack_of_pos (hx : x.isFinite = true) (h : 0.0 < x) :
    ∃ m e hm, x.toModel.unpack = .finite .positive m e hm := by
  rw [zero_lt_iff_value hx] at h
  revert h hx
  show x.toModel.unpack.isFinite = true → 0 < unpackedValue x.toModel.unpack → _
  rcases x.toModel.unpack with _ | _ | s | ⟨s, m, e, hm⟩ <;> intro hx hpos <;> cases hx
  case zero => exact absurd rfl hpos.ne
  case finite =>
    cases s with
    | negative =>
      have := magnitude_pos hm e
      simp only [unpackedValue, Sign.apply, Int.cast_neg, Int.cast_natCast] at hpos
      linarith
    | positive => exact ⟨m, e, hm, rfl⟩

theorem infinity_mul (hx : x.toModel.unpack = .infinity .positive) (hy' : y.isFinite = true)
    (hy : 0.0 < y) : (x * y).toModel.unpack = .infinity .positive := by
  obtain ⟨m, e, hm, hu⟩ := unpack_of_pos hy' hy
  refine unpack_mul ?_ trivial trivial
  rw [hx, hu]
  rfl

/-- A share of the infinity is infinite, and none of it is not a number. -/
theorem not_isFinite_mul_infinity (hx : x.isFinite = true)
    (hy : y.toModel.unpack = .infinity .positive) : (x * y).isFinite = false := by
  obtain ⟨u, hu⟩ : ∃ u, UnpackedFloat.mul .binary64 x.toModel.unpack y.toModel.unpack = u :=
    ⟨_, rfl⟩
  have hspecial : (∃ s, u = .infinity s) ∨ u = .notANumber := by
    rw [← hu, hy]
    revert hx
    show x.toModel.unpack.isFinite = true → _
    rcases x.toModel.unpack with _ | _ | s | ⟨s, m, e, hm⟩ <;> intro hx <;> cases hx
    · exact Or.inr rfl
    · exact Or.inl ⟨_, rfl⟩
  have hunpack : (x * y).toModel.unpack = u := by
    rcases hspecial with ⟨s, rfl⟩ | rfl <;> exact unpack_mul hu trivial trivial
  show (x * y).toModel.unpack.isFinite = false
  rw [hunpack]
  rcases hspecial with ⟨s, rfl⟩ | rfl <;> rfl

theorem infinity_div (hx : x.toModel.unpack = .infinity .positive) (hy' : y.isFinite = true)
    (hy : 0.0 < y) : (x / y).toModel.unpack = .infinity .positive := by
  obtain ⟨m, e, hm, hu⟩ := unpack_of_pos hy' hy
  refine unpack_div ?_ trivial trivial
  rw [hx, hu]
  rfl

theorem zero_le_div (hx : 0.0 ≤ x) (hy' : y.isFinite = true) (hy : 0.0 < y) : 0.0 ≤ x / y := by
  rcases isFinite_or_infinity hx with hx' | hx'
  · have hpos := (zero_lt_iff_value hy').mp hy
    exact (rounds_div hx' hy' hpos.ne').zero_le
      (div_nonneg ((zero_le_iff_value hx').mp hx) hpos.le)
  · exact zero_le_infinity (infinity_div hx' hy' hy)

/-- A share of the infinity is a zero. -/
theorem div_infinity (hx : x.isFinite = true) (hy : y.toModel.unpack = .infinity .positive) :
    (x / y).isFinite = true ∧ value (x / y) = 0 := by
  obtain ⟨s, hs⟩ : ∃ s,
      UnpackedFloat.div .binary64 x.toModel.unpack y.toModel.unpack = .zero s := by
    rw [hy]
    revert hx
    show x.toModel.unpack.isFinite = true → _
    rcases x.toModel.unpack with _ | _ | s | ⟨s, m, e, hm⟩ <;> intro h <;> cases h <;>
      exact ⟨_, rfl⟩
  have h := unpack_div hs trivial trivial
  exact ⟨congrArg UnpackedFloat.isFinite h, congrArg unpackedValue h⟩

end Nonnegative

/-! ## Values that are not numbers -/

section NaN

variable {x y : Float}

theorem isNaN_iff : x.isNaN = true ↔ x.toModel.unpack = .notANumber := by
  show x.toModel.unpack.isNaN = true ↔ _
  cases x.toModel.unpack <;> simp [UnpackedFloat.isNaN]

theorem isNaN_add (hy : y.isNaN = true) : (x + y).isNaN = true := by
  rw [isNaN_iff] at hy ⊢
  refine unpack_add ?_ trivial trivial
  rw [hy]
  cases x.toModel.unpack <;> rfl

theorem isNaN_mul (hx : x.isNaN = true) : (x * y).isNaN = true := by
  rw [isNaN_iff] at hx ⊢
  refine unpack_mul ?_ trivial trivial
  rw [hx]
  rfl

theorem isNaN_div (hx : x.isNaN = true) : (x / y).isNaN = true := by
  rw [isNaN_iff] at hx ⊢
  refine unpack_div ?_ trivial trivial
  rw [hx]
  rfl

theorem isNaN_div_infinity {s : Sign} (hx : x.isFinite = false)
    (hy : y.toModel.unpack = .infinity s) : (x / y).isNaN = true := by
  rw [isNaN_iff]
  refine unpack_div ?_ trivial trivial
  rw [hy]
  revert hx
  show x.toModel.unpack.isFinite = false → _
  rcases x.toModel.unpack with _ | _ | s | ⟨s, m, e, hm⟩ <;> intro h <;> cases h <;> rfl

theorem unpack_eq_zero (hx : x.isFinite = true) (h : value x = 0) :
    ∃ s, x.toModel.unpack = .zero s := by
  revert hx h
  show x.toModel.unpack.isFinite = true → unpackedValue x.toModel.unpack = 0 → _
  rcases x.toModel.unpack with _ | _ | s | ⟨s, m, e, hm⟩ <;> intro hx h
  case zero => exact ⟨s, rfl⟩
  case finite =>
    have hpos := magnitude_pos hm e
    cases s <;> exact absurd h (by simpa [unpackedValue, Sign.apply] using hpos.ne')
  all_goals cases hx

theorem isNaN_zero_div_zero (hx : x.isFinite = true) (hx' : value x = 0) (hy : y.isFinite = true)
    (hy' : value y = 0) : (x / y).isNaN = true := by
  obtain ⟨s, hs⟩ := unpack_eq_zero hx hx'
  obtain ⟨t, ht⟩ := unpack_eq_zero hy hy'
  rw [isNaN_iff]
  refine unpack_div ?_ trivial trivial
  rw [hs, ht]
  rfl

end NaN

/-! ## Sums -/

section Sums

variable {β : Type} {f : β → Float}

theorem le_foldl_add {l : List β} (hf : ∀ a ∈ l, 0.0 ≤ f a) {x : Float} (h : 0.0 ≤ x) :
    x ≤ l.foldl (fun sum a => sum + f a) x ∧
      ∀ a ∈ l, f a ≤ l.foldl (fun sum a => sum + f a) x := by
  induction l generalizing x with
  | nil => exact ⟨le_self (isNaN_of_le h), nofun⟩
  | cons a l ih =>
    have ha := hf a List.mem_cons_self
    have hnext := le_add_right h ha
    obtain ⟨hle, hall⟩ := ih (fun b hb => hf b (List.mem_cons_of_mem a hb)) (le_trans h hnext)
    refine ⟨le_trans hnext hle, fun b hb => ?_⟩
    rcases List.mem_cons.mp hb with rfl | hb
    · exact le_trans (le_add_left h ha) hle
    · exact hall b hb

theorem foldl_add_zero {l : List β} (hf : ∀ a ∈ l, (f a).isFinite = true ∧ value (f a) = 0)
    {x : Float} (h : x.isFinite = true ∧ value x = 0) :
    (l.foldl (fun sum a => sum + f a) x).isFinite = true ∧
      value (l.foldl (fun sum a => sum + f a) x) = 0 := by
  induction l generalizing x with
  | nil => exact h
  | cons a l ih =>
    have ha := hf a List.mem_cons_self
    refine ih (fun b hb => hf b (List.mem_cons_of_mem a hb)) ?_
    have hsum := rounds_add h.1 ha.1
    rw [h.2, ha.2, add_zero] at hsum
    exact hsum.exact (z := 0.0) rfl rfl

/-- Terms of up to `2 ^ k` each, and fewer than `2 ^ 53` of them. -/
theorem isFinite_foldl_add {l : List β} {k : Int} (hk : -1022 ≤ k) (hk' : k ≤ 900)
    (hf : ∀ a ∈ l, (f a).isFinite = true ∧ 0 ≤ value (f a) ∧ value (f a) ≤ 2 ^ k) {n : Nat}
    (hn : n + l.length < 2 ^ 53) {x : Float} (hx : x.isFinite = true)
    (h : 0 ≤ value x) (h' : value x ≤ n * 2 ^ k) :
    (l.foldl (fun sum a => sum + f a) x).isFinite = true := by
  induction l generalizing x n with
  | nil => exact hx
  | cons a l ih =>
    obtain ⟨ha, hlower, hupper⟩ := hf a List.mem_cons_self
    have hsum := rounds_add hx ha
    obtain ⟨z, hz, hvalue⟩ := exists_value .positive (n := n + 1)
      (by rw [List.length_cons] at hn; omega) hk (by omega)
    have hle : x + f a ≤ z := hsum.le_of_le hz (by
      rw [hvalue]
      simp only [Sign.apply, Nat.cast_add, Nat.cast_one, Int.cast_add, Int.cast_natCast,
        Int.cast_one]
      linarith)
    have hge : 0.0 ≤ x + f a := hsum.zero_le (add_nonneg h hlower)
    have hfinite := isFinite_of_le_of_le (x := 0.0) rfl hz hge hle
    rw [le_iff_value hfinite hz, hvalue] at hle
    exact ih (fun b hb => hf b (List.mem_cons_of_mem a hb)) (n := n + 1)
      (by rw [List.length_cons] at hn; omega) hfinite ((zero_le_iff_value hfinite).mp hge)
      (by simpa [Sign.apply] using hle)

end Sums

end PenTouch.Double
