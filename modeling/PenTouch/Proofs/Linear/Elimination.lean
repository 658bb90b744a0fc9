import Mathlib
import PenTouch.Linear.System
import PenTouch.Proofs.Scalar.Exact

/-!
# Elimination in exact arithmetic

What `System.solve?` returns is the one solution of the system as it was given, and a system is only
given up if it is close to a singular one.

1. `Equation.left_eliminate`: what the left side becomes when its first unknown is eliminated.
2. `Equation.holds_iff_substitute`: an equation gives its first unknown from the others.
3. `System.solves_iff`: so a system holds just if its first equation gives the first unknown and
   what it leaves of the others gives the rest.
4. `System.reduce?_eq_some`, `System.reduce?_eq_none`: by induction on the number of unknowns.
-/

namespace PenTouch.Linear

open scoped Exact

/-! ## Equations -/

namespace Equation

/-- The left side at the given unknowns. -/
def left {n : Nat} (e : Equation ℝ n) (x : Fin n → ℝ) : ℝ :=
  ∑ k, e.coefficients.get k * x k

def Holds {n : Nat} (e : Equation ℝ n) (x : Fin n → ℝ) : Prop :=
  e.left x = e.constant

theorem left_single {n : Nat} (e : Equation ℝ n) (k : Fin n) :
    e.left (Pi.single k 1) = e.coefficients.get k := by
  unfold left
  rw [Fintype.sum_eq_single k fun i hi => by rw [Pi.single_eq_of_ne hi, mul_zero],
    Pi.single_eq_same, mul_one]

variable {n : Nat} {p e : Equation ℝ (n + 1)} {x : Fin (n + 1) → ℝ}

theorem left_eq (e : Equation ℝ (n + 1)) (x : Fin (n + 1) → ℝ) :
    e.left x = e.lead * x 0 + ∑ k : Fin n, e.coefficients.get k.succ * Fin.tail x k := by
  unfold left
  rw [Fin.sum_univ_succ]
  rfl

theorem left_eliminate (hlead : p.lead ≠ 0) :
    (p.eliminate e).left (Fin.tail x) = e.left x - e.lead / p.lead * p.left x := by
  have hterms : (p.eliminate e).left (Fin.tail x) =
      ∑ k : Fin n, e.coefficients.get k.succ * Fin.tail x k -
        e.lead / p.lead * ∑ k : Fin n, p.coefficients.get k.succ * Fin.tail x k := by
    rw [Finset.mul_sum, ← Finset.sum_sub_distrib]
    refine Finset.sum_congr rfl fun k _ => ?_
    have hget : (p.eliminate e).coefficients.get k =
        e.coefficients.get k.succ - e.lead / p.lead * p.coefficients.get k.succ :=
      Vector.getElem_ofFn k.isLt
    rw [hget]
    ring
  have hcancel : e.lead / p.lead * (p.lead * x 0) = e.lead * x 0 := by
    rw [← mul_assoc, div_mul_cancel₀ _ hlead]
  rw [hterms, left_eq, left_eq, mul_add, hcancel, add_sub_add_left_eq_sub]

theorem holds_eliminate (hlead : p.lead ≠ 0) (hp : p.Holds x) :
    (p.eliminate e).Holds (Fin.tail x) ↔ e.Holds x := by
  have hconstant : (p.eliminate e).constant = e.constant - e.lead / p.lead * p.constant := rfl
  unfold Holds at hp ⊢
  rw [left_eliminate hlead, hconstant, hp, sub_left_inj]

theorem foldl_sub_eq_sum (f : Fin n → ℝ) (c : ℝ) :
    Fin.foldl n (fun sum k => sum - f k) c = c - ∑ k, f k := by
  induction n generalizing c with
  | zero => simp
  | succ n ih => rw [Fin.foldl_succ, ih, Fin.sum_univ_succ, sub_sub]

/-- An equation gives its first unknown from the others. -/
theorem holds_iff_substitute (hlead : e.lead ≠ 0) :
    e.Holds x ↔ x 0 = e.substitute (Vector.ofFn (Fin.tail x)) := by
  have hsum : e.substitute (Vector.ofFn (Fin.tail x)) =
      (e.constant - ∑ k : Fin n, e.coefficients.get k.succ * Fin.tail x k) / e.lead := by
    unfold substitute
    rw [foldl_sub_eq_sum]
    simp only [Fin.getElem_fin, Vector.getElem_ofFn]
    rfl
  unfold Holds
  rw [hsum, left_eq, eq_div_iff hlead, mul_comm (x 0), eq_sub_iff_add_eq]

end Equation

/-! ## Systems -/

namespace System

def Solves {n m : Nat} (s : Vector (Equation ℝ n) m) (x : Fin n → ℝ) : Prop :=
  ∀ e ∈ s, e.Holds x

variable {n : Nat}

theorem forall_mem_succ {n m : Nat} {t : Vector (Equation ℝ n) (m + 1)} {P : Equation ℝ n → Prop} :
    (∀ e ∈ t, P e) ↔ P (t.get 0) ∧ ∀ i : Fin m, P (t.get i.succ) := by
  refine Vector.forall_mem_iff_forall_getElem.trans ⟨fun h => ⟨h 0 _, fun i => h _ _⟩, ?_⟩
  rintro ⟨hfirst, hrest⟩ (_ | i) hi
  · exact hfirst
  · exact hrest ⟨i, Nat.lt_of_succ_lt_succ hi⟩

/-- The equations hold just if the first one gives the first unknown, and what it leaves of the
others gives the other unknowns. -/
theorem solves_iff {t : System ℝ (n + 1)} (hlead : (t.get 0).lead ≠ 0) (x : Fin (n + 1) → ℝ) :
    Solves t x ↔ x 0 = (t.get 0).substitute (Vector.ofFn (Fin.tail x)) ∧
      Solves (Vector.ofFn fun i : Fin n => (t.get 0).eliminate (t.get i.succ)) (Fin.tail x) := by
  have hrest : Solves (Vector.ofFn fun i : Fin n => (t.get 0).eliminate (t.get i.succ))
      (Fin.tail x) ↔ ∀ i : Fin n, ((t.get 0).eliminate (t.get i.succ)).Holds (Fin.tail x) := by
    simp only [Solves, Vector.mem_ofFn, forall_exists_index, forall_apply_eq_imp_iff]
  rw [hrest, ← Equation.holds_iff_substitute hlead]
  exact forall_mem_succ.trans <|
    and_congr_right fun hp => forall_congr' fun i => (Equation.holds_eliminate hlead hp).symm

theorem eq_get_append_iff (y : Fin (n + 1) → ℝ) (a : ℝ) (others : Vector ℝ n) :
    y = ((#v[a] ++ others).cast (Nat.add_comm 1 n)).get ↔ y 0 = a ∧ Fin.tail y = others.get := by
  simp only [funext_iff, Fin.forall_fin_succ, Vector.get_eq_getElem, Fin.tail]
  simp

section Reduce

variable {tolerance : ℝ}

/-- One step: the pivot is put first, and eliminates the first unknown from the others. -/
theorem reduce?_eq {α : Type} [Scalar α] (tolerance : α) (s : System α (n + 1)) :
    reduce? tolerance s =
      let t := s.swap 0 (pivot s) (Nat.succ_pos n) (pivot s).isLt
      if Scalar.abs (t.get 0).lead ≤ tolerance then none
      else (reduce? tolerance (Vector.ofFn fun i => (t.get 0).eliminate (t.get i.succ))).map
        fun others => (#v[(t.get 0).substitute others] ++ others).cast (Nat.add_comm 1 n) := by
  rw [reduce?]
  simp only [Option.map_eq_bind]
  rfl

/-- Before that, the equations are only rearranged. -/
theorem reduce?_succ (tolerance : ℝ) (s : System ℝ (n + 1)) :
    ∃ t : System ℝ (n + 1), t.Perm s ∧ t.get 0 = s.get (pivot s) ∧ reduce? tolerance s =
      if |(t.get 0).lead| ≤ tolerance then none
      else (reduce? tolerance (Vector.ofFn fun i => (t.get 0).eliminate (t.get i.succ))).map
        fun others => (#v[(t.get 0).substitute others] ++ others).cast (Nat.add_comm 1 n) :=
  ⟨s.swap 0 (pivot s) (Nat.succ_pos n) (pivot s).isLt, Vector.swap_perm _ _,
    Vector.getElem_swap_left _ _, reduce?_eq tolerance s⟩

theorem lead_ne_zero (htolerance : 0 ≤ tolerance) {e : Equation ℝ (n + 1)}
    (h : ¬|e.lead| ≤ tolerance) : e.lead ≠ 0 :=
  fun hzero => h (by rwa [hzero, abs_zero])

/-- **Elimination.** A system that is not given up has one solution, which is returned. -/
theorem reduce?_eq_some (htolerance : 0 ≤ tolerance) {s : System ℝ n} {x : Vector ℝ n}
    (h : reduce? tolerance s = some x) (y : Fin n → ℝ) : Solves s y ↔ y = x.get := by
  induction n with
  | zero =>
    have hnone : ∀ e, e ∉ s := by
      rw [s.eq_empty]
      simp
    exact iff_of_true (fun e he => absurd he (hnone e)) (Subsingleton.elim _ _)
  | succ n ih =>
    obtain ⟨t, hperm, -, hreduce⟩ := reduce?_succ tolerance s
    rw [hreduce] at h
    split_ifs at h with hsmall
    obtain ⟨others, hothers, rfl⟩ := Option.map_eq_some_iff.mp h
    have hofFn : Vector.ofFn others.get = others := by
      ext i hi
      exact Vector.getElem_ofFn hi
    calc Solves s y
      _ ↔ Solves t y := by simp only [Solves, hperm.mem_iff]
      _ ↔ y 0 = (t.get 0).substitute (Vector.ofFn (Fin.tail y)) ∧ Fin.tail y = others.get := by
          rw [solves_iff (lead_ne_zero htolerance hsmall), ih hothers]
      _ ↔ y 0 = (t.get 0).substitute others ∧ Fin.tail y = others.get :=
          and_congr_left fun htail => by rw [htail, hofFn]
      _ ↔ _ := (eq_get_append_iff y _ others).symm

/-- A choice that never gets worse is at least as good as all it was made from. -/
theorem le_foldl {β : Type} (f : β → ℝ) {l : Nat} (choose : β → Fin l → β) (places : Fin l → β)
    (hbest : ∀ best i, f best ≤ f (choose best i))
    (hplace : ∀ best i, f (places i) ≤ f (choose best i)) (first : β) :
    f first ≤ f (Fin.foldl l choose first) ∧ ∀ i, f (places i) ≤ f (Fin.foldl l choose first) := by
  induction l generalizing first with
  | zero => exact ⟨le_rfl, fun i => i.elim0⟩
  | succ l ih =>
    rw [Fin.foldl_succ]
    obtain ⟨hfirst, hrest⟩ := ih (fun best i => choose best i.succ) (fun i => places i.succ)
      (fun best i => hbest best i.succ) (fun best i => hplace best i.succ) (choose first 0)
    exact ⟨(hbest first 0).trans hfirst, Fin.cases ((hplace first 0).trans hfirst) hrest⟩

theorem abs_lead_le_pivot {m : Nat} (s : Vector (Equation ℝ (n + 1)) (m + 1))
    {e : Equation ℝ (n + 1)} (he : e ∈ s) : |e.lead| ≤ |(s.get (pivot s)).lead| := by
  obtain ⟨i, hi, rfl⟩ := Vector.mem_iff_getElem.mp he
  refine (le_foldl (fun i : Fin (m + 1) => |(s.get i).lead|) _ id ?_ ?_ 0).2 ⟨i, hi⟩ <;>
    intro best i <;> split_ifs with hgt
  · exact le_rfl
  · exact not_lt.mp fun hlt => hgt (compare_gt_iff_gt.mpr hlt)
  · exact (compare_gt_iff_gt.mp hgt).le
  · exact le_rfl

/-- A system is given up only if its coefficients take some vector, of which one entry is `1`, to a
place within the tolerance. -/
theorem reduce?_eq_none (htolerance : 0 ≤ tolerance) {s : System ℝ n}
    (h : reduce? tolerance s = none) :
    ∃ u : Fin n → ℝ, (∃ k, u k = 1) ∧ ∀ e ∈ s, |e.left u| ≤ tolerance := by
  induction n with
  | zero => cases h
  | succ n ih =>
    obtain ⟨t, hperm, hfirst, hreduce⟩ := reduce?_succ tolerance s
    rw [hreduce] at h
    split_ifs at h with hsmall
    · -- The first unknown is as good as free.
      refine ⟨Pi.single 0 1, ⟨0, Pi.single_eq_same _ _⟩, fun e he => ?_⟩
      rw [Equation.left_single]
      exact (abs_lead_le_pivot s he).trans (hfirst ▸ hsmall)
    · -- What is left is given up; the first unknown is chosen so that the pivot is zero.
      have hlead : (t.get 0).lead ≠ 0 := lead_ne_zero htolerance hsmall
      obtain ⟨u, ⟨k, hk⟩, hu⟩ := ih (Option.map_eq_none_iff.mp h)
      obtain ⟨x, hpivot, rfl⟩ : ∃ x : Fin (n + 1) → ℝ, (t.get 0).left x = 0 ∧ Fin.tail x = u := by
        refine ⟨Fin.cons (-(∑ k : Fin n, (t.get 0).coefficients.get k.succ * u k) /
          (t.get 0).lead) u, ?_, rfl⟩
        rw [Equation.left_eq, Fin.cons_zero, Fin.tail_cons, mul_div_cancel₀ _ hlead,
          neg_add_cancel]
      refine ⟨x, ⟨k.succ, hk⟩, fun e he => ?_⟩
      refine (forall_mem_succ (P := fun e => |e.left x| ≤ tolerance)).mpr ⟨?_, fun i => ?_⟩ e
        (hperm.mem_iff.mpr he)
      · rwa [hpivot, abs_zero]
      · have hleft := hu _ (Vector.mem_ofFn.mpr ⟨i, rfl⟩)
        rwa [Equation.left_eliminate hlead, hpivot, mul_zero, sub_zero] at hleft

end Reduce

/-- The scale is the least bound of the magnitudes on the diagonal. -/
theorem scale_le_iff {s : System ℝ n} {b : ℝ} :
    s.scale ≤ b ↔ 0 ≤ b ∧ ∀ i : Fin n, |(s.get i).coefficients.get i| ≤ b := by
  have hfold : ∀ (m : Nat) (f : Fin m → ℝ) (c : ℝ),
      Fin.foldl m (fun largest i => Scalar.larger largest (Scalar.abs (f i))) c ≤ b ↔
        c ≤ b ∧ ∀ i, |f i| ≤ b := by
    intro m
    induction m with
    | zero => intro f c; simp
    | succ m ih =>
      intro f c
      rw [Fin.foldl_succ, ih, Scalar.larger_eq_max, max_le_iff, Fin.forall_fin_succ, and_assoc]
      rfl
  rw [← Scalar.decimal_zero]
  exact hfold n (fun i => (s.get i).coefficients.get i) 0.0

theorem tolerance_nonneg (s : System ℝ n) : 0 ≤ s.scale * 1e-10 :=
  mul_nonneg (scale_le_iff.mp le_rfl).1 (by norm_num)

section Solve

variable {s : System ℝ n}

/-- **Solving.** What is returned is the one solution of the system. -/
theorem solve?_eq_some {x : Vector ℝ n} (h : s.solve? = some x) (y : Fin n → ℝ) :
    Solves s y ↔ y = x.get := by
  unfold solve? at h
  split_ifs at h
  obtain ⟨x', hx', h⟩ := Option.bind_eq_some_iff.mp h
  split_ifs at h
  obtain rfl := Option.some.inj h
  exact reduce?_eq_some s.tolerance_nonneg hx' y

/-- Of the systems with an entry on the diagonal, only those that are close to a singular one are
given up. -/
theorem solve?_eq_none (hscale : s.scale ≠ 0) (h : s.solve? = none) :
    ∃ u : Fin n → ℝ, (∃ k, u k = 1) ∧ ∀ e ∈ s, |e.left u| ≤ s.scale * 1e-10 := by
  unfold solve? at h
  have hgiven : ¬((s.scale == 0.0) = true ∨ ¬(Scalar.isFinite s.scale) = true) := by
    rintro (heq | hfinite)
    · exact hscale ((eq_of_beq heq).trans Scalar.decimal_zero)
    · exact hfinite rfl
  rw [if_neg hgiven] at h
  refine reduce?_eq_none s.tolerance_nonneg (Option.eq_none_iff_forall_ne_some.mpr fun x hx => ?_)
  have hall : x.all Scalar.isFinite = true := Vector.all_eq_true.mpr fun _ _ => rfl
  rw [hx] at h
  exact Option.some_ne_none x ((if_pos hall).symm.trans h)

end Solve

end System

end PenTouch.Linear
