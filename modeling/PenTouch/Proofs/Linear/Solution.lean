import Mathlib
import PenTouch.Proofs.Linear.Elimination
import PenTouch.Proofs.Scalar.Guarded

/-!
# Exact solutions

In exact arithmetic a system is solved only if its matrix is invertible, then by the one vector that
the matrix takes to the constants, and without a division by zero on the way.

1. `System.mulVec_eq_iff_solves`: a system as a matrix and a vector.
2. `System.isUnit_matrix`: a system with just one solution has an invertible matrix.
3. `Equation.eliminate_guarded`, `Equation.substitute_guarded`: over guarded numbers, elimination
   and substitution do the same as over exact ones if the coefficient they divide by is not zero.
4. `System.reduce?_guarded`: so by induction the whole reduction does the same, since it divides
   only by coefficients above the tolerance.
5. `System.reduce?_of_lead_eq_zero`: it would not if it let a coefficient of zero pass.
-/

namespace PenTouch.Linear

open scoped Exact Matrix

/-! ## Matrices -/

namespace System

variable {n : Nat}

/-- The coefficients, a row for each equation. -/
def matrix (s : System ℝ n) : Matrix (Fin n) (Fin n) ℝ := fun i k => (s.get i).coefficients.get k

def constants (s : System ℝ n) : Fin n → ℝ := fun i => (s.get i).constant

theorem mulVec_eq_iff_solves (s : System ℝ n) (y : Fin n → ℝ) :
    s.matrix *ᵥ y = s.constants ↔ Solves s y := by
  refine funext_iff.trans (Iff.trans ?_ Vector.forall_mem_iff_forall_getElem.symm)
  exact ⟨fun h i hi => h ⟨i, hi⟩, fun h i => h i i.isLt⟩

theorem isUnit_matrix {A : Matrix (Fin n) (Fin n) ℝ} {b x : Fin n → ℝ}
    (h : ∀ y, A *ᵥ y = b ↔ y = x) : IsUnit A := by
  rw [← Matrix.mulVec_injective_iff_isUnit]
  intro y z hyz
  have hx : A *ᵥ x = b := (h x).mpr rfl
  have hmoved : A *ᵥ (x + (y - z)) = b := by
    rw [Matrix.mulVec_add, Matrix.mulVec_sub, hyz, sub_self, add_zero, hx]
  exact sub_eq_zero.mp (add_eq_left.mp ((h _).mp hmoved))

end System

/-! ## Guarded systems -/

theorem value_div_value (x : ℝ) {y : ℝ} (hy : y ≠ 0) :
    (Guarded.value x / Guarded.value y : Guarded ℝ) = .value (x / y) := by
  refine if_neg fun h => hy ?_
  exact (eq_of_beq h).trans Scalar.decimal_zero

theorem div_value_zero (x : Guarded ℝ) : x / Guarded.value 0 = .undefined := by
  cases x with
  | value x => exact if_pos (beq_iff_eq.mpr Scalar.decimal_zero.symm)
  | undefined => rfl

theorem larger_value (x y : ℝ) :
    Scalar.larger (Guarded.value x) (.value y) = .value (Scalar.larger x y) := by
  have hlt : Guarded.value x < .value y ↔ x < y := Iff.rfl
  have hself : (Guarded.value x == .value x) = true := by simp [BEq.beq, Guarded.Both]
  unfold Scalar.larger
  simp only [hlt, hself, beq_self_eq_true, if_true]
  split_ifs <;> rfl

theorem foldl_value {n : Nat} {f : ℝ → Fin n → ℝ} {g : Guarded ℝ → Fin n → Guarded ℝ}
    (h : ∀ x i, g (.value x) i = .value (f x i)) (c : ℝ) :
    Fin.foldl n g (.value c) = .value (Fin.foldl n f c) := by
  rw [Fin.foldl_eq_foldl_finRange, Fin.foldl_eq_foldl_finRange]
  exact List.foldl_hom Guarded.value h

namespace Equation

def guarded {n : Nat} (e : Equation ℝ n) : Equation (Guarded ℝ) n :=
  ⟨e.coefficients.map .value, .value e.constant⟩

variable {n : Nat} {p e : Equation ℝ (n + 1)}

theorem getElem_guarded {n : Nat} (e : Equation ℝ n) (k : Nat) (hk : k < n) :
    e.guarded.coefficients[k] = .value e.coefficients[k] :=
  Vector.getElem_map _ hk

theorem lead_guarded (e : Equation ℝ (n + 1)) : e.guarded.lead = .value e.lead :=
  getElem_guarded e 0 n.succ_pos

theorem eliminate_guarded (hlead : p.lead ≠ 0) :
    p.guarded.eliminate e.guarded = (p.eliminate e).guarded := by
  have hfactor : e.guarded.lead / p.guarded.lead = .value (e.lead / p.lead) := by
    rw [lead_guarded, lead_guarded, value_div_value _ hlead]
  unfold eliminate
  simp only [hfactor, getElem_guarded]
  refine congrArg₂ Equation.mk ?_ rfl
  ext k hk
  simp
  rfl

theorem substitute_guarded (hlead : e.lead ≠ 0) (others : Vector ℝ n) :
    e.guarded.substitute (others.map .value) = .value (e.substitute others) := by
  unfold substitute
  rw [lead_guarded, ← value_div_value _ hlead]
  refine congrArg (· / Guarded.value e.lead) (foldl_value (fun x k => ?_) _)
  simp only [getElem_guarded, Fin.getElem_fin, Vector.getElem_map]
  rfl

end Equation

namespace System

def guarded {n m : Nat} (s : Vector (Equation ℝ n) m) : Vector (Equation (Guarded ℝ) n) m :=
  s.map Equation.guarded

variable {n : Nat}

theorem pivot_guarded {m : Nat} (s : Vector (Equation ℝ (n + 1)) (m + 1)) :
    pivot (guarded s) = pivot s := by
  unfold pivot guarded
  simp only [Fin.getElem_fin, Vector.getElem_map, Equation.lead_guarded]
  rfl

theorem swap_guarded {m : Nat} (s : Vector (Equation ℝ n) m) {i j : Nat} (hi : i < m) (hj : j < m) :
    (guarded s).swap i j hi hj = guarded (s.swap i j hi hj) := by
  ext k hk
  unfold guarded
  simp only [Vector.getElem_swap, Vector.getElem_map]
  split_ifs <;> rfl

theorem get_guarded {m : Nat} (s : Vector (Equation ℝ n) m) (i : Fin m) :
    (guarded s).get i = (s.get i).guarded :=
  Vector.getElem_map _ i.isLt

theorem map_cast_append {α β : Type} (f : α → β) (a : α) (others : Vector α n) :
    ((#v[a] ++ others).cast (Nat.add_comm 1 n)).map f =
      (#v[f a] ++ others.map f).cast (Nat.add_comm 1 n) :=
  Vector.toArray_inj.mp (by simp)

/-- Only coefficients above the tolerance are divided by. -/
theorem reduce?_guarded {tolerance : ℝ} (htolerance : 0 ≤ tolerance) (s : System ℝ n) :
    reduce? (.value tolerance) (guarded s) =
      (reduce? tolerance s).map fun x => x.map Guarded.value := by
  induction n with
  | zero =>
    rw [reduce?, reduce?, Option.map_some]
    exact congrArg some Vector.eq_empty.symm
  | succ n ih =>
    rw [reduce?_eq, reduce?_eq, pivot_guarded, swap_guarded]
    generalize s.swap 0 (pivot s) (Nat.succ_pos n) (pivot s).isLt = t
    have hsmall_iff : Scalar.abs (Guarded.value (t.get 0).lead) ≤ .value tolerance ↔
        Scalar.abs (t.get 0).lead ≤ tolerance := Iff.rfl
    simp only [get_guarded, Equation.lead_guarded, hsmall_iff]
    split_ifs with hsmall
    · rfl
    · have hlead : (t.get 0).lead ≠ 0 := lead_ne_zero htolerance hsmall
      have hrest : (Vector.ofFn fun i : Fin n =>
          (t.get 0).guarded.eliminate (t.get i.succ).guarded) =
            guarded (Vector.ofFn fun i : Fin n => (t.get 0).eliminate (t.get i.succ)) := by
        ext k hk
        unfold guarded
        simp only [Vector.getElem_ofFn, Vector.getElem_map, Equation.eliminate_guarded hlead]
      rw [hrest, ih, Option.map_map, Option.map_map]
      refine congrArg (Option.map · _) (funext fun others => ?_)
      have hunknown := Equation.substitute_guarded hlead others
      simp only [Function.comp_apply, hunknown, map_cast_append]

/-- What is computed from undefined coefficients alone is not given up. -/
theorem exists_reduce?_of_undefined (tolerance : Guarded ℝ) {s : System (Guarded ℝ) n}
    (h : ∀ e ∈ s, ∀ (k : Nat) (hk : k < n), e.coefficients[k] = .undefined) :
    ∃ x, reduce? tolerance s = some x := by
  induction n with
  | zero => exact ⟨_, by rw [reduce?]⟩
  | succ n ih =>
    rw [reduce?_eq]
    have ht : ∀ e ∈ s.swap 0 (pivot s) (Nat.succ_pos n) (pivot s).isLt,
        ∀ (k : Nat) (hk : k < n + 1), e.coefficients[k] = .undefined := fun e he =>
      h e ((Vector.swap_perm _ _).mem_iff.mp he)
    generalize s.swap 0 (pivot s) (Nat.succ_pos n) (pivot s).isLt = t at ht
    have hlead : (t.get 0).lead = .undefined := ht _ (Vector.getElem_mem _) 0 n.succ_pos
    obtain ⟨others, hothers⟩ := ih
      (s := Vector.ofFn fun i : Fin n => (t.get 0).eliminate (t.get i.succ)) fun e he k hk => by
        obtain ⟨i, rfl⟩ := Vector.mem_ofFn.mp he
        have hentry := ht (t.get i.succ) (Vector.getElem_mem _) (k + 1) (Nat.succ_lt_succ hk)
        simp only [Equation.eliminate, Vector.getElem_ofFn, hentry]
        rfl
    have hlarge : ¬Scalar.abs (t.get 0).lead ≤ tolerance := by
      rw [hlead]
      exact not_false
    exact ⟨_, (if_neg hlarge).trans (by rw [hothers, Option.map_some])⟩

/-- A division by zero is seen: if no equation has the first unknown, but the tolerance lets this
pass, then the first unknown is left undefined. -/
theorem reduce?_of_lead_eq_zero {tolerance : ℝ} (htolerance : tolerance < 0)
    {s : System ℝ (n + 1)} (h : ∀ e ∈ s, e.lead = 0) :
    ∃ x, reduce? (.value tolerance) (guarded s) = some x ∧ x.get 0 = .undefined := by
  have ht : ∀ e ∈ s.swap 0 (pivot s) (Nat.succ_pos n) (pivot s).isLt, e.lead = 0 := fun e he =>
    h e ((Vector.swap_perm _ _).mem_iff.mp he)
  rw [reduce?_eq, pivot_guarded, swap_guarded]
  generalize s.swap 0 (pivot s) (Nat.succ_pos n) (pivot s).isLt = t at ht
  have hlead : ((guarded t).get 0).lead = .value 0 := by
    rw [get_guarded, Equation.lead_guarded, ht (t.get 0) (Vector.getElem_mem _)]
  have hlarge : ¬Scalar.abs ((guarded t).get 0).lead ≤ .value tolerance := by
    rw [hlead]
    show ¬|(0 : ℝ)| ≤ tolerance
    rwa [abs_zero, not_le]
  obtain ⟨others, hothers⟩ := exists_reduce?_of_undefined (.value tolerance)
    (s := Vector.ofFn fun i : Fin n => ((guarded t).get 0).eliminate ((guarded t).get i.succ))
    fun e he k hk => by
      obtain ⟨i, rfl⟩ := Vector.mem_ofFn.mp he
      simp only [Equation.eliminate, Vector.getElem_ofFn, hlead, div_value_zero]
      cases ((guarded t).get i.succ).coefficients[k + 1] <;> rfl
  refine ⟨_, (if_neg hlarge).trans (by rw [hothers, Option.map_some]), ?_⟩
  have hfirst : ((guarded t).get 0).substitute others = .undefined := by
    rw [Equation.substitute, hlead, div_value_zero]
  simpa [Vector.get_eq_getElem] using hfirst

theorem scale_guarded (s : System ℝ n) : scale (guarded s) = .value s.scale := by
  refine foldl_value (fun x i => ?_) 0.0
  have hentry : (guarded s)[i].coefficients[i] = .value s[i].coefficients[i] := by
    unfold guarded
    simp only [Fin.getElem_fin, Vector.getElem_map, Equation.getElem_guarded]
  rw [hentry]
  exact larger_value _ _

/-- **Division.** Solving over guarded numbers does the same, so no divisor is zero. -/
theorem solve?_guarded (s : System ℝ n) :
    solve? (guarded s) = s.solve?.map fun x => x.map Guarded.value := by
  have hzero : (Guarded.value s.scale == 0.0) = (s.scale == 0.0) := by
    exact Bool.decide_coe _
  have hfinite : Scalar.isFinite (Guarded.value s.scale) = Scalar.isFinite s.scale := rfl
  unfold solve?
  rw [scale_guarded]
  simp only [hzero, hfinite]
  split_ifs with hgiven
  · rfl
  · have hreduce : reduce? (Guarded.value s.scale * 1e-10) (guarded s) =
        (reduce? (s.scale * 1e-10) s).map fun x => x.map Guarded.value :=
      reduce?_guarded s.tolerance_nonneg s
    rw [hreduce]
    cases reduce? (s.scale * 1e-10) s with
    | none => rfl
    | some x => simp [Scalar.isFinite]

/-- **Exact solving.** What is returned is the one solution of the system as it was given, and then
the matrix of the system is invertible; a system with a singular matrix is given up. No division on
the way has the divisor zero: over numbers of which a quotient by zero is undefined, and stays so,
the answer is the same. A system that is given up is no exception. A divisor of zero leaves the
coefficients behind it undefined, such a system is never given up (`exists_reduce?_of_undefined`),
and its answer would have an undefined entry (`reduce?_of_lead_eq_zero`). -/
theorem solve?_exact (s : System ℝ n) :
    (∀ x, s.solve? = some x →
      IsUnit s.matrix ∧ ∀ y : Fin n → ℝ, s.matrix *ᵥ y = s.constants ↔ y = x.get) ∧
    (¬IsUnit s.matrix → s.solve? = none) ∧
    solve? (guarded s) = s.solve?.map fun x => x.map Guarded.value := by
  have hsome : ∀ x, s.solve? = some x →
      IsUnit s.matrix ∧ ∀ y : Fin n → ℝ, s.matrix *ᵥ y = s.constants ↔ y = x.get := by
    intro x hx
    have hunique : ∀ y : Fin n → ℝ, s.matrix *ᵥ y = s.constants ↔ y = x.get := fun y =>
      (mulVec_eq_iff_solves s y).trans (solve?_eq_some hx y)
    exact ⟨isUnit_matrix hunique, hunique⟩
  refine ⟨hsome, fun hsingular => ?_, solve?_guarded s⟩
  exact Option.eq_none_iff_forall_ne_some.mpr fun x hx => hsingular (hsome x hx).1

end System

end PenTouch.Linear
