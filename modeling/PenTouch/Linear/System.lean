import PenTouch.Scalar

/-!
# Systems of linear equations

`System.solve?` eliminates one unknown after the other, each time with the equation in which it
has the largest coefficient. Eliminating the first unknown of `n + 1` equations leaves `n`
equations in the others; their solution is substituted back.

A system is given up when its diagonal is zero or not finite, when a leading coefficient is too
small beside the diagonal, or when the solution is not finite.
-/

namespace PenTouch.Linear

variable {α : Type} [Scalar α]

/-- A linear equation in `n` unknowns. -/
structure Equation (α : Type) (n : Nat) where
  coefficients : Vector α n
  constant : α

abbrev System (α : Type) (n : Nat) := Vector (Equation α n) n

namespace Equation

/-- The coefficient of the first unknown. -/
def lead {n : Nat} (e : Equation α (n + 1)) : α := e.coefficients[0]

/-- The equation `e` less the multiple of `p` that cancels its first unknown. -/
def eliminate {n : Nat} (p e : Equation α (n + 1)) : Equation α n :=
  let factor := e.lead / p.lead
  { coefficients := Vector.ofFn fun k : Fin n =>
      e.coefficients[k.val + 1] - factor * p.coefficients[k.val + 1]
    constant := e.constant - factor * p.constant }

/-- The first unknown, once the others are known. -/
def substitute {n : Nat} (e : Equation α (n + 1)) (others : Vector α n) : α :=
  Fin.foldl n (fun sum k => sum - e.coefficients[k.val + 1] * others[k]) e.constant / e.lead

end Equation

namespace System

/-- The place of the equation with the largest leading coefficient; of equally large ones, the
last. -/
def pivot {n m : Nat} (s : Vector (Equation α (n + 1)) (m + 1)) : Fin (m + 1) :=
  Fin.foldl (m + 1) (fun best i =>
    if Scalar.order (Scalar.abs s[best].lead) (Scalar.abs s[i].lead) = .gt then best else i) 0

/-- The solution of a system whose leading coefficients all exceed `tolerance`. -/
def reduce? (tolerance : α) : {n : Nat} → System α n → Option (Vector α n)
  | 0, _ => some #v[]
  | n + 1, s => do
    let t := s.swap 0 (pivot s) (Nat.succ_pos n) (pivot s).isLt
    let p := t[0]
    if Scalar.abs p.lead ≤ tolerance then none
    else
      let others ← reduce? tolerance (Vector.ofFn fun i : Fin n => p.eliminate t[i.val + 1])
      some ((#v[p.substitute others] ++ others).cast (Nat.add_comm 1 n))

/-- The largest magnitude on the diagonal. -/
def scale {n : Nat} (s : System α n) : α :=
  Fin.foldl n (fun largest i => Scalar.larger largest (Scalar.abs s[i].coefficients[i])) 0.0

/-- The solution of a system, unless it is singular or close to it. -/
def solve? {n : Nat} (s : System α n) : Option (Vector α n) := do
  if s.scale == 0.0 ∨ ¬Scalar.isFinite s.scale then none
  else
    let x ← reduce? (s.scale * 1e-10) s
    if x.all Scalar.isFinite then some x else none

end System

end PenTouch.Linear
