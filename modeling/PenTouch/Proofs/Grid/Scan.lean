import Mathlib.Data.List.Pairwise
import PenTouch.Grid

/-!
# The scan of a grid

`Grid.indexed` lists the cells of a grid with their values (`mem_indexed`), each after the cells
that come before it (`pairwise_indexed`). So a scan that has come to a cell has passed just the
cells before it (`before_of_passed`, `passed_of_before`).
-/

namespace PenTouch

/-! ## The order of the cells -/

namespace Cell

variable {p q r : Cell}

theorem before_iff : p.before q = true ↔ p.row < q.row ∨ p.row = q.row ∧ p.col < q.col := by
  simp [before]

theorem not_before_self (p : Cell) : ¬p.before p = true := by
  rw [before_iff]; omega

theorem before_trans (h : p.before q = true) (h' : q.before r = true) : p.before r = true := by
  rw [before_iff] at *; omega

theorem before_or_eq_or_before (p q : Cell) :
    p.before q = true ∨ p = q ∨ q.before p = true := by
  obtain ⟨i, j⟩ := p
  obtain ⟨k, l⟩ := q
  rw [before_iff, before_iff, Cell.mk.injEq]
  show (i < k ∨ i = k ∧ j < l) ∨ (i = k ∧ j = l) ∨ k < i ∨ k = i ∧ l < j
  omega

end Cell

namespace Grid

variable {α : Type} {g : Grid α} {p : Cell} {i j : Nat} {v : α}

/-! ## Places in scan order -/

theorem exists_index? (h : g.get? p = some v) : ∃ i, g.index? p = some i ∧ g.cells[i]? = some v :=
  Option.bind_eq_some_iff.mp h

theorem cellAt_of_index? (h : g.index? p = some i) : g.cellAt i = p := by
  unfold index? at h
  split at h
  · rename_i hp
    obtain rfl : p.row * g.cols + p.col = i := Option.some.inj h
    have hc : max g.cols 1 = g.cols := by omega
    have hrow : (p.row * g.cols + p.col) / g.cols = p.row := by
      rw [Nat.mul_comm, Nat.mul_add_div (by omega), Nat.div_eq_of_lt hp.2, Nat.add_zero]
    have hcol : (p.row * g.cols + p.col) % g.cols = p.col := by
      rw [Nat.mul_comm, Nat.mul_add_mod, Nat.mod_eq_of_lt hp.2]
    unfold cellAt
    rw [hc, hrow, hcol]
  · cases h

theorem index?_cellAt (h : i < g.cells.size) : g.index? (g.cellAt i) = some i := by
  rw [g.size_cells] at h
  have hc : 0 < g.cols := Nat.pos_of_ne_zero fun hc => by simp [hc] at h
  have hmax : max g.cols 1 = g.cols := by omega
  have hrow : i / g.cols < g.rows := Nat.div_lt_of_lt_mul (by rwa [Nat.mul_comm] at h)
  unfold index? cellAt
  rw [hmax, if_pos ⟨hrow, Nat.mod_lt i hc⟩, Nat.div_add_mod']

/-- Later places hold later cells. -/
theorem cellAt_before (hij : i < j) : (g.cellAt i).before (g.cellAt j) = true := by
  unfold cellAt
  rw [Cell.before_iff]
  generalize hc : max g.cols 1 = c
  have hle : i / c ≤ j / c := Nat.div_le_div_right (Nat.le_of_lt hij)
  rcases Nat.lt_or_eq_of_le hle with h | h
  · exact Or.inl h
  · refine Or.inr ⟨h, ?_⟩
    have hi := Nat.div_add_mod i c
    have hj := Nat.div_add_mod j c
    rw [← h] at hj
    show i % c < j % c
    omega

/-! ## The cells in scan order -/

theorem mem_indexed : (p, v) ∈ g.indexed ↔ g.get? p = some v := by
  unfold indexed
  rw [List.mem_map]
  constructor
  · rintro ⟨⟨w, i⟩, hmem, heq⟩
    obtain ⟨hcell, rfl⟩ := Prod.mk.inj heq
    have hi : g.cells[i]? = some w := by
      rw [← Array.getElem?_toList]
      exact List.mem_zipIdx_iff_getElem?.mp hmem
    have hsize : i < g.cells.size := (Array.getElem?_eq_some_iff.mp hi).1
    rw [← hcell, get?_eq (index?_cellAt hsize)]
    exact hi
  · intro h
    obtain ⟨i, hp, hi⟩ := exists_index? h
    refine ⟨(v, i), List.mem_zipIdx_iff_getElem?.mpr ?_, ?_⟩
    · rw [Array.getElem?_toList]
      exact hi
    · exact congrArg (·, v) (cellAt_of_index? hp)

theorem length_indexed (g : Grid α) : g.indexed.length = g.rows * g.cols := by
  simp [indexed, g.size_cells]

theorem pairwise_indexed (g : Grid α) :
    g.indexed.Pairwise fun a b => a.1.before b.1 = true := by
  unfold indexed
  rw [List.pairwise_map, List.pairwise_iff_getElem]
  intro i j hi hj hij
  rw [List.getElem_zipIdx, List.getElem_zipIdx]
  exact cellAt_before (by omega)

section Passed

variable {passed rest : List (Cell × α)} (h : g.indexed = passed ++ (p, v) :: rest)

include h

theorem get?_of_indexed : g.get? p = some v := by
  rw [← mem_indexed, h]
  exact List.mem_append_right passed List.mem_cons_self

/-- What a scan has passed comes before the cell that it has come to. -/
theorem before_of_passed {q : Cell} (hq : q ∈ passed.map (·.1)) : q.before p = true := by
  have hpairs := g.pairwise_indexed
  rw [h] at hpairs
  obtain ⟨-, -, hbefore⟩ := List.pairwise_append.mp hpairs
  obtain ⟨e, he, rfl⟩ := List.mem_map.mp hq
  exact hbefore e he (p, v) List.mem_cons_self

/-- A scan has passed every cell before the one that it has come to. -/
theorem passed_of_before {q : Cell} {w : α} (hq : g.get? q = some w) (hqp : q.before p = true) :
    q ∈ passed.map (·.1) := by
  have hpairs := g.pairwise_indexed
  rw [h] at hpairs
  obtain ⟨-, hafter, -⟩ := List.pairwise_append.mp hpairs
  have hmem : (q, w) ∈ passed ++ (p, v) :: rest := by
    rw [← h, mem_indexed]
    exact hq
  rcases List.mem_append.mp hmem with hmem | hmem
  · exact List.mem_map_of_mem (f := (·.1)) hmem
  · rcases List.mem_cons.mp hmem with heq | hmem
    · cases heq
      exact absurd hqp (Cell.not_before_self p)
    · have hpq := List.rel_of_pairwise_cons hafter hmem
      exact absurd (Cell.before_trans hpq hqp) (Cell.not_before_self p)

end Passed

end Grid

end PenTouch
