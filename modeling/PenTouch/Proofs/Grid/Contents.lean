import Mathlib.Tactic.SplitIfs
import PenTouch.Proofs.Grid.Scan
import PenTouch.Raster

/-!
# The contents of a raster

A raster that has been made, filled, resized and written to in any order is a map: each of its cells
holds what was last written to it, where a change of the dimensions writes the initial value to all
cells. This is so as long as no product of rows and columns wraps around (`Operation.Fits`), and
`wrapped_product_accepted` shows that it need not be so otherwise.

1. `Operation.shape`, `Operation.written?`: what one operation makes of the dimensions, and what it
   writes to a cell. `shape` and `lastWritten` tell the same of a history.
2. `get?_operate`: the step, a cell of a grid holds what the operation writes to it, or else what it
   held before. By induction, it holds what was last written (`get?_ofHistory`).
3. `indexed_eq_scan`: the cells are listed row after row, each of them once.
4. `operate_raster`, `ofHistory_raster`: what fits does to a raster what it does to a grid.
-/

namespace PenTouch

variable {α : Type}

/-! ## Operations -/

inductive Operation (α : Type) where
  /-- A new raster takes its place. -/
  | new (rows cols : Nat)
  /-- A raster of the given samples takes its place, if their number is right. -/
  | ofSamples (rows cols : Nat) (samples : Array α)
  | set (p : Cell) (value : α)
  | fill (value : α)
  | resize (rows cols : Nat)

/-- The rows and columns that the operation names have a product that does not wrap around. -/
def Operation.Fits : Operation α → Prop
  | new rows cols => rows * cols < Word.limit
  | ofSamples rows cols _ => rows * cols < Word.limit
  | set _ _ => True
  | fill _ => True
  | resize rows cols => rows * cols < Word.limit

instance : (op : Operation α) → Decidable op.Fits
  | .new rows cols => inferInstanceAs (Decidable (rows * cols < Word.limit))
  | .ofSamples rows cols _ => inferInstanceAs (Decidable (rows * cols < Word.limit))
  | .set _ _ => inferInstanceAs (Decidable True)
  | .fill _ => inferInstanceAs (Decidable True)
  | .resize rows cols => inferInstanceAs (Decidable (rows * cols < Word.limit))

namespace Raster

/-- The raster after an operation; samples that are not written to hold the initial value. -/
def operate (initial : α) (r : Raster α) : Operation α → Except Panic (Raster α)
  | .new rows cols => .ok (replicate rows cols initial)
  | .ofSamples rows cols samples => .ok ((ofSamples? rows cols samples).getD r)
  | .set p value => r.set p value
  | .fill value => .ok (r.fill value)
  | .resize rows cols => .ok (r.resize rows cols initial).1

/-- The raster after a history of operations, the latest of which comes first. -/
def ofHistory (initial : α) : List (Operation α) → Except Panic (Raster α)
  | [] => .ok empty
  | op :: past => do operate initial (← ofHistory initial past) op

end Raster

namespace Grid

/-- The grid after an operation. -/
def operate (initial : α) (g : Grid α) : Operation α → Grid α
  | .new rows cols => replicate rows cols initial
  | .ofSamples rows cols samples =>
    if h : samples.size = rows * cols then ⟨rows, cols, samples, h⟩ else g
  | .set p value => g.set p value
  | .fill value => g.fill value
  | .resize rows cols => (g.resize rows cols initial).1

def ofHistory (initial : α) : List (Operation α) → Grid α
  | [] => empty
  | op :: past => operate initial (ofHistory initial past) op

end Grid

/-! ## What a history tells -/

/-- The rows and columns after an operation, from the old ones. -/
def Operation.shape (old : Nat × Nat) : Operation α → Nat × Nat
  | new rows cols => (rows, cols)
  | ofSamples rows cols samples => if samples.size = rows * cols then (rows, cols) else old
  | set _ _ => old
  | fill _ => old
  | resize rows cols => (rows, cols)

/-- What an operation writes to a cell, where there were the old rows and columns. -/
def Operation.written? (initial : α) (old : Nat × Nat) (p : Cell) : Operation α → Option α
  | new _ _ => some initial
  | ofSamples rows cols samples =>
    if samples.size = rows * cols then samples[p.row * cols + p.col]? else none
  | set q value => if q = p then some value else none
  | fill value => some value
  | resize rows cols => if (rows, cols) = old then none else some initial

namespace Grid

/-- The rows and columns after a history. -/
def shape : List (Operation α) → Nat × Nat
  | [] => (0, 0)
  | op :: past => op.shape (shape past)

/-- What was last written to a cell in a history. -/
def lastWritten (initial : α) (p : Cell) : List (Operation α) → α
  | [] => initial
  | op :: past => (op.written? initial (shape past) p).getD (lastWritten initial p past)

/-- The values of `f` at the cells of a rectangle, row after row. -/
def scan (rows cols : Nat) (f : Cell → α) : List (Cell × α) :=
  (List.range rows).flatMap fun row => (List.range cols).map fun col => (⟨row, col⟩, f ⟨row, col⟩)

/-! ## One operation -/

variable {g : Grid α} {p : Cell}

theorem get?_eq_ite (g : Grid α) (p : Cell) :
    g.get? p =
      if p.row < g.rows ∧ p.col < g.cols then g.cells[p.row * g.cols + p.col]? else none := by
  unfold get? index?
  split_ifs <;> rfl

theorem get?_replicate {rows cols : Nat} (h : p.row < rows ∧ p.col < cols) (v : α) :
    (replicate rows cols v).get? p = some v := by
  have hfill := get?_fill (replicate rows cols v) p v
  rw [if_pos (get?_isSome.mpr h)] at hfill
  exact hfill

theorem shape_operate (initial : α) (g : Grid α) (op : Operation α) :
    ((operate initial g op).rows, (operate initial g op).cols) = op.shape (g.rows, g.cols) := by
  cases op with
  | new rows cols => rfl
  | ofSamples rows cols samples =>
    by_cases h : samples.size = rows * cols <;> simp [operate, Operation.shape, h]
  | set q value => simp [operate, Operation.shape]
  | fill value => rfl
  | resize rows cols => simp [operate, Operation.shape]

/-- A cell holds what an operation writes to it, or else what it held before. -/
theorem get?_operate (initial : α) (g : Grid α) (op : Operation α)
    (h : p.row < (operate initial g op).rows ∧ p.col < (operate initial g op).cols) :
    (operate initial g op).get? p =
      (op.written? initial (g.rows, g.cols) p).or (g.get? p) := by
  cases op with
  | new rows cols => exact get?_replicate h initial
  | ofSamples rows cols samples =>
    by_cases hsize : samples.size = rows * cols
    · have hsome := get?_isSome.mpr h
      simp only [operate, hsize, dite_true, get?_eq_ite, Operation.written?, if_true] at h hsome ⊢
      rw [if_pos h] at hsome ⊢
      exact (Option.or_of_isSome hsome).symm
    · simp [operate, Operation.written?, hsize]
  | set q value =>
    have hin : (g.get? p).isSome := get?_isSome.mpr (by simpa [operate] using h)
    by_cases hq : q = p <;> simp [operate, Operation.written?, get?_set, hq, hin]
  | fill value =>
    have hin : (g.get? p).isSome := get?_isSome.mpr h
    simp [operate, Operation.written?, get?_fill, hin]
  | resize rows cols =>
    by_cases hsame : g.rows = rows ∧ g.cols = cols
    · simp [operate, Operation.written?, resize, hsame]
    · have hne : (rows, cols) ≠ (g.rows, g.cols) := fun e => hsame (by simp_all)
      simp only [operate, resize, if_neg hsame, Operation.written?, if_neg hne] at h ⊢
      exact get?_replicate h initial

/-! ## Histories -/

theorem shape_ofHistory (initial : α) (past : List (Operation α)) :
    ((ofHistory initial past).rows, (ofHistory initial past).cols) = shape past := by
  induction past with
  | nil => rfl
  | cons op past ih => rw [ofHistory, shape_operate, ih, shape]

theorem get?_ofHistory (initial : α) (past : List (Operation α))
    (h : p.row < (ofHistory initial past).rows ∧ p.col < (ofHistory initial past).cols) :
    (ofHistory initial past).get? p = some (lastWritten initial p past) := by
  induction past with
  | nil => exact absurd h.1 (Nat.not_lt_zero _)
  | cons op past ih =>
    have hsome := get?_isSome.mpr h
    have hstep := get?_operate initial (ofHistory initial past) op h
    rw [shape_ofHistory] at hstep
    rw [ofHistory] at hsome ⊢
    rw [hstep] at hsome ⊢
    unfold lastWritten
    cases hwritten : op.written? initial (shape past) p with
    | some v => rfl
    | none =>
      -- The cell was there before, since its value comes from there.
      rw [hwritten, Option.none_or] at hsome
      exact ih (get?_isSome.mp hsome)

/-! ## The list of the cells -/

theorem mem_scan {rows cols : Nat} {f : Cell → α} {v : α} :
    (p, v) ∈ scan rows cols f ↔ (p.row < rows ∧ p.col < cols) ∧ f p = v := by
  obtain ⟨row, col⟩ := p
  simp only [scan, List.mem_flatMap, List.mem_range, List.mem_map, Prod.mk.injEq, Cell.mk.injEq]
  constructor
  · rintro ⟨i, hi, j, hj, ⟨rfl, rfl⟩, rfl⟩
    exact ⟨⟨hi, hj⟩, rfl⟩
  · rintro ⟨⟨hrow, hcol⟩, rfl⟩
    exact ⟨row, hrow, col, hcol, ⟨rfl, rfl⟩, rfl⟩

theorem pairwise_scan (rows cols : Nat) (f : Cell → α) :
    (scan rows cols f).Pairwise fun a b => a.1.before b.1 = true := by
  unfold scan
  rw [List.pairwise_flatMap]
  constructor
  · intro row _
    rw [List.pairwise_map]
    refine List.pairwise_lt_range.imp fun {j k} hjk => ?_
    exact Cell.before_iff.mpr (Or.inr ⟨rfl, hjk⟩)
  · refine List.pairwise_lt_range.imp fun {i j} hij a ha b hb => ?_
    obtain ⟨k, -, rfl⟩ := List.mem_map.mp ha
    obtain ⟨l, -, rfl⟩ := List.mem_map.mp hb
    exact Cell.before_iff.mpr (Or.inl hij)

theorem nodup_of_pairwise_before {l : List (Cell × α)}
    (h : l.Pairwise fun a b => a.1.before b.1 = true) : l.Nodup := by
  rw [List.nodup_iff_pairwise_ne]
  refine h.imp fun {a b} hab heq => ?_
  exact Cell.not_before_self b.1 (heq ▸ hab)

/-- Row after row, each cell is listed once. -/
theorem indexed_eq_scan {f : Cell → α}
    (h : ∀ p : Cell, p.row < g.rows ∧ p.col < g.cols → g.get? p = some (f p)) :
    g.indexed = scan g.rows g.cols f := by
  have hmem : ∀ e, e ∈ g.indexed ↔ e ∈ scan g.rows g.cols f := by
    rintro ⟨p, v⟩
    rw [mem_indexed, mem_scan]
    by_cases hp : p.row < g.rows ∧ p.col < g.cols
    · simp [h p hp, hp]
    · simp [get?_eq_none.mpr hp, hp]
  have hperm : g.indexed.Perm (scan g.rows g.cols f) :=
    (List.perm_ext_iff_of_nodup (nodup_of_pairwise_before g.pairwise_indexed)
      (nodup_of_pairwise_before (pairwise_scan ..))).mpr hmem
  refine hperm.eq_of_pairwise (fun a b _ _ hab hba => ?_) g.pairwise_indexed (pairwise_scan ..)
  exact absurd (Cell.before_trans hab hba) (Cell.not_before_self a.1)

/-! ## Rasters -/

/-- An operation that fits does to the raster of a grid what it does to the grid. -/
theorem operate_raster (initial : α) (h : g.rows * g.cols < Word.limit) {op : Operation α}
    (hop : op.Fits) : g.raster.operate initial op = .ok (g.operate initial op).raster := by
  cases op with
  | new rows cols => exact congrArg Except.ok (replicate_raster hop initial)
  | ofSamples rows cols samples =>
    have hmul : Word.mul rows cols = rows * cols := Word.mul_of_lt hop
    by_cases hsize : samples.size = rows * cols
    · simp [Raster.operate, Raster.ofSamples?, operate, hmul, hsize, raster]
    · simp [Raster.operate, Raster.ofSamples?, operate, hmul, hsize]
  | set p value => exact set_raster h p value
  | fill value => exact congrArg Except.ok (fill_raster g value)
  | resize rows cols => exact congrArg (Except.ok ·.1) (resize_raster hop g initial)

theorem mul_operate_lt (initial : α) (h : g.rows * g.cols < Word.limit) {op : Operation α}
    (hop : op.Fits) : (g.operate initial op).rows * (g.operate initial op).cols < Word.limit := by
  have hshape := shape_operate initial g op
  cases op with
  | new rows cols => exact hop
  | ofSamples rows cols samples =>
    unfold operate
    dsimp only
    split
    · exact hop
    · exact h
  | set p value => simpa [operate] using h
  | fill value => exact h
  | resize rows cols => simpa [operate] using (show rows * cols < Word.limit from hop)

theorem ofHistory_raster (initial : α) {past : List (Operation α)} (h : ∀ op ∈ past, op.Fits) :
    Raster.ofHistory initial past = .ok (ofHistory initial past).raster ∧
      (ofHistory initial past).rows * (ofHistory initial past).cols < Word.limit := by
  induction past with
  | nil => exact ⟨rfl, (by decide : 0 * 0 < Word.limit)⟩
  | cons op past ih =>
    obtain ⟨heq, hlt⟩ := ih fun op hop => h op (List.mem_cons_of_mem _ hop)
    have hop := h op List.mem_cons_self
    refine ⟨?_, mul_operate_lt initial hlt hop⟩
    rw [Raster.ofHistory, heq]
    exact operate_raster initial hlt hop

end Grid

namespace Raster

open Grid (shape lastWritten scan)

/-- **Contents.** After any history in which no product of rows and columns wraps around, a raster
has as many samples as rows and columns make, and each of its cells holds what was last written to
it; there is nothing outside. Writing outside changes nothing, and neither does a change to the same
dimensions. The cells are listed row after row, each of them once with its value. -/
theorem contents_of_history (initial : α) (past : List (Operation α)) (h : ∀ op ∈ past, op.Fits) :
    ∃ r, ofHistory initial past = .ok r ∧ (r.rows, r.cols) = shape past ∧
      r.samples.size = r.rows * r.cols ∧
      (∀ p : Cell, r.get p = .ok
        (if p.row < r.rows ∧ p.col < r.cols then some (lastWritten initial p past) else none)) ∧
      (∀ (p : Cell) (v : α), ¬(p.row < r.rows ∧ p.col < r.cols) → r.set p v = .ok r) ∧
      r.resize r.rows r.cols initial = (r, false) ∧
      r.indexed = scan r.rows r.cols fun p => lastWritten initial p past := by
  obtain ⟨heq, hlt⟩ := Grid.ofHistory_raster initial h
  have hcells := fun p => Grid.get?_ofHistory (p := p) initial past
  have hshape := Grid.shape_ofHistory initial past
  generalize Grid.ofHistory initial past = g at heq hlt hcells hshape
  refine ⟨g.raster, heq, hshape, g.size_cells, fun p => ?_, fun p v hp => if_neg hp,
    if_pos ⟨rfl, rfl⟩, g.indexed_raster.trans (Grid.indexed_eq_scan hcells)⟩
  rw [Grid.get_raster hlt]
  refine congrArg Except.ok ?_
  split_ifs with hp
  · exact hcells p hp
  · exact Grid.get?_eq_none.mpr hp

/-- A cell that was written before the dimensions were changed and changed back has lost its value;
one that was written since has kept it. -/
theorem contents_of_history_resized :
    let past : List (Operation Nat) :=
      [.resize 2 1, .set ⟨5, 5⟩ 9, .set ⟨1, 0⟩ 8, .resize 2 1, .resize 0 3, .set ⟨0, 0⟩ 7, .new 2 1]
    ∃ r, ofHistory 0 past = .ok r ∧ r.get ⟨0, 0⟩ = .ok (some 0) ∧ r.get ⟨1, 0⟩ = .ok (some 8) ∧
      r.get ⟨5, 5⟩ = .ok none ∧ r.indexed = [(⟨0, 0⟩, 0), (⟨1, 0⟩, 8)] := by
  intro past
  have hfits : ∀ op ∈ past, op.Fits := by decide
  obtain ⟨r, hr, hshape, -, hget, -, -, hindexed⟩ := contents_of_history 0 past hfits
  obtain ⟨hrows, hcols⟩ := Prod.mk.inj hshape
  refine ⟨r, hr, ?_, ?_, ?_, ?_⟩
  · rw [hget, hrows, hcols]
    rfl
  · rw [hget, hrows, hcols]
    rfl
  · rw [hget, hrows, hcols]
    rfl
  · rw [hindexed, hrows, hcols]
    rfl

/-- **A wrapped product.** No samples at all are accepted where the product of rows and columns is
`Word.limit`, and then there is no first cell to read. -/
theorem wrapped_product_accepted :
    ¬∀ (past : List (Operation Nat)) (r : Raster Nat), ofHistory 0 past = .ok r →
      r.samples.size = r.rows * r.cols ∧ ∀ p, ∃ v, r.get p = .ok v := by
  intro h
  let side := Nat.pow 2 32
  have hmul : Word.mul side side = 0 := by decide
  have hr : ofHistory 0 [.ofSamples side side #[]] = .ok ⟨side, side, #[]⟩ := by
    show Except.ok ((ofSamples? side side #[]).getD empty) = _
    unfold ofSamples?
    rw [hmul]
    rfl
  obtain ⟨v, hv⟩ := (h _ _ hr).2 ⟨0, 0⟩
  have hget : get ⟨side, side, (#[] : Array Nat)⟩ ⟨0, 0⟩ = .error ⟨0, 0⟩ := rfl
  rw [hget] at hv
  cases hv

end Raster

end PenTouch
