/-!
# Grids

A grid holds one value for each of `rows × cols` cells, row after row. Its view is `get?`: reading
a cell outside the grid gives nothing, and writing one changes nothing. The number of cells is taken
to be a word; `Raster` has what there is otherwise.

* `get?_set`: a cell holds what was last written to it.
* `get?_fill`, `get?_ofFn`: what filling and tabulating leave in each cell.
* `overwrite_resize`: what writing over all cells leaves in each cell.
* `count_set`: writing a cell moves it between those counted and those not.
-/

namespace PenTouch

/-- A value for each cell of a rectangle, row after row. -/
structure Grid (α : Type) where
  rows : Nat
  cols : Nat
  cells : Array α
  size_cells : cells.size = rows * cols

/-- A place in a grid. -/
structure Cell where
  row : Nat
  col : Nat
  deriving DecidableEq, Repr

/-- The scan order: row after row, and along each row. -/
def Cell.before (p q : Cell) : Bool :=
  p.row < q.row || (p.row == q.row && p.col < q.col)

namespace Grid

variable {α β : Type}

/-! ## Construction -/

/-- The grid that holds `value` in every cell. -/
def replicate (rows cols : Nat) (value : α) : Grid α :=
  ⟨rows, cols, Array.replicate (rows * cols) value, Array.size_replicate⟩

def empty : Grid α := ⟨0, 0, #[], by simp⟩

instance : Inhabited (Grid α) := ⟨empty⟩

/-- The grid whose `i`-th cell in scan order is `f i`. -/
def ofFn (rows cols : Nat) (f : Nat → α) : Grid α :=
  ⟨rows, cols, Array.ofFn fun i : Fin (rows * cols) => f i, Array.size_ofFn⟩

def map (f : α → β) (g : Grid α) : Grid β :=
  ⟨g.rows, g.cols, g.cells.map f, by rw [Array.size_map, g.size_cells]⟩

/-! ## Cells -/

/-- The cell's place in scan order, if it lies in the grid. -/
def index? (g : Grid α) (p : Cell) : Option Nat :=
  if p.row < g.rows ∧ p.col < g.cols then some (p.row * g.cols + p.col) else none

/-- The value of a cell; nothing outside the grid. -/
def get? (g : Grid α) (p : Cell) : Option α :=
  (g.index? p).bind fun i => g.cells[i]?

/-- The grid with a new value in one cell; a cell outside is ignored. -/
def set (g : Grid α) (p : Cell) (value : α) : Grid α :=
  match g.index? p with
  | none => g
  | some i => { g with
      cells := g.cells.setIfInBounds i value
      size_cells := by rw [Array.size_setIfInBounds, g.size_cells] }

def fill (g : Grid α) (value : α) : Grid α := replicate g.rows g.cols value

/-- The grid with other dimensions and whether they differ from the old ones. A grid that changes
loses its cells to `value`. -/
def resize (g : Grid α) (rows cols : Nat) (value : α) : Grid α × Bool :=
  if g.rows = rows ∧ g.cols = cols then (g, false) else (replicate rows cols value, true)

/-- The grid after its cells have been written over in scan order, the `i`-th one with `f i`. -/
def overwrite (g : Grid α) (f : Nat → α) : Grid α :=
  ⟨g.rows, g.cols, g.cells.mapIdx fun i _ => f i, by rw [Array.size_mapIdx, g.size_cells]⟩

/-- The `i`-th cell in scan order. -/
def cellAt (g : Grid α) (i : Nat) : Cell := ⟨i / max g.cols 1, i % max g.cols 1⟩

/-- All cells with their values, in scan order. -/
def indexed (g : Grid α) : List (Cell × α) :=
  g.cells.toList.zipIdx.map fun (value, i) => (g.cellAt i, value)

def count (g : Grid α) (p : α → Bool) : Nat := g.cells.countP p

/-! ## The view -/

theorem index?_lt {g : Grid α} {p : Cell} {i : Nat} (h : g.index? p = some i) :
    i < g.cells.size := by
  simp only [index?] at h
  split at h
  · rename_i hp
    cases h
    have := Nat.mul_le_mul_right g.cols (Nat.succ_le_of_lt hp.1)
    rw [Nat.succ_mul] at this
    rw [g.size_cells]
    omega
  · cases h

theorem get?_eq {g : Grid α} {p : Cell} {i : Nat} (h : g.index? p = some i) :
    g.get? p = g.cells[i]? := by
  simp [get?, h]

theorem get?_isSome {g : Grid α} {p : Cell} :
    (g.get? p).isSome ↔ p.row < g.rows ∧ p.col < g.cols := by
  by_cases hp : p.row < g.rows ∧ p.col < g.cols
  · have h : g.index? p = some (p.row * g.cols + p.col) := by simp [index?, hp]
    simp [get?_eq h, hp, index?_lt h]
  · simp [get?, index?, hp]

theorem get?_eq_none {g : Grid α} {p : Cell} :
    g.get? p = none ↔ ¬(p.row < g.rows ∧ p.col < g.cols) := by
  rw [← get?_isSome, Option.isSome_iff_ne_none, Classical.not_not]

theorem index?_injective {g : Grid α} {p q : Cell} {i : Nat} (hp : g.index? p = some i)
    (hq : g.index? q = some i) : p = q := by
  simp only [index?] at hp hq
  split at hp <;> split at hq <;> simp only [Option.some.injEq, reduceCtorEq] at hp hq
  rename_i h₁ h₂
  have hrow : p.row = q.row := by
    have e₁ := congrArg (· / g.cols) hp
    have e₂ := congrArg (· / g.cols) hq
    have hc : 0 < g.cols := by omega
    simp only [Nat.mul_comm _ g.cols, Nat.mul_add_div hc, Nat.div_eq_of_lt h₁.2,
      Nat.div_eq_of_lt h₂.2] at e₁ e₂
    omega
  have hcol : p.col = q.col := by rw [hrow] at hp; omega
  cases p
  cases q
  simp_all

@[simp] theorem rows_set (g : Grid α) (p : Cell) (v : α) : (g.set p v).rows = g.rows := by
  unfold set; split <;> rfl

@[simp] theorem cols_set (g : Grid α) (p : Cell) (v : α) : (g.set p v).cols = g.cols := by
  unfold set; split <;> rfl

@[simp] theorem index?_set (g : Grid α) (p q : Cell) (v : α) :
    (g.set p v).index? q = g.index? q := by
  simp [index?]

theorem cells_set {g : Grid α} {p : Cell} {i : Nat} (h : g.index? p = some i) (v : α) :
    (g.set p v).cells = g.cells.setIfInBounds i v := by
  simp [set, h]

theorem set_eq_self {g : Grid α} {p : Cell} (h : g.index? p = none) (v : α) : g.set p v = g := by
  simp [set, h]

theorem get?_set (g : Grid α) (p q : Cell) (v : α) :
    (g.set p v).get? q = if p = q ∧ (g.get? q).isSome then some v else g.get? q := by
  cases hq : g.index? q with
  | none =>
    have h₁ : g.get? q = none := by simp [get?, hq]
    have h₂ : (g.set p v).get? q = none := by simp [get?, hq]
    simp [h₁, h₂]
  | some j =>
    have hj := index?_lt hq
    cases hp : g.index? p with
    | none =>
      have hpq : p ≠ q := fun e => by simp [e, hq] at hp
      simp [set_eq_self hp, hpq]
    | some i =>
      have e : (g.set p v).get? q = (g.cells.setIfInBounds i v)[j]? := by
        simp [get?, hq, cells_set hp]
      rw [e, Array.getElem?_setIfInBounds]
      by_cases hpq : p = q
      · subst hpq
        cases hp.symm.trans hq
        simp [hj, get?_eq hq]
      · have hij : i ≠ j := fun e => hpq (index?_injective hp (e ▸ hq))
        simp [hij, hpq, get?, hq]

theorem get?_fill (g : Grid α) (p : Cell) (v : α) :
    (g.fill v).get? p = if (g.get? p).isSome then some v else none := by
  by_cases hp : p.row < g.rows ∧ p.col < g.cols
  · have h : (g.fill v).index? p = some (p.row * g.cols + p.col) := by
      simp [index?, fill, replicate, hp]
    rw [get?_eq h, if_pos (get?_isSome.mpr hp), Array.getElem?_eq_getElem (index?_lt h)]
    simp [fill, replicate]
  · rw [if_neg (mt get?_isSome.mp hp)]
    exact get?_eq_none.mpr hp

theorem get?_ofFn (rows cols : Nat) (f : Nat → α) (p : Cell) :
    (ofFn rows cols f).get? p =
      if p.row < rows ∧ p.col < cols then some (f (p.row * cols + p.col)) else none := by
  by_cases hp : p.row < rows ∧ p.col < cols
  · have h : (ofFn rows cols f).index? p = some (p.row * cols + p.col) := by
      simp [index?, ofFn, hp]
    rw [get?_eq h, if_pos hp, Array.getElem?_eq_getElem (index?_lt h)]
    simp [ofFn]
  · rw [if_neg hp]
    exact get?_eq_none.mpr hp

@[simp] theorem rows_resize (g : Grid α) (rows cols : Nat) (v : α) :
    (g.resize rows cols v).1.rows = rows := by
  unfold resize; split
  · rename_i h; exact h.1
  · rfl

@[simp] theorem cols_resize (g : Grid α) (rows cols : Nat) (v : α) :
    (g.resize rows cols v).1.cols = cols := by
  unfold resize; split
  · rename_i h; exact h.2
  · rfl

/-- Nothing of a grid is left once it has been written over. -/
theorem overwrite_resize (g : Grid α) (rows cols : Nat) (v : α) (f : Nat → α) :
    (g.resize rows cols v).1.overwrite f = ofFn rows cols f := by
  have hrows := g.rows_resize rows cols v
  have hcols := g.cols_resize rows cols v
  revert hrows hcols
  generalize (g.resize rows cols v).1 = resized
  rintro rfl rfl
  unfold overwrite ofFn
  congr 1
  refine Array.ext (by rw [Array.size_mapIdx, Array.size_ofFn, resized.size_cells]) ?_
  intro i h₁ h₂
  rw [Array.getElem_mapIdx, Array.getElem_ofFn]

/-- Writing one cell of a grid moves it between those counted and those not. -/
theorem count_set {g : Grid α} {p : Cell} {old new : α} (f : α → Bool) (h : g.get? p = some old) :
    (g.set p new).count f + (if f old then 1 else 0) = g.count f + (if f new then 1 else 0) := by
  have hp : p.row < g.rows ∧ p.col < g.cols := get?_isSome.mp (by simp [h])
  have hi : g.index? p = some (p.row * g.cols + p.col) := by simp [index?, hp]
  have hb := index?_lt hi
  rw [get?_eq hi, Array.getElem?_eq_getElem hb] at h
  have hold := Option.some.inj h
  have hpos : (if f old then 1 else 0) ≤ g.cells.countP f := by
    split
    · rename_i hf
      exact Array.countP_pos_iff.mpr ⟨_, Array.getElem_mem hb, by rw [hold]; exact hf⟩
    · exact Nat.zero_le _
  simp only [count, set, hi]
  rw [Array.setIfInBounds_def, dif_pos hb, Array.countP_set, hold]
  omega

end Grid

end PenTouch
