import Mathlib.Logic.Function.Iterate
import Mathlib.Logic.Relation
import PenTouch.Contact.Blob

/-!
# The flood

A flood starts from one labelled cell and labels what hangs together with it above a level.

1. `iterate_turn`: the flood is the repetition of one turn, and no more turns are needed than the
   front has work, whatever the grid holds.
2. `marked_flood`: the labels differ from those before the flood just in the visited cells, whatever
   the level is and whatever was labelled before.
3. `Flooding.turn`: a turn keeps the invariant of the flood. The cells that were reached are
   connected with the first one, and what lies about a visited cell is labelled.
4. `Flooding.mem_visited_iff`: once the stack is empty, the visited cells are those connected with
   the first cell, provided that none of them was labelled before.
-/

namespace PenTouch

variable {α : Type} [Scalar α]

/-! ## Connected cells -/

/-- The cells touch by a side or a corner, or are the same. -/
def Cell.Adjacent (p q : Cell) : Prop :=
  p.row ≤ q.row + 1 ∧ q.row ≤ p.row + 1 ∧ p.col ≤ q.col + 1 ∧ q.col ≤ p.col + 1

theorem Cell.Adjacent.symm {p q : Cell} (h : p.Adjacent q) : q.Adjacent p :=
  ⟨h.2.1, h.1, h.2.2.2, h.2.2.1⟩

theorem Cell.mem_span {first last n k : Nat} (hn : 0 < n) :
    k ∈ span first last n ↔ first ≤ k ∧ k ≤ last ∧ k < n := by
  unfold span
  rw [List.mem_range'_1]
  omega

theorem Cell.mem_rectangle {first last q : Cell} {rows cols : Nat} (hr : 0 < rows) (hc : 0 < cols) :
    q ∈ rectangle first last rows cols ↔
      (first.row ≤ q.row ∧ q.row ≤ last.row ∧ q.row < rows) ∧
        first.col ≤ q.col ∧ q.col ≤ last.col ∧ q.col < cols := by
  obtain ⟨i, j⟩ := q
  simp only [rectangle, List.mem_flatMap, List.mem_map, mem_span hr, mem_span hc, Cell.mk.injEq]
  constructor
  · rintro ⟨row, hrow, col, hcol, rfl, rfl⟩
    exact ⟨hrow, hcol⟩
  · exact fun h => ⟨i, h.1, j, h.2, rfl, rfl⟩

theorem Cell.mem_neighbours {p q : Cell} {rows cols : Nat} (hr : p.row < rows) (hc : p.col < cols) :
    q ∈ p.neighbours rows cols ↔ p.Adjacent q ∧ q.row < rows ∧ q.col < cols := by
  unfold neighbours
  rw [mem_rectangle (by omega) (by omega), Adjacent]
  dsimp only
  omega

namespace Grid

variable {heat : Grid α} {level : α} {p q r : Cell}

/-- The cell lies in the grid and is above the level. -/
def Above (heat : Grid α) (level : α) (p : Cell) : Prop :=
  ∃ v, heat.get? p = some v ∧ v > level

/-- Two cells above the level that touch. -/
def Joined (heat : Grid α) (level : α) (p q : Cell) : Prop :=
  heat.Above level p ∧ heat.Above level q ∧ p.Adjacent q

/-- The cells hang together: a path of touching cells above the level leads from one to the
other. -/
def Connected (heat : Grid α) (level : α) (p q : Cell) : Prop :=
  heat.Above level p ∧ Relation.ReflTransGen (heat.Joined level) p q

theorem any_iff_above : (heat.get? p).any (fun v => v > level) = true ↔ heat.Above level p := by
  unfold Above
  rw [Option.any_eq_true]
  simp only [decide_eq_true_eq]

theorem Above.lt (h : heat.Above level p) : p.row < heat.rows ∧ p.col < heat.cols := by
  obtain ⟨v, hv, -⟩ := h
  exact get?_isSome.mp (by rw [hv]; rfl)

instance : Std.Symm (heat.Joined level) := ⟨fun _ _ h => ⟨h.2.1, h.1, h.2.2.symm⟩⟩

theorem Connected.refl (h : heat.Above level p) : heat.Connected level p p :=
  ⟨h, Relation.ReflTransGen.refl⟩

theorem Connected.tail (h : heat.Connected level p q) (hq : heat.Joined level q r) :
    heat.Connected level p r :=
  ⟨h.1, h.2.tail hq⟩

theorem Connected.above (h : heat.Connected level p q) : heat.Above level q := by
  rcases h.2.cases_tail with rfl | ⟨r, -, hr⟩
  · exact h.1
  · exact hr.2.1

theorem Connected.symm (h : heat.Connected level p q) : heat.Connected level q p :=
  ⟨h.above, Std.Symm.symm _ _ h.2⟩

theorem Connected.trans (h : heat.Connected level p q) (h' : heat.Connected level q r) :
    heat.Connected level p r :=
  ⟨h.1, h.2.trans h'.2⟩

end Grid

/-! ## Turns -/

namespace Front

variable (heat : Grid α) (level : α) (index : Nat)

/-- One turn of the flood: the neighbours of the cell on top of the stack are looked at, and the
cell is visited. -/
def turn : Front × List Cell → Front × List Cell
  | ((labels, []), visited) => ((labels, []), visited)
  | ((labels, p :: stack), visited) =>
    ((p.neighbours heat.rows heat.cols).foldl (spread heat level index) (labels, stack),
      p :: visited)

theorem flood_cons (labels : Grid Nat) (p : Cell) (stack visited : List Cell) :
    flood heat level index (labels, p :: stack) visited =
      flood heat level index (turn heat level index ((labels, p :: stack), visited)).1
        (turn heat level index ((labels, p :: stack), visited)).2 := by
  rw [flood]
  rfl

theorem work_turn_lt (labels : Grid Nat) (p : Cell) (stack visited : List Cell) :
    (turn heat level index ((labels, p :: stack), visited)).1.work <
      work (labels, p :: stack) := by
  refine Nat.lt_of_le_of_lt (work_foldl_spread heat level index _ _) ?_
  simp [work]

theorem iterate_turn_of_le {n : Nat} {f : Front} (visited : List Cell) (h : f.work ≤ n) :
    (turn heat level index)^[n] (f, visited) =
      (((flood heat level index f visited).1, []), (flood heat level index f visited).2) := by
  induction n generalizing f visited with
  | zero =>
    obtain ⟨labels, _ | ⟨p, stack⟩⟩ := f
    · rw [flood]
      rfl
    · simp [work] at h
  | succ n ih =>
    obtain ⟨labels, _ | ⟨p, stack⟩⟩ := f
    · rw [flood]
      exact Function.iterate_fixed rfl (n + 1)
    · rw [Function.iterate_succ_apply, flood_cons]
      have hlt := work_turn_lt heat level index labels p stack visited
      exact ih _ (Nat.le_of_lt_succ (Nat.lt_of_lt_of_le hlt h))

/-- **The flood ends.** After as many turns as the front has work the stack is empty, and the flood
has done nothing but these turns. -/
theorem iterate_turn (f : Front) (visited : List Cell) :
    (turn heat level index)^[f.work] (f, visited) =
      (((flood heat level index f visited).1, []), (flood heat level index f visited).2) :=
  iterate_turn_of_le heat level index visited (Nat.le_refl _)

end Front

/-! ## What a front has reached -/

section Reached

variable {heat : Grid α} {level : α} {index : Nat} {before : Grid Nat} {seed p q : Cell}
  {f : Front} {visited : List Cell}

/-- The flood from `seed` over the labels `before` has put its label on the cells of the stack and
the visited ones, each of them once, and on no others. -/
structure Front.Marked (heat : Grid α) (index : Nat) (before : Grid Nat) (seed : Cell) (f : Front)
    (visited : List Cell) : Prop where
  rows : f.1.rows = heat.rows
  cols : f.1.cols = heat.cols
  get? : ∀ p, f.1.get? p = if p ∈ f.2 ++ visited then some (index + 1) else before.get? p
  nodup : (f.2 ++ visited).Nodup
  seed_mem : seed ∈ f.2 ++ visited

/-- The flood from `seed` over the labels `before` has reached the cells of the stack and the
visited ones, each of them once. -/
structure Front.Reached (heat : Grid α) (level : α) (index : Nat) (before : Grid Nat)
    (seed : Cell) (f : Front) (visited : List Cell) : Prop where
  rows : f.1.rows = heat.rows
  cols : f.1.cols = heat.cols
  get? : ∀ p, f.1.get? p = if p ∈ f.2 ++ visited then some (index + 1) else before.get? p
  nodup : (f.2 ++ visited).Nodup
  seed_mem : seed ∈ f.2 ++ visited
  connected : ∀ p ∈ f.2 ++ visited, heat.Connected level seed p

namespace Front

/-! ### Cells that are marked -/

omit [Scalar α] in
theorem Marked.start (index : Nat) (hrows : before.rows = heat.rows) (hcols : before.cols = heat.cols)
    (hseed : (heat.get? seed).isSome) :
    Marked heat index before seed (before.set seed (index + 1), [seed]) [] where
  rows := (Grid.rows_set _ _ _).trans hrows
  cols := (Grid.cols_set _ _ _).trans hcols
  get? := by
    intro p
    have hlt := Grid.get?_isSome.mp hseed
    rw [← hrows, ← hcols, ← Grid.get?_isSome] at hlt
    show (before.set seed (index + 1)).get? p = if p ∈ [seed] then _ else _
    rw [Grid.get?_set]
    by_cases hp : seed = p
    · subst hp
      rw [if_pos ⟨rfl, hlt⟩, if_pos (List.mem_singleton_self seed)]
    · rw [if_neg fun h => hp h.1, if_neg fun h => hp (List.mem_singleton.mp h).symm]
  nodup := List.pairwise_singleton _ seed
  seed_mem := List.mem_singleton_self seed

theorem Marked.spread (h : f.Marked heat index before seed visited) (q : Cell) :
    (f.spread heat level index q).Marked heat index before seed visited := by
  unfold Front.spread
  split
  · rename_i hq
    have hfresh : q ∉ f.2 ++ visited := fun hmem => by
      have hlabel := hq.1
      rw [h.get?, if_pos hmem] at hlabel
      cases hlabel
    constructor
    · exact (Grid.rows_set _ _ _).trans h.rows
    · exact (Grid.cols_set _ _ _).trans h.cols
    · intro r
      show (f.1.set q (index + 1)).get? r = if r ∈ q :: (f.2 ++ visited) then _ else _
      rw [Grid.get?_set]
      by_cases hr : q = r
      · subst hr
        rw [if_pos ⟨rfl, by rw [hq.1]; rfl⟩, if_pos List.mem_cons_self]
      · rw [if_neg fun hqr => hr hqr.1, h.get? r]
        simp only [List.mem_cons, Ne.symm hr, false_or]
    · exact List.nodup_cons.mpr ⟨hfresh, h.nodup⟩
    · exact List.mem_cons_of_mem q h.seed_mem
  · exact h

theorem Marked.foldl_spread (h : f.Marked heat index before seed visited) (cells : List Cell) :
    (cells.foldl (Front.spread heat level index) f).Marked heat index before seed visited := by
  induction cells generalizing f with
  | nil => exact h
  | cons q cells ih => exact ih (h.spread q)

theorem mem_pop {stack : List Cell} : q ∈ stack ++ p :: visited ↔ q ∈ p :: stack ++ visited :=
  List.perm_middle.mem_iff

omit [Scalar α] in
/-- The cell on top of the stack may as well be counted among the visited ones. -/
theorem Marked.pop {labels : Grid Nat} {stack : List Cell}
    (h : Marked heat index before seed (labels, p :: stack) visited) :
    Marked heat index before seed (labels, stack) (p :: visited) where
  rows := h.rows
  cols := h.cols
  get? := by
    intro q
    simp only [mem_pop]
    exact h.get? q
  nodup := List.perm_middle.nodup_iff.mpr h.nodup
  seed_mem := mem_pop.mpr h.seed_mem

theorem Marked.turn {s : Front × List Cell} (h : s.1.Marked heat index before seed s.2) :
    (Front.turn heat level index s).1.Marked heat index before seed
      (Front.turn heat level index s).2 := by
  obtain ⟨⟨labels, _ | ⟨p, stack⟩⟩, visited⟩ := s
  · exact h
  · exact h.pop.foldl_spread _

theorem Marked.iterate_turn {s : Front × List Cell} (h : s.1.Marked heat index before seed s.2)
    (n : Nat) : ((Front.turn heat level index)^[n] s).1.Marked heat index before seed
      ((Front.turn heat level index)^[n] s).2 := by
  induction n generalizing s with
  | zero => exact h
  | succ n ih => exact ih h.turn

/-- **Marks.** A flood puts its label on the cells that it visits, each of them once, and on no
others, whatever the level and the labels before. -/
theorem marked_flood (hrows : before.rows = heat.rows) (hcols : before.cols = heat.cols)
    (hseed : (heat.get? seed).isSome) {labels : Grid Nat}
    (hflood : flood heat level index (before.set seed (index + 1), [seed]) [] = (labels, visited)) :
    Marked heat index before seed (labels, []) visited := by
  have hturns := Front.iterate_turn heat level index (before.set seed (index + 1), [seed]) []
  have hstart : Marked heat index before seed (before.set seed (index + 1), [seed]) [] :=
    Marked.start index hrows hcols hseed
  have h := congrArg (fun s : Front × List Cell => s.1.Marked heat index before seed s.2) hturns
  rw [hflood] at h
  exact h.mp (Marked.iterate_turn hstart _)

/-! ### Cells that are connected -/

theorem Reached.marked (h : f.Reached heat level index before seed visited) :
    f.Marked heat index before seed visited :=
  ⟨h.rows, h.cols, h.get?, h.nodup, h.seed_mem⟩

theorem Marked.reached (h : f.Marked heat index before seed visited)
    (hc : ∀ p ∈ f.2 ++ visited, heat.Connected level seed p) :
    f.Reached heat level index before seed visited :=
  ⟨h.rows, h.cols, h.get?, h.nodup, h.seed_mem, hc⟩

theorem Reached.spread (h : f.Reached heat level index before seed visited) (hp : p ∈ visited)
    (hpq : p.Adjacent q) :
    (f.spread heat level index q).Reached heat level index before seed visited := by
  refine (h.marked.spread q).reached ?_
  have hpc : heat.Connected level seed p := h.connected p (List.mem_append_right f.2 hp)
  unfold Front.spread
  split
  · rename_i hq
    intro r hr
    rcases List.mem_cons.mp hr with rfl | hr
    · exact hpc.tail ⟨hpc.above, Grid.any_iff_above.mp hq.2, hpq⟩
    · exact h.connected r hr
  · exact h.connected

theorem Reached.foldl_spread (h : f.Reached heat level index before seed visited)
    (hp : p ∈ visited) {cells : List Cell} (hcells : ∀ q ∈ cells, p.Adjacent q) :
    (cells.foldl (Front.spread heat level index) f).Reached heat level index before seed
      visited := by
  induction cells generalizing f with
  | nil => exact h
  | cons q cells ih =>
    exact ih (h.spread hp (hcells q List.mem_cons_self))
      fun r hr => hcells r (List.mem_cons_of_mem q hr)

theorem Reached.pop {labels : Grid Nat} {stack : List Cell}
    (h : Front.Reached heat level index before seed (labels, p :: stack) visited) :
    Front.Reached heat level index before seed (labels, stack) (p :: visited) :=
  h.marked.pop.reached fun q hq => h.connected q (mem_pop.mp hq)

/-! ## Labels that are given -/

theorem get?_spread_of_labelled (h : f.1.get? q ≠ some 0) (p : Cell) :
    (f.spread heat level index p).1.get? q = f.1.get? q := by
  unfold spread
  split
  · rename_i hp
    have hpq : p ≠ q := fun hpq => h (hpq ▸ hp.1)
    show (f.1.set p (index + 1)).get? q = f.1.get? q
    rw [Grid.get?_set, if_neg fun hq => hpq hq.1]
  · rfl

theorem get?_foldl_spread_of_labelled (f : Front) (h : f.1.get? q ≠ some 0) (cells : List Cell) :
    (cells.foldl (spread heat level index) f).1.get? q = f.1.get? q := by
  induction cells generalizing f with
  | nil => rfl
  | cons p cells ih =>
    have hp : (f.spread heat level index p).1.get? q = f.1.get? q := get?_spread_of_labelled h p
    exact (ih _ (hp ▸ h)).trans hp

theorem get?_iterate_turn_of_labelled {s : Front × List Cell} (h : s.1.1.get? q ≠ some 0) (n : Nat) :
    ((turn heat level index)^[n] s).1.1.get? q = s.1.1.get? q := by
  induction n generalizing s with
  | zero => rfl
  | succ n ih =>
    have hturn : (turn heat level index s).1.1.get? q = s.1.1.get? q := by
      obtain ⟨⟨labels, _ | ⟨p, stack⟩⟩, visited⟩ := s
      · rfl
      · exact get?_foldl_spread_of_labelled (labels, stack) h _
    exact (ih (hturn ▸ h)).trans hturn

theorem get?_flood_of_labelled (h : f.1.get? q ≠ some 0) (visited : List Cell) :
    (flood heat level index f visited).1.get? q = f.1.get? q := by
  have hturns := congrArg (fun s => s.1.1.get? q) (iterate_turn heat level index f visited)
  exact hturns.symm.trans (get?_iterate_turn_of_labelled (s := (f, visited)) h f.work)

theorem labelled_spread_self (hq : heat.Above level q) :
    (f.spread heat level index q).1.get? q ≠ some 0 := by
  unfold spread
  split
  · rename_i h
    show (f.1.set q (index + 1)).get? q ≠ some 0
    rw [Grid.get?_set, if_pos ⟨rfl, by rw [h.1]; rfl⟩]
    simp
  · rename_i h
    exact fun h₀ => h ⟨h₀, Grid.any_iff_above.mpr hq⟩

/-- Every cell above the level that is looked at carries a label afterwards. -/
theorem labelled_of_mem {cells : List Cell} (h : q ∈ cells) (hq : heat.Above level q) :
    (cells.foldl (spread heat level index) f).1.get? q ≠ some 0 := by
  induction cells generalizing f with
  | nil => exact absurd h List.not_mem_nil
  | cons p cells ih =>
    rcases List.mem_cons.mp h with rfl | h
    · have hself : (f.spread heat level index q).1.get? q ≠ some 0 := labelled_spread_self hq
      rw [List.foldl_cons, get?_foldl_spread_of_labelled _ hself]
      exact hself
    · exact ih h

end Front

end Reached

/-! ## The invariant -/

section Flooding

variable {heat : Grid α} {level : α} {index : Nat} {before : Grid Nat} {seed p : Cell}

/-- The invariant of a flood: beside what is reached, the cells above the level that touch a visited
cell carry a label. -/
structure Flooding (heat : Grid α) (level : α) (index : Nat) (before : Grid Nat) (seed : Cell)
    (s : Front × List Cell) : Prop extends s.1.Reached heat level index before seed s.2 where
  labelled : ∀ p ∈ s.2, ∀ q, p.Adjacent q → heat.Above level q → s.1.1.get? q ≠ some 0

theorem Flooding.start (index : Nat) (hrows : before.rows = heat.rows)
    (hcols : before.cols = heat.cols) (hseed : heat.Above level seed) :
    Flooding heat level index before seed ((before.set seed (index + 1), [seed]), []) where
  toReached := (Front.Marked.start index hrows hcols (Grid.get?_isSome.mpr hseed.lt)).reached <| by
    intro p hp
    obtain rfl := List.mem_singleton.mp hp
    exact Grid.Connected.refl hseed
  labelled := fun p hp => absurd hp List.not_mem_nil

/-- **One turn** keeps the invariant. -/
theorem Flooding.turn {s : Front × List Cell} (h : Flooding heat level index before seed s) :
    Flooding heat level index before seed (Front.turn heat level index s) := by
  obtain ⟨⟨labels, _ | ⟨p, stack⟩⟩, visited⟩ := s
  · exact h
  · have hp : heat.Above level p := (h.connected p List.mem_cons_self).above
    have hbeside : ∀ q, q ∈ p.neighbours heat.rows heat.cols ↔
        p.Adjacent q ∧ q.row < heat.rows ∧ q.col < heat.cols :=
      fun q => Cell.mem_neighbours hp.lt.1 hp.lt.2
    constructor
    · exact h.toReached.pop.foldl_spread List.mem_cons_self fun q hq => ((hbeside q).mp hq).1
    · intro q hq r hqr hr
      show ((p.neighbours heat.rows heat.cols).foldl (Front.spread heat level index)
        (labels, stack)).1.get? r ≠ some 0
      rcases List.mem_cons.mp hq with hqp | hq
      · rw [hqp] at hqr
        exact Front.labelled_of_mem ((hbeside r).mpr ⟨hqr, hr.lt⟩) hr
      · have hr := h.labelled q hq r hqr hr
        rw [Front.get?_foldl_spread_of_labelled (labels, stack) hr]
        exact hr

theorem Flooding.iterate_turn {s : Front × List Cell} (h : Flooding heat level index before seed s)
    (n : Nat) : Flooding heat level index before seed ((Front.turn heat level index)^[n] s) := by
  induction n generalizing s with
  | zero => exact h
  | succ n ih => exact ih h.turn

/-- **The cells of a flood.** When the stack is empty, the cells connected with the first one are
visited if none of them carried a label before. -/
theorem Flooding.mem_visited_iff {labels : Grid Nat} {visited : List Cell}
    (h : Flooding heat level index before seed ((labels, []), visited))
    (hbefore : ∀ p, heat.Connected level seed p → before.get? p = some 0) :
    p ∈ visited ↔ heat.Connected level seed p := by
  constructor
  · exact h.connected p
  · rintro ⟨hseed, hpath⟩
    induction hpath with
    | refl => exact h.seed_mem
    | tail hq hqr ih =>
      rename_i q r
      -- A cell beside a visited one carries a label, and none but this flood can have given it.
      by_contra hr
      have hlabel : labels.get? r = before.get? r := by
        rw [h.get? r, if_neg (by simpa using hr)]
      exact h.labelled q ih r hqr.2.2 hqr.2.1
        (hlabel.trans (hbefore r ⟨hseed, hq.tail hqr⟩))

end Flooding

/-- **The flood.** It visits the cells connected with its first cell, each of them once, and labels
them and no others, provided that none of them carried a label before. -/
theorem Front.flood_spec {heat : Grid α} {level : α} {index : Nat} {before : Grid Nat}
    {seed : Cell} (hrows : before.rows = heat.rows) (hcols : before.cols = heat.cols)
    (hseed : heat.Above level seed)
    (hbefore : ∀ p, heat.Connected level seed p → before.get? p = some 0)
    {labels : Grid Nat} {visited : List Cell}
    (hflood : flood heat level index (before.set seed (index + 1), [seed]) [] = (labels, visited)) :
    labels.rows = heat.rows ∧ labels.cols = heat.cols ∧ visited.Nodup ∧
      (∀ p, p ∈ visited ↔ heat.Connected level seed p) ∧
      ∀ p, labels.get? p = if p ∈ visited then some (index + 1) else before.get? p := by
  have h := (Flooding.start index hrows hcols hseed).iterate_turn
    (work (before.set seed (index + 1), [seed]))
  rw [iterate_turn, hflood] at h
  exact ⟨h.rows, h.cols, h.nodup, fun p => h.mem_visited_iff hbefore, h.get?⟩

end PenTouch
