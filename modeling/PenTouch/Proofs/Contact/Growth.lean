import Mathlib.Data.Set.Card
import PenTouch.Proofs.Contact.Flood
import PenTouch.Proofs.Grid.Scan

/-!
# The growth of blobs

Over any scalars, on any grid and for any two levels, each blob is grown from one active cell by
adding the cells that carry its label, one after the other and each of them once.

1. `Labelling.Grown.visit`: one step of the scan keeps the invariant. A flood that starts a new blob
   takes no cell from an earlier one.
2. `grown_findBlobs`: the whole scan, over any earlier labels.
3. `label_le_cells`: the labels are no more than the cells of the grid.
4. `growth_induction`: what holds of a blob of one active cell and still holds when a cell is added
   holds of every blob and the cells that carry its label.
-/

namespace PenTouch

variable {α : Type} [Scalar α]

/-! ## Adding cells -/

section Add

variable {heat : Grid α}

@[simp] theorem Blob.label_add (b : Blob α) (p : Cell) : (b.add heat p).label = b.label := by
  unfold Blob.add; dsimp only; split <;> rfl

@[simp] theorem Blob.area_add (b : Blob α) (p : Cell) : (b.add heat p).area = b.area + 1 := by
  unfold Blob.add; dsimp only; split <;> rfl

theorem Blob.label_foldl_add (cells : List Cell) (b : Blob α) :
    (cells.foldl (Blob.add heat) b).label = b.label := by
  induction cells generalizing b with
  | nil => rfl
  | cons p cells ih => rw [List.foldl_cons, ih, label_add]

theorem Blob.area_foldl_add (cells : List Cell) (b : Blob α) :
    (cells.foldl (Blob.add heat) b).area = b.area + cells.length := by
  induction cells generalizing b with
  | nil => rfl
  | cons p cells ih =>
    rw [List.foldl_cons, ih, area_add, List.length_cons]
    omega

/-- What still holds when one cell is added holds when several are. -/
theorem Blob.foldl_add_induction {P : Set Cell → Blob α → Prop}
    (add : ∀ cells b p v, P cells b → heat.get? p = some v → P (insert p cells) (b.add heat p))
    {cells : Set Cell} {b : Blob α} (h : P cells b) {more : List Cell}
    (hmore : ∀ p ∈ more, (heat.get? p).isSome) :
    P (cells ∪ {p | p ∈ more}) (more.foldl (Blob.add heat) b) := by
  induction more generalizing cells b with
  | nil => simpa using h
  | cons p more ih =>
    obtain ⟨v, hv⟩ := Option.isSome_iff_exists.mp (hmore p List.mem_cons_self)
    have hset : cells ∪ {q | q ∈ p :: more} = insert p cells ∪ {q | q ∈ more} := by
      ext q
      simp only [Set.mem_union, Set.mem_ofPred_eq, List.mem_cons, Set.mem_insert_iff]
      tauto
    rw [hset]
    exact ih (add cells b p v h hv) fun q hq => hmore q (List.mem_cons_of_mem p hq)

end Add

/-! ## The scan -/

/-- The blob is grown from an active cell by adding cells of the grid, that one among them. -/
structure Blob.Grown (heat : Grid α) (activation : α) (cells : List Cell) (b : Blob α) : Prop where
  nodup : cells.Nodup
  isSome : ∀ p ∈ cells, (heat.get? p).isSome
  seeded : ∃ seed ∈ cells, ∃ v, heat.get? seed = some v ∧ ¬v ≤ activation ∧
    b = cells.foldl (Blob.add heat) { label := b.label, peak := seed, peakValue := v, area := 0 }

/-- The cells that carry a blob's label. -/
def Labelling.cellsOf (s : Labelling α) (b : Blob α) : Set Cell :=
  {p | s.labels.get? p = some b.label}

/-- The blobs are numbered from `1` on in the order in which they were found, and each is grown from
the cells that carry its number. -/
structure Labelling.Grown (heat : Grid α) (activation : α) (s : Labelling α) : Prop where
  rows : s.labels.rows = heat.rows
  cols : s.labels.cols = heat.cols
  le_size : ∀ p l, s.labels.get? p = some l → l ≤ s.blobs.size
  label : ∀ i b, s.blobs[i]? = some b → b.label = i + 1
  grown : ∀ b ∈ s.blobs, ∃ cells, b.Grown heat activation cells ∧ ∀ p, p ∈ cells ↔ p ∈ s.cellsOf b

section Scan

variable {heat : Grid α} {activation deactivation : α} {s : Labelling α} {b : Blob α} {p : Cell}
  {v : α}

theorem Labelling.Grown.start (heat : Grid α) (activation : α) (labels : Grid Nat) :
    Grown heat activation ⟨(labels.resize heat.rows heat.cols 0).1.fill 0, #[]⟩ where
  rows := Grid.rows_resize labels heat.rows heat.cols 0
  cols := Grid.cols_resize labels heat.rows heat.cols 0
  le_size := by
    intro p l hl
    have hfill := Grid.get?_fill (labels.resize heat.rows heat.cols 0).1 p 0
    split at hfill
    · exact (Option.some.inj (hl.symm.trans hfill)).le
    · cases hl.symm.trans hfill
  label := by simp
  grown := by simp

theorem Labelling.Grown.label_mem (h : s.Grown heat activation) (hb : b ∈ s.blobs) :
    b.label ≠ 0 ∧ b.label ≤ s.blobs.size := by
  obtain ⟨i, hi⟩ := Array.mem_iff_getElem?.mp hb
  have hlt := (Array.getElem?_eq_some_iff.mp hi).1
  rw [h.label i b hi]
  omega

/-- A flood from an active cell makes one more blob, if it leaves the labels that were given. -/
theorem Labelling.Grown.push (h : s.Grown heat activation) (hp : heat.get? p = some v)
    (hactive : ¬v ≤ activation) {labels : Grid Nat} {visited : List Cell}
    (hmarked : Front.Marked heat s.blobs.size s.labels p (labels, []) visited)
    (hkept : ∀ q, s.labels.get? q ≠ some 0 → labels.get? q = s.labels.get? q) :
    Grown heat activation ⟨labels, s.blobs.push (visited.reverse.foldl (Blob.add heat)
      { label := s.blobs.size + 1, peak := p, peakValue := v, area := 0 })⟩ := by
  have hget : ∀ q, labels.get? q =
      if q ∈ visited then some (s.blobs.size + 1) else s.labels.get? q := hmarked.get?
  constructor
  · exact hmarked.rows
  · exact hmarked.cols
  · intro q l hl
    show l ≤ (s.blobs.push _).size
    rw [Array.size_push]
    rw [hget] at hl
    split at hl
    · exact (Option.some.inj hl).ge
    · exact (h.le_size q l hl).trans (Nat.le_succ _)
  · intro i b hb
    rw [Array.getElem?_push] at hb
    split at hb
    · obtain rfl := Option.some.inj hb
      rename_i hi
      rw [Blob.label_foldl_add, hi]
    · exact h.label i b hb
  · intro b hb
    rcases Array.mem_push.mp hb with hb | rfl
    · obtain ⟨cells, hgrown, hcells⟩ := h.grown b hb
      obtain ⟨hne, hle⟩ := h.label_mem hb
      refine ⟨cells, hgrown, fun q => (hcells q).trans ⟨fun hq => ?_, fun hq => ?_⟩⟩
      · have hq : s.labels.get? q = some b.label := hq
        exact (hkept q (by rw [hq]; simpa using hne)).trans hq
      · have hq : labels.get? q = some b.label := hq
        rw [hget] at hq
        split at hq
        · have heq := Option.some.inj hq
          omega
        · exact hq
    · refine ⟨visited.reverse, ⟨List.nodup_reverse.mpr hmarked.nodup, fun q hq => ?_, ?_⟩,
        fun q => ?_⟩
      · rw [Grid.get?_isSome, ← hmarked.rows, ← hmarked.cols, ← Grid.get?_isSome]
        rw [show labels.get? q = _ from hget q, if_pos (List.mem_reverse.mp hq)]
        rfl
      · refine ⟨p, List.mem_reverse.mpr hmarked.seed_mem, v, hp, hactive, ?_⟩
        rw [Blob.label_foldl_add]
      · show q ∈ visited.reverse ↔ labels.get? q = some _
        rw [Blob.label_foldl_add, hget, List.mem_reverse]
        refine ⟨fun hq => if_pos hq, fun hq => ?_⟩
        by_contra hno
        rw [if_neg hno] at hq
        exact Nat.not_succ_le_self _ (h.le_size q _ hq)

/-- **One step of the scan.** -/
theorem Labelling.Grown.visit (h : s.Grown heat activation) (hp : heat.get? p = some v) :
    (s.visit heat activation deactivation (p, v)).Grown heat activation := by
  unfold Labelling.visit
  split
  · exact h
  · rename_i hnew
    obtain ⟨hactive, hlabel⟩ := not_or.mp hnew
    have hlabel : s.labels.get? p = some 0 := not_not.mp hlabel
    refine h.push hp hactive (Front.marked_flood h.rows h.cols (by rw [hp]; rfl) rfl) fun q hq => ?_
    have hset : (s.labels.set p (s.blobs.size + 1)).get? q = s.labels.get? q := by
      have hpq : p ≠ q := fun hpq => hq (hpq ▸ hlabel)
      rw [Grid.get?_set, if_neg fun hq => hpq hq.1]
    exact (Front.get?_flood_of_labelled (f := (_, [p])) (hset ▸ hq) []).trans hset

theorem Labelling.size_blobs_visit_le (s : Labelling α) (entry : Cell × α) :
    (s.visit heat activation deactivation entry).blobs.size ≤ s.blobs.size + 1 := by
  unfold Labelling.visit
  split
  · exact Nat.le_succ _
  · exact (Array.size_push _).le

theorem Labelling.size_blobs_foldl_visit (entries : List (Cell × α)) (s : Labelling α) :
    (entries.foldl (visit heat activation deactivation) s).blobs.size ≤
      s.blobs.size + entries.length := by
  induction entries generalizing s with
  | nil => exact le_rfl
  | cons entry entries ih =>
    calc _ ≤ (s.visit heat activation deactivation entry).blobs.size + entries.length := ih _
      _ ≤ s.blobs.size + 1 + entries.length := Nat.add_le_add_right (s.size_blobs_visit_le entry) _
      _ = s.blobs.size + (entry :: entries).length := by rw [List.length_cons]; omega

/-- **The scan.** -/
theorem grown_findBlobs (heat : Grid α) (activation deactivation : α) (labels : Grid Nat) :
    (findBlobs heat activation deactivation labels).Grown heat activation :=
  List.foldlRecOn heat.indexed _ (Labelling.Grown.start heat activation labels)
    fun _ h _ he => h.visit (Grid.mem_indexed.mp he)

end Scan

/-! ## What holds of every blob -/

section Found

variable {heat : Grid α} {activation deactivation : α} {labels : Grid Nat} {b : Blob α}

theorem label_findBlobs {i : Nat}
    (h : (findBlobs heat activation deactivation labels).blobs[i]? = some b) : b.label = i + 1 :=
  (grown_findBlobs heat activation deactivation labels).label i b h

/-- **Room for labels.** There are no more labels than cells, so they fit into 32 bits on every grid
of fewer than `2 ^ 32` cells. -/
theorem label_le_cells :
    (∀ b ∈ (findBlobs heat activation deactivation labels).blobs,
      b.label ≤ heat.rows * heat.cols) ∧
    ∀ p l, (findBlobs heat activation deactivation labels).labels.get? p = some l →
      l ≤ heat.rows * heat.cols := by
  have hsize : (findBlobs heat activation deactivation labels).blobs.size ≤
      heat.rows * heat.cols := by
    refine (Labelling.size_blobs_foldl_visit heat.indexed _).trans_eq ?_
    rw [heat.length_indexed]
    exact Nat.zero_add _
  have hgrown := grown_findBlobs heat activation deactivation labels
  exact ⟨fun b hb => (hgrown.label_mem hb).2.trans hsize,
    fun p l hl => (hgrown.le_size p l hl).trans hsize⟩

theorem area_findBlobs (hb : b ∈ (findBlobs heat activation deactivation labels).blobs) :
    b.area = ((findBlobs heat activation deactivation labels).cellsOf b).ncard := by
  obtain ⟨cells, hgrown, hcells⟩ := (grown_findBlobs heat activation deactivation labels).grown b hb
  obtain ⟨seed, -, v, -, -, heq⟩ := hgrown.seeded
  have hset : (findBlobs heat activation deactivation labels).cellsOf b = cells.toFinset := by
    ext p
    rw [Finset.mem_coe, List.mem_toFinset, hcells]
  rw [hset, Set.ncard_coe_finset, List.toFinset_card_of_nodup hgrown.nodup, heq,
    Blob.area_foldl_add]
  exact Nat.zero_add _

/-- **Growth.** What holds of a blob of one active cell, and still holds when a cell is added, holds
of every blob. -/
theorem growth_induction {P : Set Cell → Blob α → Prop}
    (start : ∀ p v label, heat.get? p = some v → ¬v ≤ activation →
      P {p} { label, peak := p, peakValue := v, area := 0 })
    (add : ∀ cells b p v, P cells b → heat.get? p = some v → P (insert p cells) (b.add heat p))
    (hb : b ∈ (findBlobs heat activation deactivation labels).blobs) :
    P ((findBlobs heat activation deactivation labels).cellsOf b) b := by
  obtain ⟨cells, hgrown, hcells⟩ := (grown_findBlobs heat activation deactivation labels).grown b hb
  obtain ⟨seed, hseed, v, hv, hactive, heq⟩ := hgrown.seeded
  have hset : (findBlobs heat activation deactivation labels).cellsOf b =
      {seed} ∪ {p | p ∈ cells} := by
    ext p
    rw [← hcells]
    simp only [Set.mem_union, Set.mem_singleton_iff, Set.mem_ofPred_eq]
    exact ⟨Or.inr, fun hp => hp.elim (fun hp => hp ▸ hseed) id⟩
  rw [hset, heq]
  exact Blob.foldl_add_induction add (start seed v b.label hv hactive) hgrown.isSome

end Found

end PenTouch
