import PenTouch.Contact.Peak
import PenTouch.Proofs.Contact.Selection

/-!
# What a fit sees

A blob is fitted to its own cells. Two blobs of the same cells, with the same heights in them, are
fitted alike, whatever else is in their grids and whatever their labels are.

1. `Blob.Tops.peak_eq`: the first of the highest cells is told by the cells and their heights.
2. `Blob.samples_eq`: so the window lies over the same cells, and it shows the same samples in the
   same order.
-/

namespace PenTouch

section Sight

variable {heat heat' : Grid Float} {b b' : Blob Float}

theorem Blob.Tops.peak_eq {cells : Set Cell} (h : b.Tops heat cells) (h' : b'.Tops heat' cells)
    (hvalues : ∀ p ∈ cells, heat.get? p = heat'.get? p) : b.peak = b'.peak := by
  have hget : heat.get? b'.peak = some b'.peakValue := (hvalues _ h'.mem).trans h'.get?
  have hget' : heat'.get? b.peak = some b.peakValue := (hvalues _ h.mem).symm.trans h.get?
  have hle : b'.peakValue ≤ b.peakValue := h.le _ h'.mem _ hget
  have hle' : b.peakValue ≤ b'.peakValue := h'.le _ h.mem _ hget'
  rcases h.first _ h'.mem _ hget (Double.beq_iff_le.mpr ⟨hle, hle'⟩) with heq | hbefore
  · exact heq.symm
  · rcases h'.first _ h.mem _ hget' (Double.beq_iff_le.mpr ⟨hle', hle⟩) with heq | hafter
    · exact heq
    · exact absurd (Cell.before_trans hbefore hafter) (Cell.not_before_self _)

theorem Blob.samples_eq {labels labels' : Grid Nat} (hrows : heat.rows = heat'.rows)
    (hcols : heat.cols = heat'.cols) (hpeak : b.peak = b'.peak)
    (hcells : ∀ p, labels.get? p = some b.label ↔ labels'.get? p = some b'.label)
    (hvalues : ∀ p, labels.get? p = some b.label → heat.get? p = heat'.get? p) (radius : Nat) :
    b.samples heat labels radius = b'.samples heat' labels' radius := by
  unfold samples
  rw [hrows, hcols, hpeak]
  refine List.filterMap_congr fun p _ => ?_
  by_cases hp : labels.get? p = some b.label
  · have hp' : labels'.get? p = some b'.label := (hcells p).mp hp
    simp only [hp, hp', hvalues p hp]
  · have hp' : labels'.get? p ≠ some b'.label := fun h => hp ((hcells p).mpr h)
    simp only [hp, hp', false_and, if_false]

end Sight

/-- **What a fit sees.** Let a blob be found in each of two grids of numbers with the same
dimensions, at any levels and over any earlier labels. If the same cells carry the label of the one
in the first grid and that of the other in the second, and these cells have the same heights, then
both are fitted alike. -/
theorem fit_of_same_cells (heat heat' : Grid Float) (hheat : heat.IsNumeric)
    (hheat' : heat'.IsNumeric) (hrows : heat.rows = heat'.rows) (hcols : heat.cols = heat'.cols)
    (activation deactivation activation' deactivation' : Float) (labels labels' : Grid Nat)
    (b b' : Blob Float) :
    let found := findBlobs heat activation deactivation labels
    let found' := findBlobs heat' activation' deactivation' labels'
    b ∈ found.blobs → b' ∈ found'.blobs → found.cellsOf b = found'.cellsOf b' →
    (∀ p ∈ found.cellsOf b, heat.get? p = heat'.get? p) →
    ∀ radius, b.fit? heat found.labels radius = b'.fit? heat' found'.labels radius := by
  intro found found' hb hb' hcells hvalues radius
  have htops : b.Tops heat (found.cellsOf b) := tops_findBlobs hheat hb
  have htops' : b'.Tops heat' (found.cellsOf b) := by
    rw [hcells]
    exact tops_findBlobs hheat' hb'
  have hpeak : b.peak = b'.peak := htops.peak_eq htops' hvalues
  have hsamples : b.samples heat found.labels radius = b'.samples heat' found'.labels radius :=
    Blob.samples_eq hrows hcols hpeak (Set.ext_iff.mp hcells) hvalues radius
  unfold Blob.fit?
  rw [hsamples, hpeak]

/-- A touch alone on its grid and behind another one. -/
theorem fit_of_same_cells_behind :
    let heat : Grid Float := ⟨1, 4, #[0.0, 0.0, 9.0, 3.0], rfl⟩
    let heat' : Grid Float := ⟨1, 4, #[7.0, 0.0, 9.0, 3.0], rfl⟩
    let found := findBlobs heat 8.0 2.0 .empty
    let found' := findBlobs heat' 5.0 1.0 .empty
    ∃ b ∈ found.blobs, ∃ b' ∈ found'.blobs, b.label = 1 ∧ b'.label = 2 ∧
      found.cellsOf b = {⟨0, 2⟩, ⟨0, 3⟩} ∧ found'.cellsOf b' = {⟨0, 2⟩, ⟨0, 3⟩} ∧
      ∀ radius, b.fit? heat found.labels radius = b'.fit? heat' found'.labels radius := by
  intro heat heat' found found'
  have hheat : heat.IsNumeric := Grid.isNumeric_of_all (by decide +kernel)
  have hheat' : heat'.IsNumeric := Grid.isNumeric_of_all (by decide +kernel)
  have hsize : 0 < found.blobs.size := by decide +kernel
  have hsize' : 1 < found'.blobs.size := by decide +kernel
  have hlabel : found.blobs[0].label = 1 := label_findBlobs (Array.getElem?_eq_getElem hsize)
  have hlabel' : found'.blobs[1].label = 2 := label_findBlobs (Array.getElem?_eq_getElem hsize')
  have hset : ∀ (labels : Grid Nat) (l : Nat), labels.rows = 1 ∧ labels.cols = 4 →
      (∀ row < 1, ∀ col < 4, labels.get? ⟨row, col⟩ = some l ↔ row = 0 ∧ (col = 2 ∨ col = 3)) →
      {p | labels.get? p = some l} = {⟨0, 2⟩, ⟨0, 3⟩} := by
    intro labels l hdim hlabels
    ext ⟨row, col⟩
    simp only [Set.mem_ofPred_eq, Set.mem_insert_iff, Set.mem_singleton_iff, Cell.mk.injEq]
    by_cases hin : row < 1 ∧ col < 4
    · rw [hlabels row hin.1 col hin.2]
      omega
    · have hnone : labels.get? ⟨row, col⟩ = none := by
        rw [Grid.get?_eq_none, hdim.1, hdim.2]
        exact hin
      rw [hnone]
      simp only [reduceCtorEq, false_iff]
      omega
  have hcells : found.cellsOf found.blobs[0] = {⟨0, 2⟩, ⟨0, 3⟩} := by
    unfold Labelling.cellsOf
    rw [hlabel]
    exact hset found.labels 1 (by decide +kernel) (by decide +kernel)
  have hcells' : found'.cellsOf found'.blobs[1] = {⟨0, 2⟩, ⟨0, 3⟩} := by
    unfold Labelling.cellsOf
    rw [hlabel']
    exact hset found'.labels 2 (by decide +kernel) (by decide +kernel)
  refine ⟨_, Array.getElem_mem hsize, _, Array.getElem_mem hsize', hlabel, hlabel', hcells, hcells',
    fit_of_same_cells heat heat' hheat hheat' rfl rfl 8.0 2.0 5.0 1.0 .empty .empty _ _
      (Array.getElem_mem hsize) (Array.getElem_mem hsize') (hcells.trans hcells'.symm) ?_⟩
  rw [hcells]
  rintro p (rfl | rfl) <;> rfl

end PenTouch
