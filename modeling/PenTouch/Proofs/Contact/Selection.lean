import Mathlib.Data.List.Sort
import PenTouch.Proofs.Contact.Buffers
import PenTouch.Proofs.Contact.Components
import PenTouch.Proofs.Scalar.TotalOrder

/-!
# The selection of blobs

A finder reports no more blobs than its settings allow. If a frame has more, those with the highest
peaks are kept, of equally high ones the first, and they are fitted and reported in the order of
their labels.

1. `Blob.strongest_spec`: what is kept of a list of blobs in the order of their labels. It is part
   of the list, as long as it may be, and each kept blob outranks each dropped one.
2. `tops_findBlobs`: a blob's label leads to its cells, and its peak is the first of the highest of
   them, whatever the levels are.
3. `contacts_find`: a frame's contacts are the candidates of the blobs that are kept.
-/

namespace PenTouch

/-! ## Strength -/

namespace Blob

/-- The blob's peak is higher in the total order than another one's, or as high there and its label
is the smaller one. -/
def Outranks (a b : Blob Float) : Prop :=
  Double.order b.peakValue a.peakValue = .lt ∨
    Double.order b.peakValue a.peakValue = .eq ∧ a.label < b.label

/-- The place of a blob among all blobs, the strongest first. -/
def standing (b : Blob Float) : Int ×ₗ Nat := toLex (-Double.rank b.peakValue, b.label)

variable {a b : Blob Float}

theorem outranks_iff : a.Outranks b ↔ a.standing < b.standing := by
  unfold Outranks standing Double.order
  rw [Prod.Lex.toLex_lt_toLex, compare_lt_iff_lt, compare_eq_iff_eq, Int.neg_lt_neg_iff, neg_inj,
    eq_comm]

theorem isLE_iff_standing :
    ((Scalar.order b.peakValue a.peakValue).then (compare a.label b.label)).isLE = true ↔
      a.standing ≤ b.standing := by
  have hneg : compare (-Double.rank a.peakValue) (-Double.rank b.peakValue) =
      compare (Double.rank b.peakValue) (Double.rank a.peakValue) := by
    rw [Double.compare_neg, ← Std.OrientedCmp.eq_swap]
  have horder : (Scalar.order b.peakValue a.peakValue).then (compare a.label b.label) =
      compare a.standing b.standing := by
    simp only [standing, Prod.Lex.compare_def, compareLex, compareOn, ofLex_toLex, hneg]
    rfl
  rw [horder, Ordering.isLE_iff_ne_gt]
  exact (not_congr compare_gt_iff_gt).trans not_lt

theorem Outranks.not_lt (h : a.Outranks b) : ¬a.peakValue < b.peakValue := by
  intro hlt
  have hrank := Double.rank_lt_rank hlt
  rcases h with h | ⟨h, -⟩
  · exact absurd (compare_lt_iff_lt.mp h) (not_lt_of_gt hrank)
  · exact absurd (compare_eq_iff_eq.mp h) hrank.ne'

/-! ## Selection -/

theorem sorted_by_standing (blobs : List (Blob Float)) :
    (blobs.mergeSort fun a b => ((Scalar.order b.peakValue a.peakValue).then
      (compare a.label b.label)).isLE).Pairwise fun a b => a.standing ≤ b.standing := by
  refine (List.pairwise_mergeSort ?_ ?_ _).imp isLE_iff_standing.mp
  · intro a b c hab hbc
    rw [isLE_iff_standing] at *
    exact hab.trans hbc
  · intro a b
    rw [Bool.or_eq_true, isLE_iff_standing, isLE_iff_standing]
    exact le_total a.standing b.standing

theorem sorted_by_label (blobs : List (Blob Float)) :
    (blobs.mergeSort fun a b => a.label ≤ b.label).Pairwise (·.label ≤ ·.label) := by
  refine (List.pairwise_mergeSort ?_ ?_ _).imp of_decide_eq_true
  · intro a b c hab hbc
    rw [decide_eq_true_eq] at *
    exact hab.trans hbc
  · intro a b
    rw [Bool.or_eq_true, decide_eq_true_eq, decide_eq_true_eq]
    exact le_total a.label b.label

/-- Some of the blobs of a list, in the order of the labels, are a part of the list. -/
theorem sublist_of_subperm {blobs kept : List (Blob Float)} (hsub : kept.Subperm blobs)
    (h : blobs.Pairwise (·.label < ·.label)) (hkept : kept.Pairwise (·.label ≤ ·.label)) :
    kept.Sublist blobs := by
  have hnodup : (blobs.map (·.label)).Nodup := (List.pairwise_map.mpr h).imp Nat.ne_of_lt
  have hne : kept.Pairwise (·.label ≠ ·.label) := by
    obtain ⟨part, hperm, hpart⟩ := hsub
    exact List.pairwise_map.mp ((hperm.map _).nodup_iff.mp ((hpart.map _).nodup hnodup))
  have : Std.Antisymm fun a b : Blob Float => a.label < b.label :=
    ⟨fun _ _ hab hba => absurd hab hba.asymm⟩
  exact List.sublist_of_subperm_of_pairwise hsub (hkept.imp₂ (fun _ _ => lt_of_le_of_ne) hne) h

/-- **Selection.** Of a list in the order of the labels, a part that is as long as it may be is
kept, and each blob in it outranks each other one. -/
theorem strongest_spec {blobs : List (Blob Float)} (h : blobs.Pairwise (·.label < ·.label))
    (limit : Nat) :
    (strongest limit blobs).Sublist blobs ∧
      (strongest limit blobs).length = min limit blobs.length ∧
      ∀ k ∈ strongest limit blobs, ∀ b ∈ blobs, b ∈ strongest limit blobs ∨ k.Outranks b := by
  unfold strongest
  split
  · rename_i hle
    exact ⟨List.Sublist.refl _, (min_eq_right hle).symm, fun _ _ b hb => Or.inl hb⟩
  · dsimp only
    have hranks := sorted_by_standing blobs
    have hranked := List.mergeSort_perm blobs fun a b =>
      ((Scalar.order b.peakValue a.peakValue).then (compare a.label b.label)).isLE
    generalize (blobs.mergeSort fun a b => _) = ranked at hranks hranked ⊢
    have hlabels := sorted_by_label (ranked.take limit)
    have hkept := List.mergeSort_perm (ranked.take limit) fun a b => decide (a.label ≤ b.label)
    generalize ((ranked.take limit).mergeSort fun a b => _) = kept at hlabels hkept ⊢
    have hsub : kept.Subperm blobs :=
      hkept.subperm.trans ((List.take_sublist limit ranked).subperm.trans hranked.subperm)
    refine ⟨sublist_of_subperm hsub h hlabels, ?_, fun k hk b hb => ?_⟩
    · rw [hkept.length_eq, List.length_take, hranked.length_eq]
    · by_cases hin : b ∈ kept
      · exact Or.inl hin
      have hb' : b ∈ ranked.drop limit := by
        have hmem := hranked.mem_iff.mpr hb
        rw [← List.take_append_drop limit ranked, List.mem_append] at hmem
        exact hmem.resolve_left fun hb => hin (hkept.mem_iff.mpr hb)
      rw [← List.take_append_drop limit ranked] at hranks
      have hle := (List.pairwise_append.mp hranks).2.2 k (hkept.mem_iff.mp hk) b hb'
      refine Or.inr (outranks_iff.mpr (hle.lt_of_ne fun heq => hin ?_))
      -- Labels tell the blobs apart.
      have hnodup : (blobs.map (·.label)).Nodup := (List.pairwise_map.mpr h).imp Nat.ne_of_lt
      have hlabel : k.label = b.label := congrArg (fun p => (ofLex p).2) heq
      rw [← List.inj_on_of_nodup_map hnodup (hsub.subset hk) hb hlabel]
      exact hk

end Blob

/-! ## The blobs of a frame -/

section Found

variable {heat : Grid Float} {activation deactivation : Float} {labels : Grid Nat} {b : Blob Float}

/-- Every blob of a grid of numbers has its peak at the first of the highest of its cells. -/
theorem tops_findBlobs (hheat : heat.IsNumeric)
    (hb : b ∈ (findBlobs heat activation deactivation labels).blobs) :
    b.Tops heat ((findBlobs heat activation deactivation labels).cellsOf b) :=
  growth_induction (P := Blob.Tops heat)
    (fun _ _ label hp _ => Blob.Tops.singleton hheat hp label 0)
    (fun _ _ _ _ h hp => h.add hheat hp) hb

theorem labels_findBlobs {α : Type} [Scalar α] (heat : Grid α) (activation deactivation : α)
    (labels : Grid Nat) :
    let blobs := (findBlobs heat activation deactivation labels).blobs.toList
    blobs.map (·.label) = List.range' 1 blobs.length := by
  intro blobs
  refine List.ext_getElem (by rw [List.length_map, List.length_range']) fun i hi _ => ?_
  rw [List.length_map] at hi
  rw [List.getElem_map, List.getElem_range', Nat.one_mul, Nat.add_comm]
  exact label_findBlobs (Array.getElem?_toList ▸ List.getElem?_eq_getElem hi)

end Found

theorem isNaN_heightOver (level v : Float) : (heightOver level v).isNaN = false := by
  unfold heightOver Scalar.positivePart
  split_ifs with _ hpos
  · by_contra h
    exact (Double.not_lt_of_isNaN (by simpa using h)).2 hpos
  · rfl
  · rfl

theorem Grid.isNumeric_map_heightOver (heat : Grid Float) (level : Float) :
    (heat.map (heightOver level)).IsNumeric := by
  refine isNumeric_of_all (Array.all_eq_true_iff_forall_mem.mpr fun v hv => ?_)
  obtain ⟨w, -, rfl⟩ := Array.mem_map.mp hv
  rw [isNaN_heightOver]
  rfl

namespace Finder

/-- A frame without cells has no blobs. -/
theorem blobs_of_isEmpty {α : Type} [Scalar α] {heat : Grid α} (h : heat.cells.isEmpty = true)
    (activation deactivation : α) (labels : Grid Nat) :
    (findBlobs heat activation deactivation labels).blobs = #[] := by
  unfold findBlobs Grid.indexed
  rw [Array.isEmpty_iff.mp h]
  rfl

/-- The contacts of a frame are the candidates of the blobs that are kept. -/
theorem contacts_find {α : Type} [Scalar α] (f : Finder α) (heat : Grid α) :
    let heights := heat.baseline (f.settings.neutral.level heat) f.heights
    (f.find heat).2.map (·.toCandidate) = candidates f.settings heights
      (findBlobs heights f.settings.activation f.settings.deactivation f.labels) := by
  intro heights
  obtain ⟨-, hfind⟩ := f.find_eq heat
  rw [congrArg Prod.snd hfind, Tracker.toCandidate_update]
  unfold seen
  split
  · rename_i hempty
    have hheights : heights.cells.isEmpty = true := by
      show ((heat.baseline _ _).cells).isEmpty = true
      rw [Grid.baseline_eq_map]
      simpa [Grid.map] using hempty
    unfold candidates
    rw [blobs_of_isEmpty hheights]
    rfl
  · have hheights : heights = heat.map (heightOver (f.settings.neutral.level heat)) :=
      Grid.baseline_eq_map _ _ _
    rw [hheights, findBlobs_labels _ _ _ f.labels]

end Finder

/-- **The blobs that are reported.** The blobs of a frame are numbered in the order of the scan. All
of them are kept if they are not too many; otherwise as many as may be, each of which outranks each
that is dropped. Their order stays, and each is fitted to its own cells: its area is the number of
the cells that carry its label, and its peak the first of the highest of them. The contacts are the
candidates of the kept blobs in this order, so there are no more of them than may be, and no blob
that is dropped has a higher peak than one that is kept. -/
theorem strongest_blobs_reported (f : Finder Float) (heat : Grid Float) :
    let heights := heat.baseline (f.settings.neutral.level heat) f.heights
    let found := findBlobs heights f.settings.activation f.settings.deactivation f.labels
    let blobs := found.blobs.toList
    let kept := Blob.strongest f.settings.maxContacts blobs
    blobs.map (·.label) = List.range' 1 blobs.length ∧
    (blobs.length ≤ f.settings.maxContacts → kept = blobs) ∧
    kept.Sublist blobs ∧ kept.length = min f.settings.maxContacts blobs.length ∧
    (∀ k ∈ kept, ∀ b ∈ blobs, b ∈ kept ∨ k.Outranks b ∧ ¬k.peakValue < b.peakValue) ∧
    (∀ b ∈ kept, b.area = (found.cellsOf b).ncard ∧ b.Tops heights (found.cellsOf b)) ∧
    (f.find heat).2.map (·.toCandidate) = kept.filterMap (fun b =>
      (b.fit? heights found.labels f.settings.fittingRadius).map fun p =>
        p.candidate (Scalar.ofNat heights.rows) (Scalar.ofNat heights.cols)) ∧
    (f.find heat).2.length ≤ f.settings.maxContacts := by
  intro heights found blobs kept
  have hlabels : blobs.map (·.label) = List.range' 1 blobs.length := labels_findBlobs _ _ _ _
  have hordered : blobs.Pairwise (·.label < ·.label) := by
    rw [← List.pairwise_map, hlabels]
    exact List.pairwise_lt_range'
  obtain ⟨hsub, hlength, houtranks⟩ := Blob.strongest_spec hordered f.settings.maxContacts
  have hnumeric : heights.IsNumeric := by
    show (heat.baseline _ _).IsNumeric
    rw [Grid.baseline_eq_map]
    exact Grid.isNumeric_map_heightOver heat _
  have hcontacts := f.contacts_find heat
  refine ⟨hlabels, fun hle => ?_, hsub, hlength, fun k hk b hb => ?_, fun b hb => ?_, hcontacts, ?_⟩
  · exact hsub.eq_of_length (hlength.trans (min_eq_right hle))
  · exact (houtranks k hk b hb).imp_right fun h => ⟨h, h.not_lt⟩
  · have hb : b ∈ found.blobs := Array.mem_toList_iff.mp (hsub.subset hb)
    exact ⟨area_findBlobs hb, tops_findBlobs hnumeric hb⟩
  · calc (f.find heat).2.length = ((f.find heat).2.map (·.toCandidate)).length :=
          (List.length_map _).symm
      _ ≤ kept.length := by
          rw [hcontacts]
          exact List.length_filterMap_le _ _
      _ ≤ f.settings.maxContacts := hlength.trans_le (min_le_left _ _)

/-- Three touches, the last as strong as the first, where two or three may be reported. -/
theorem strongest_blobs_reported_ends :
    let heat : Grid Float := ⟨1, 5, #[9.0, 0.0, 8.0, 0.0, 9.0], rfl⟩
    let finder (limit : Nat) : Finder Float :=
      { settings := { TouchSettings.relative with neutral := .constant 0.0, maxContacts := limit } }
    let blobs (f : Finder Float) : List (Blob Float) :=
      (findBlobs (heat.baseline (f.settings.neutral.level heat) f.heights) f.settings.activation
        f.settings.deactivation f.labels).blobs.toList
    (blobs (finder 3)).length = 3 ∧ Blob.strongest 3 (blobs (finder 3)) = blobs (finder 3) ∧
      (blobs (finder 2)).length = 3 ∧ (Blob.strongest 2 (blobs (finder 2))).length = 2 ∧
      ((finder 2).find heat).2.length ≤ 2 := by
  intro heat finder blobs
  have hthree : (blobs (finder 3)).length = 3 := by decide +kernel
  have htwo : (blobs (finder 2)).length = 3 := by decide +kernel
  obtain ⟨-, hall, -⟩ := strongest_blobs_reported (finder 3) heat
  obtain ⟨-, -, -, hkept, -, -, -, hle⟩ := strongest_blobs_reported (finder 2) heat
  have hmin : min (finder 2).settings.maxContacts (blobs (finder 2)).length = 2 := by
    rw [htwo]
    rfl
  exact ⟨hthree, hall hthree.le, htwo, hkept.trans hmin, hle⟩

end PenTouch
