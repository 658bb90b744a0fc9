import PenTouch.Proofs.Contact.Growth
import PenTouch.Proofs.Scalar.Order

/-!
# Blobs and components

On a grid of numbers the blobs of `findBlobs` are the components of the cells above the deactivation
level that hold a cell above the activation level.

1. `Blob.Tops.add`: adding a cell keeps the peak at the first of the highest cells, in whatever
   order the cells are added.
2. `Scanned.visit`: one step of the scan keeps the invariant. The components of the first active
   cells passed so far are labelled in their order, and nothing else is.
3. `scanned_findBlobs`: the whole scan, over any earlier labels.
-/

namespace PenTouch

def Grid.IsNumeric (heat : Grid Float) : Prop :=
  ∀ p v, heat.get? p = some v → v.isNaN = false

theorem Grid.isNumeric_of_all {heat : Grid Float}
    (h : heat.cells.all (fun v => !v.isNaN) = true) : heat.IsNumeric := by
  intro p v hv
  obtain ⟨i, -, hi⟩ := exists_index? hv
  have hmem : v ∈ heat.cells := Array.mem_of_getElem? hi
  simpa using Array.all_eq_true_iff_forall_mem.mp h v hmem

/-! ## The peak -/

/-- The blob's peak is the first in scan order of the highest of the cells. -/
structure Blob.Tops (heat : Grid Float) (cells : Set Cell) (b : Blob Float) : Prop where
  mem : b.peak ∈ cells
  get? : heat.get? b.peak = some b.peakValue
  le : ∀ p ∈ cells, ∀ v, heat.get? p = some v → v ≤ b.peakValue
  first : ∀ p ∈ cells, ∀ v, heat.get? p = some v → (v == b.peakValue) = true →
    p = b.peak ∨ b.peak.before p = true

section Peak

variable {heat : Grid Float} {cells : Set Cell} {b : Blob Float} {p : Cell} {v : Float}

theorem Blob.Tops.singleton (hheat : heat.IsNumeric) (h : heat.get? p = some v) (label area : Nat) :
    Blob.Tops heat {p} { label, peak := p, peakValue := v, area } where
  mem := Set.mem_singleton p
  get? := h
  le := by
    rintro q rfl w hw
    obtain rfl : v = w := Option.some.inj (h.symm.trans hw)
    exact (Double.lt_or_le (hheat _ _ h) (hheat _ _ h)).elim Double.le_of_lt id
  first := fun q hq _ _ _ => Or.inl hq

/-- **One more cell.** The peak moves to it if it is higher, or as high and earlier. -/
theorem Blob.Tops.add (h : Blob.Tops heat cells b) (hheat : heat.IsNumeric)
    (hp : heat.get? p = some v) : Blob.Tops heat (insert p cells) (b.add heat p) := by
  have hpeak := hheat _ _ h.get?
  have hv := hheat _ _ hp
  have hself : v ≤ v := (Double.lt_or_le hv hv).elim Double.le_of_lt id
  unfold Blob.add
  rw [hp, Option.getD_some]
  show Blob.Tops heat (insert p cells)
    (if b.peakValue < v ∨ (v == b.peakValue) = true ∧ p.before b.peak = true then _ else _)
  split
  · rename_i hnew
    have hle : b.peakValue ≤ v :=
      hnew.elim Double.le_of_lt fun heq => (Double.beq_iff_le.mp heq.1).2
    refine ⟨Set.mem_insert p cells, hp, ?_, ?_⟩
    · rintro q (rfl | hq) w hw
      · obtain rfl : v = w := Option.some.inj (hp.symm.trans hw)
        exact hself
      · exact Double.le_trans (h.le q hq w hw) hle
    · rintro q (rfl | hq) w hw hwv
      · exact Or.inl rfl
      · -- A cell seen before that is as high as the new peak was as high as the old one.
        have hvw : v ≤ w := (Double.beq_iff_le.mp hwv).2
        have hwb : w ≤ b.peakValue := h.le q hq w hw
        rcases hnew with hlt | ⟨-, hbefore⟩
        · exact absurd (Double.le_trans hvw hwb) (Double.not_le_of_lt hlt)
        · have hwpeak : (w == b.peakValue) = true :=
            Double.beq_iff_le.mpr ⟨hwb, Double.le_trans hle hvw⟩
          rcases h.first q hq w hw hwpeak with rfl | hq
          · exact Or.inr hbefore
          · exact Or.inr (Cell.before_trans hbefore hq)
  · rename_i hold
    obtain ⟨hlt, heq⟩ := not_or.mp hold
    have hle : v ≤ b.peakValue := (Double.lt_or_le hpeak hv).resolve_left hlt
    refine ⟨Set.mem_insert_of_mem p h.mem, h.get?, ?_, ?_⟩
    · rintro q (rfl | hq) w hw
      · obtain rfl : v = w := Option.some.inj (hp.symm.trans hw)
        exact hle
      · exact h.le q hq w hw
    · rintro q (rfl | hq) w hw hwv
      · obtain rfl : v = w := Option.some.inj (hp.symm.trans hw)
        rcases Cell.before_or_eq_or_before q b.peak with hq | hq | hq
        · exact absurd ⟨hwv, hq⟩ heq
        · exact Or.inl hq
        · exact Or.inr hq
      · exact h.first q hq w hw hwv

theorem Blob.Tops.foldl_add (h : Blob.Tops heat cells b) (hheat : heat.IsNumeric) {more : List Cell}
    (hmore : ∀ p ∈ more, (heat.get? p).isSome) :
    Blob.Tops heat (cells ∪ {p | p ∈ more}) (more.foldl (Blob.add heat) b) :=
  Blob.foldl_add_induction (P := Blob.Tops heat) (fun _ _ _ _ h hp => h.add hheat hp) h hmore

end Peak

/-! ## Components -/

section Components

variable {heat : Grid Float} {activation deactivation : Float} {p q : Cell}

def Grid.component (heat : Grid Float) (deactivation : Float) (p : Cell) : Set Cell :=
  {q | heat.Connected deactivation p q}

/-- The cell belongs to a component with an active cell. -/
def Grid.Touched (heat : Grid Float) (activation deactivation : Float) (p : Cell) : Prop :=
  ∃ q, heat.Connected deactivation p q ∧ heat.Above activation q

/-- The first active cell of its component in scan order. -/
def Grid.IsFirst (heat : Grid Float) (activation deactivation : Float) (p : Cell) : Prop :=
  heat.Above activation p ∧
    ∀ q, heat.Connected deactivation p q → heat.Above activation q → p = q ∨ p.before q = true

theorem Grid.Above.mono (hlevel : deactivation ≤ activation) (h : heat.Above activation p) :
    heat.Above deactivation p := by
  obtain ⟨v, hv, hlt⟩ := h
  exact ⟨v, hv, Double.lt_of_le_of_lt hlevel hlt⟩

theorem Grid.Above.mem_indexed (h : heat.Above activation p) : p ∈ heat.indexed.map (·.1) := by
  obtain ⟨v, hv, -⟩ := h
  exact List.mem_map_of_mem (f := (·.1)) (Grid.mem_indexed.mpr hv)

theorem Grid.IsFirst.eq (hp : heat.IsFirst activation deactivation p)
    (hq : heat.IsFirst activation deactivation q) (h : heat.Connected deactivation p q) :
    p = q := by
  rcases hp.2 q h hq.1 with rfl | hpq
  · rfl
  · rcases hq.2 p h.symm hp.1 with rfl | hqp
    · rfl
    · exact absurd (Cell.before_trans hpq hqp) (Cell.not_before_self p)

end Components

/-! ## The scan -/

/-- What the scan has done when it has passed `cells`: `seeds` are the first active cells among
them, and the components of the seeds carry labels and have blobs, in the order of the seeds. -/
structure Scanned (heat : Grid Float) (activation deactivation : Float)
    (cells : List (Cell × Float)) (s : Labelling Float) (seeds : List Cell) : Prop where
  rows : s.labels.rows = heat.rows
  cols : s.labels.cols = heat.cols
  mem_seeds : ∀ p, p ∈ seeds ↔ heat.IsFirst activation deactivation p ∧ p ∈ cells.map (·.1)
  ordered : seeds.Pairwise fun p q => p.before q = true
  covered : ∀ p ∈ cells.map (·.1), heat.Above activation p →
    ∃ seed ∈ seeds, heat.Connected deactivation seed p
  labelled : ∀ i seed, seeds[i]? = some seed → ∀ p, heat.Connected deactivation seed p →
    s.labels.get? p = some (i + 1)
  unlabelled : ∀ p, (heat.get? p).isSome → (∀ seed ∈ seeds, ¬heat.Connected deactivation seed p) →
    s.labels.get? p = some 0
  size : s.blobs.size = seeds.length
  blob : ∀ i seed b, seeds[i]? = some seed → s.blobs[i]? = some b →
    b.label = i + 1 ∧ b.area = (heat.component deactivation seed).ncard ∧
      b.Tops heat (heat.component deactivation seed)

section Scan

variable {heat : Grid Float} {activation deactivation : Float} {cells : List (Cell × Float)}
  {s : Labelling Float} {seeds : List Cell} {p q : Cell} {v : Float}

theorem Scanned.start (heat : Grid Float) (activation deactivation : Float) (labels : Grid Nat) :
    Scanned heat activation deactivation []
      ⟨(labels.resize heat.rows heat.cols 0).1.fill 0, #[]⟩ [] where
  rows := Grid.rows_resize labels heat.rows heat.cols 0
  cols := Grid.cols_resize labels heat.rows heat.cols 0
  mem_seeds := by simp
  ordered := List.Pairwise.nil
  covered := by simp
  labelled := by simp
  unlabelled := by
    intro p hp _
    show ((labels.resize heat.rows heat.cols 0).1.fill 0).get? p = some 0
    rw [Grid.get?_fill, if_pos]
    rw [Grid.get?_isSome, Grid.rows_resize, Grid.cols_resize, ← Grid.get?_isSome]
    exact hp
  size := rfl
  blob := by simp

/-- A labelled cell lies in the component of the seed that its label counts. -/
theorem Scanned.exists_of_label (h : Scanned heat activation deactivation cells s seeds) {l : Nat}
    (hl : l ≠ 0) (hp : s.labels.get? p = some l) :
    ∃ i seed, seeds[i]? = some seed ∧ heat.Connected deactivation seed p ∧ l = i + 1 := by
  have hgrid : (heat.get? p).isSome := by
    rw [Grid.get?_isSome, ← h.rows, ← h.cols, ← Grid.get?_isSome, hp]
    rfl
  have hexists : ∃ seed ∈ seeds, heat.Connected deactivation seed p := by
    by_contra hno
    have hzero := h.unlabelled p hgrid fun seed hseed hc => hno ⟨seed, hseed, hc⟩
    exact hl (Option.some.inj (hp.symm.trans hzero))
  obtain ⟨seed, hseed, hc⟩ := hexists
  obtain ⟨i, hi⟩ := List.mem_iff_getElem?.mp hseed
  exact ⟨i, seed, hi, hc, Option.some.inj (hp.symm.trans (h.labelled i seed hi p hc))⟩

theorem Scanned.get?_eq_some_iff (h : Scanned heat activation deactivation cells s seeds) {i : Nat}
    {seed : Cell} (hi : seeds[i]? = some seed) :
    s.labels.get? p = some (i + 1) ↔ heat.Connected deactivation seed p := by
  constructor
  · intro hp
    obtain ⟨j, other, hj, hc, hij⟩ := h.exists_of_label (Nat.succ_ne_zero i) hp
    obtain rfl : i = j := by omega
    obtain rfl : seed = other := Option.some.inj (hi.symm.trans hj)
    exact hc
  · exact h.labelled i seed hi p

theorem Scanned.not_connected (h : Scanned heat activation deactivation cells s seeds)
    (hp : s.labels.get? p = some 0) {seed : Cell} (hseed : seed ∈ seeds) :
    ¬heat.Connected deactivation seed p := by
  intro hc
  obtain ⟨i, hi⟩ := List.mem_iff_getElem?.mp hseed
  have hlabel := h.labelled i seed hi p hc
  rw [hp] at hlabel
  cases hlabel

theorem mem_map_concat : q ∈ (cells ++ [(p, v)]).map (·.1) ↔ q ∈ cells.map (·.1) ∨ q = p := by
  rw [List.map_append, List.mem_append, List.map_singleton, List.mem_singleton]

theorem Scanned.skip (h : Scanned heat activation deactivation cells s seeds)
    (hfirst : ¬heat.IsFirst activation deactivation p)
    (hcovered : heat.Above activation p → ∃ seed ∈ seeds, heat.Connected deactivation seed p) :
    Scanned heat activation deactivation (cells ++ [(p, v)]) s seeds where
  rows := h.rows
  cols := h.cols
  mem_seeds := by
    intro q
    rw [h.mem_seeds, mem_map_concat]
    constructor
    · exact fun hq => ⟨hq.1, Or.inl hq.2⟩
    · rintro ⟨hq, hmem | rfl⟩
      · exact ⟨hq, hmem⟩
      · exact absurd hq hfirst
  ordered := h.ordered
  covered := by
    intro q hq
    rcases mem_map_concat.mp hq with hq | rfl
    · exact h.covered q hq
    · exact hcovered
  labelled := h.labelled
  unlabelled := h.unlabelled
  size := h.size
  blob := h.blob

theorem getElem?_concat_cases {i : Nat} (h : (seeds ++ [p])[i]? = some q) :
    seeds[i]? = some q ∨ i = seeds.length ∧ q = p := by
  rw [List.getElem?_append] at h
  split at h
  · exact Or.inl h
  · rw [List.getElem?_singleton] at h
    split at h
    · exact Or.inr ⟨by omega, (Option.some.inj h).symm⟩
    · cases h

/-- The blob that is made of the visited cells describes their component. -/
theorem blob_of_visited (hheat : heat.IsNumeric) (hv : heat.get? p = some v)
    (hself : heat.Connected deactivation p p) {visited : List Cell} (hnodup : visited.Nodup)
    (hmem : ∀ q, q ∈ visited ↔ heat.Connected deactivation p q) (label : Nat) :
    let b := visited.reverse.foldl (Blob.add heat)
      { label, peak := p, peakValue := v, area := 0 }
    b.label = label ∧ b.area = (heat.component deactivation p).ncard ∧
      b.Tops heat (heat.component deactivation p) := by
  have hfinset : heat.component deactivation p = (visited.toFinset : Set Cell) := by
    ext q
    rw [Finset.mem_coe, List.mem_toFinset, hmem]
    rfl
  have hunion : heat.component deactivation p = {p} ∪ {q | q ∈ visited.reverse} := by
    ext q
    simp only [Set.mem_union, Set.mem_singleton_iff, Set.mem_ofPred_eq, List.mem_reverse, hmem]
    exact ⟨Or.inr, fun hq => hq.elim (fun heq => heq ▸ hself) id⟩
  refine ⟨Blob.label_foldl_add _ _, ?_, ?_⟩
  · rw [Blob.area_foldl_add, List.length_reverse, hfinset, Set.ncard_coe_finset,
      List.toFinset_card_of_nodup hnodup]
    exact Nat.zero_add _
  · rw [hunion]
    refine (Blob.Tops.singleton hheat hv label 0).foldl_add hheat fun q hq => ?_
    exact Grid.get?_isSome.mpr ((hmem q).mp (List.mem_reverse.mp hq)).above.lt

/-- An active cell without a label is the first active one of its component. -/
theorem Scanned.isFirst (h : Scanned heat activation deactivation cells s seeds)
    {rest : List (Cell × Float)} (hscan : heat.indexed = cells ++ (p, v) :: rest)
    (hactive : heat.Above activation p) (hlabel : s.labels.get? p = some 0) :
    heat.IsFirst activation deactivation p := by
  refine ⟨hactive, fun q hq hqactive => ?_⟩
  rcases Cell.before_or_eq_or_before p q with hpq | hpq | hqp
  · exact Or.inr hpq
  · exact Or.inl hpq
  · have ⟨w, hw, _⟩ := hqactive
    obtain ⟨seed, hseed, hc⟩ := h.covered q (Grid.passed_of_before hscan hw hqp) hqactive
    exact absurd (hc.trans hq.symm) (h.not_connected hlabel hseed)

theorem Scanned.begin (h : Scanned heat activation deactivation cells s seeds)
    (hheat : heat.IsNumeric) (hlevel : deactivation ≤ activation)
    {rest : List (Cell × Float)} (hscan : heat.indexed = cells ++ (p, v) :: rest)
    (hactive : heat.Above activation p) (hlabel : s.labels.get? p = some 0)
    {labels : Grid Nat} {visited : List Cell}
    (hflood : Front.flood heat deactivation s.blobs.size
      (s.labels.set p (s.blobs.size + 1), [p]) [] = (labels, visited)) :
    Scanned heat activation deactivation (cells ++ [(p, v)])
      ⟨labels, s.blobs.push (visited.reverse.foldl (Blob.add heat)
        { label := s.blobs.size + 1, peak := p, peakValue := v, area := 0 })⟩ (seeds ++ [p]) := by
  have hself : heat.Connected deactivation p p := Grid.Connected.refl (hactive.mono hlevel)
  -- The component of `p` is apart from those before, so the flood meets no label of theirs.
  have hapart : ∀ q, heat.Connected deactivation p q → ∀ seed ∈ seeds,
      ¬heat.Connected deactivation seed q :=
    fun q hq seed hseed hc => h.not_connected hlabel hseed (hc.trans hq.symm)
  have hzero : ∀ q, heat.Connected deactivation p q → s.labels.get? q = some 0 :=
    fun q hq => h.unlabelled q (Grid.get?_isSome.mpr hq.above.lt) (hapart q hq)
  obtain ⟨hrows, hcols, hnodup, hvisited, hlabels⟩ :=
    Front.flood_spec h.rows h.cols hself.1 hzero hflood
  refine ⟨hrows, hcols, ?_, ?_, ?_, ?_, ?_, ?_, ?_⟩
  · intro q
    rw [List.mem_append, List.mem_singleton, h.mem_seeds, mem_map_concat]
    constructor
    · rintro (⟨hq, hmem⟩ | rfl)
      · exact ⟨hq, Or.inl hmem⟩
      · exact ⟨h.isFirst hscan hactive hlabel, Or.inr rfl⟩
    · rintro ⟨hq, hmem | rfl⟩
      · exact Or.inl ⟨hq, hmem⟩
      · exact Or.inr rfl
  · refine List.pairwise_append.mpr ⟨h.ordered, List.pairwise_singleton _ p, fun q hq r hr => ?_⟩
    obtain rfl := List.mem_singleton.mp hr
    exact Grid.before_of_passed hscan ((h.mem_seeds q).mp hq).2
  · intro q hq hqactive
    rcases mem_map_concat.mp hq with hq | rfl
    · obtain ⟨seed, hseed, hc⟩ := h.covered q hq hqactive
      exact ⟨seed, List.mem_append_left _ hseed, hc⟩
    · exact ⟨q, List.mem_append_right _ (List.mem_singleton_self q), hself⟩
  · intro i seed hi q hq
    show labels.get? q = some (i + 1)
    rcases getElem?_concat_cases hi with hi | ⟨rfl, rfl⟩
    · have hnot : q ∉ visited := fun hmem =>
        hapart q ((hvisited q).mp hmem) seed (List.mem_of_getElem? hi) hq
      rw [hlabels, if_neg hnot]
      exact h.labelled i seed hi q hq
    · rw [hlabels, if_pos ((hvisited q).mpr hq), h.size]
  · intro q hq hnone
    show labels.get? q = some 0
    have hnot : q ∉ visited := fun hmem =>
      hnone p (List.mem_append_right _ (List.mem_singleton_self p)) ((hvisited q).mp hmem)
    rw [hlabels, if_neg hnot]
    exact h.unlabelled q hq fun seed hseed => hnone seed (List.mem_append_left _ hseed)
  · show (s.blobs.push _).size = (seeds ++ [p]).length
    rw [Array.size_push, List.length_append, List.length_singleton, h.size]
  · intro i seed b hi hb
    have hb : (s.blobs.push _)[i]? = some b := hb
    rw [Array.getElem?_push] at hb
    rcases getElem?_concat_cases hi with hi | ⟨rfl, rfl⟩
    · have hlt : i < seeds.length := (List.getElem?_eq_some_iff.mp hi).1
      rw [if_neg (by rw [h.size]; omega)] at hb
      exact h.blob i seed b hi hb
    · rw [if_pos h.size.symm] at hb
      obtain rfl := Option.some.inj hb
      rw [← h.size]
      exact blob_of_visited hheat (Grid.get?_of_indexed hscan) hself hnodup hvisited _

/-- **One step of the scan.** -/
theorem Scanned.visit (h : Scanned heat activation deactivation cells s seeds)
    (hheat : heat.IsNumeric) (hlevel : deactivation ≤ activation)
    {rest : List (Cell × Float)} (hscan : heat.indexed = cells ++ (p, v) :: rest) :
    ∃ seeds, Scanned heat activation deactivation (cells ++ [(p, v)])
      (s.visit heat activation deactivation (p, v)) seeds := by
  have hv : heat.get? p = some v := Grid.get?_of_indexed hscan
  unfold Labelling.visit
  split
  · rename_i hskip
    rcases hskip with hle | hlabel
    · -- The cell is not active.
      have hpassive : ¬heat.Above activation p := by
        rintro ⟨w, hw, hlt⟩
        obtain rfl : v = w := Option.some.inj (hv.symm.trans hw)
        exact Double.not_le_of_lt hlt hle
      exact ⟨seeds, h.skip (fun hp => hpassive hp.1) fun hp => absurd hp hpassive⟩
    · -- The cell lies in the component of an earlier seed.
      have hexists : ∃ seed ∈ seeds, heat.Connected deactivation seed p := by
        by_contra hno
        exact hlabel (h.unlabelled p (by rw [hv]; rfl)
          fun seed hseed hc => hno ⟨seed, hseed, hc⟩)
      obtain ⟨seed, hseed, hc⟩ := hexists
      obtain ⟨hfirst, hmem⟩ := (h.mem_seeds seed).mp hseed
      refine ⟨seeds, h.skip (fun hp => ?_) fun _ => ⟨seed, hseed, hc⟩⟩
      obtain rfl := hfirst.eq hp hc
      exact Cell.not_before_self seed (Grid.before_of_passed hscan hmem)
  · rename_i hnew
    obtain ⟨hle, hlabel⟩ := not_or.mp hnew
    have hactive : heat.Above activation p :=
      ⟨v, hv, (Double.lt_or_le (Double.isNaN_of_le hlevel) (hheat p v hv)).resolve_right hle⟩
    exact ⟨seeds ++ [p], h.begin hheat hlevel hscan hactive (not_not.mp hlabel) rfl⟩

/-- **The scan.** Whatever the labels were before, the whole grid is scanned in the end. -/
theorem scanned_findBlobs (hheat : heat.IsNumeric) (hlevel : deactivation ≤ activation)
    (labels : Grid Nat) : ∃ seeds, Scanned heat activation deactivation heat.indexed
      (findBlobs heat activation deactivation labels) seeds := by
  have hprefix : ∀ cells rest, heat.indexed = cells ++ rest →
      ∃ seeds, Scanned heat activation deactivation cells
        (cells.foldl (Labelling.visit heat activation deactivation)
          ⟨(labels.resize heat.rows heat.cols 0).1.fill 0, #[]⟩) seeds := by
    intro cells
    induction cells using List.reverseRecOn with
    | nil => exact fun _ _ => ⟨[], Scanned.start heat activation deactivation labels⟩
    | append_singleton cells entry ih =>
      obtain ⟨p, v⟩ := entry
      intro rest hrest
      have hscan : heat.indexed = cells ++ (p, v) :: rest := by
        rw [hrest, List.append_assoc]
        rfl
      obtain ⟨seeds, h⟩ := ih ((p, v) :: rest) hscan
      rw [List.foldl_append]
      exact h.visit hheat hlevel hscan
  exact hprefix heat.indexed [] (List.append_nil _).symm

end Scan

/-! ## Blobs are components -/

/-- Every cell of a touched component is connected with the first active cell of the component. -/
theorem Scanned.exists_seed {heat : Grid Float} {activation deactivation : Float}
    {s : Labelling Float} {seeds : List Cell} {p : Cell}
    (h : Scanned heat activation deactivation heat.indexed s seeds)
    (hp : heat.Touched activation deactivation p) :
    ∃ seed ∈ seeds, heat.Connected deactivation seed p := by
  obtain ⟨q, hpq, hq⟩ := hp
  obtain ⟨seed, hseed, hc⟩ := h.covered q hq.mem_indexed hq
  exact ⟨seed, hseed, hc.trans hpq.symm⟩

/-- **Blobs.** A flood ends on every grid. On a grid of numbers, with a deactivation level that is
not above the activation level and over any earlier labels, two cells carry the same label other
than `0` just if they lie in the same component with an active cell, and every other cell carries
`0`. The blobs are labelled from `1` on, in the scan order of the first active cells of their
components. The area of a blob is the size of its component, and its peak the first of the highest
cells. -/
theorem findBlobs_components :
    (∀ (heat : Grid Float) (level : Float) (index : Nat) (f : Front) (visited : List Cell),
      (Front.turn heat level index)^[f.work] (f, visited) =
        (((f.flood heat level index visited).1, []), (f.flood heat level index visited).2)) ∧
    ∀ (heat : Grid Float) (activation deactivation : Float) (labels : Grid Nat),
      heat.IsNumeric → deactivation ≤ activation →
      let s := findBlobs heat activation deactivation labels
      (s.labels.rows = heat.rows ∧ s.labels.cols = heat.cols) ∧
      (∀ p q, (∃ l, l ≠ 0 ∧ s.labels.get? p = some l ∧ s.labels.get? q = some l) ↔
        heat.Touched activation deactivation p ∧ heat.Connected deactivation p q) ∧
      (∀ p, (heat.get? p).isSome → ¬heat.Touched activation deactivation p →
        s.labels.get? p = some 0) ∧
      ∃ seeds : List Cell,
        (∀ p, p ∈ seeds ↔ heat.IsFirst activation deactivation p) ∧
        seeds.Pairwise (fun p q => p.before q = true) ∧
        s.blobs.size = seeds.length ∧
        ∀ i seed b, seeds[i]? = some seed → s.blobs[i]? = some b →
          b.label = i + 1 ∧
          (∀ p, s.labels.get? p = some b.label ↔ heat.Connected deactivation seed p) ∧
          b.area = (heat.component deactivation seed).ncard ∧
          b.Tops heat (heat.component deactivation seed) := by
  refine ⟨Front.iterate_turn, fun heat activation deactivation labels hheat hlevel => ?_⟩
  obtain ⟨seeds, h⟩ := scanned_findBlobs hheat hlevel labels
  have htouched : ∀ {seed p}, seed ∈ seeds → heat.Connected deactivation seed p →
      heat.Touched activation deactivation p :=
    fun hseed hc => ⟨_, hc.symm, ((h.mem_seeds _).mp hseed).1.1⟩
  refine ⟨⟨h.rows, h.cols⟩, fun p q => ⟨?_, ?_⟩, ?_, seeds, ?_, h.ordered, h.size, ?_⟩
  · rintro ⟨l, hl, hp, hq⟩
    obtain ⟨i, seed, hi, hc, rfl⟩ := h.exists_of_label hl hp
    have hcq := (h.get?_eq_some_iff hi).mp hq
    exact ⟨htouched (List.mem_of_getElem? hi) hc, hc.symm.trans hcq⟩
  · rintro ⟨hp, hpq⟩
    obtain ⟨seed, hseed, hc⟩ := h.exists_seed hp
    obtain ⟨i, hi⟩ := List.mem_iff_getElem?.mp hseed
    exact ⟨i + 1, by omega, h.labelled i seed hi p hc, h.labelled i seed hi q (hc.trans hpq)⟩
  · exact fun p hgrid hp => h.unlabelled p hgrid fun seed hseed hc => hp (htouched hseed hc)
  · intro p
    rw [h.mem_seeds]
    exact ⟨And.left, fun hp => ⟨hp, hp.1.mem_indexed⟩⟩
  · intro i seed b hi hb
    obtain ⟨hlabel, harea, htops⟩ := h.blob i seed b hi hb
    refine ⟨hlabel, fun p => ?_, harea, htops⟩
    rw [hlabel]
    exact h.get?_eq_some_iff hi

/-- Two touches with a weak bridge between them are one blob. -/
theorem findBlobs_bridge :
    let heat : Grid Float := ⟨1, 3, #[9.0, 3.0, 9.0], rfl⟩
    let s := findBlobs heat 8.0 2.0 ⟨1, 3, #[7, 0, 7], rfl⟩
    heat.IsNumeric ∧ (2.0 : Float) ≤ 8.0 ∧
      ∃ l, l ≠ 0 ∧ s.labels.get? ⟨0, 0⟩ = some l ∧ s.labels.get? ⟨0, 2⟩ = some l := by
  intro heat s
  have hheat : heat.IsNumeric := Grid.isNumeric_of_all (by decide +kernel)
  have hlevel : (2.0 : Float) ≤ 8.0 := by decide +kernel
  have h₀ : heat.Above 2.0 ⟨0, 0⟩ := ⟨9.0, rfl, by decide +kernel⟩
  have h₁ : heat.Above 2.0 ⟨0, 1⟩ := ⟨3.0, rfl, by decide +kernel⟩
  have h₂ : heat.Above 2.0 ⟨0, 2⟩ := ⟨9.0, rfl, by decide +kernel⟩
  have hpath : heat.Connected 2.0 ⟨0, 0⟩ ⟨0, 2⟩ :=
    ((Grid.Connected.refl h₀).tail ⟨h₀, h₁, by simp [Cell.Adjacent]⟩).tail
      ⟨h₁, h₂, by simp [Cell.Adjacent]⟩
  have htouched : heat.Touched 8.0 2.0 ⟨0, 0⟩ :=
    ⟨⟨0, 0⟩, Grid.Connected.refl h₀, 9.0, rfl, by decide +kernel⟩
  obtain ⟨-, hlabels, -⟩ :=
    findBlobs_components.2 heat 8.0 2.0 ⟨1, 3, #[7, 0, 7], rfl⟩ hheat hlevel
  exact ⟨hheat, hlevel, (hlabels _ _).mpr ⟨htouched, hpath⟩⟩

end PenTouch
