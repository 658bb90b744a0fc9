import Mathlib.Data.List.Induction
import Mathlib.Data.List.Pairwise
import Mathlib.Data.Prod.Lex
import Mathlib.Data.Set.Basic
import PenTouch.Contact.Tracker
import PenTouch.Scalar.Double

/-!
# The matching of candidates and tracks

`Tracker.assign` goes through the links within reach in one order, the closest first, and keeps
those that meet no link kept before.

1. `eq_of_meets`: of the links it keeps no two meet, so each candidate and each track is matched
   at most once.
2. `keepFree_blocked`: a link that it drops meets a kept one that comes before it.
3. `mem_keepFree_iff`: a stable matching (`Link.Stable`) agrees with it on every prefix of the
   order, so there is only one.
-/

namespace PenTouch

/-! ## Keeping links -/

section Keep

variable {α : Type}

theorem Link.meets_iff {l m : Link α} :
    l.meets m = true ↔ l.candidate = m.candidate ∨ l.track = m.track := by
  simp [Link.meets]

theorem Link.meets_comm {l m : Link α} : l.meets m = true ↔ m.meets l = true := by
  rw [Link.meets_iff, Link.meets_iff, eq_comm, eq_comm (a := l.track)]

namespace Tracker

theorem mem_keep_of_mem {kept : List (Link α)} {l m : Link α} (h : m ∈ kept) :
    m ∈ keep kept l := by
  unfold keep
  split
  · exact h
  · exact List.mem_cons_of_mem l h

theorem eq_or_mem_of_mem_keep {kept : List (Link α)} {l m : Link α} (h : m ∈ keep kept l) :
    m = l ∨ m ∈ kept := by
  unfold keep at h
  split at h
  · exact Or.inr h
  · exact List.mem_cons.mp h

theorem mem_keep_self_or (kept : List (Link α)) (l : Link α) :
    l ∈ keep kept l ∨ ∃ m ∈ kept, m.meets l = true := by
  unfold keep
  split
  · rename_i h
    obtain ⟨m, hm, hlm⟩ := List.any_eq_true.mp h
    exact Or.inr ⟨m, hm, Link.meets_comm.mp hlm⟩
  · exact Or.inl List.mem_cons_self

theorem keepFree_concat (links : List (Link α)) (l : Link α) :
    keepFree (links ++ [l]) = keep (keepFree links) l := by
  unfold keepFree
  rw [List.foldl_append, List.foldl_cons, List.foldl_nil]

theorem keepFree_subset (links : List (Link α)) : keepFree links ⊆ links := by
  induction links using List.reverseRecOn with
  | nil => exact List.Subset.refl []
  | append_singleton links l ih =>
    intro m hm
    rw [keepFree_concat] at hm
    rcases eq_or_mem_of_mem_keep hm with rfl | hm
    · exact List.mem_append_right _ (List.mem_singleton_self _)
    · exact List.mem_append_left _ (ih hm)

theorem eq_of_meets {links : List (Link α)} :
    ∀ {l m : Link α}, l ∈ keepFree links → m ∈ keepFree links → l.meets m = true → l = m := by
  induction links using List.reverseRecOn with
  | nil => intro l m hl; exact absurd hl List.not_mem_nil
  | append_singleton links x ih =>
    intro l m hl hm h
    rw [keepFree_concat] at hl hm
    unfold keep at hl hm
    split at hl
    · rw [if_pos (by assumption)] at hm
      exact ih hl hm h
    · rename_i hx
      have hfree : ∀ y ∈ keepFree links, ¬x.meets y = true :=
        fun y hy hxy => hx (List.any_eq_true.mpr ⟨y, hy, hxy⟩)
      rw [if_neg hx] at hm
      rcases List.mem_cons.mp hl with rfl | hl' <;> rcases List.mem_cons.mp hm with rfl | hm'
      · rfl
      · exact absurd h (hfree m hm')
      · exact absurd (Link.meets_comm.mp h) (hfree l hl')
      · exact ih hl' hm' h

end Tracker

end Keep

/-! ## Links within reach -/

section Within

variable {α : Type} [Scalar α] {tracks : List (Track α)} {candidates : List (Candidate α)}
  {reach : α}

/-- The link joins a candidate and a track that are at most `reach` apart. -/
def Link.Within (tracks : List (Track α)) (candidates : List (Candidate α)) (reach : α)
    (l : Link α) : Prop :=
  ∃ c t, candidates[l.candidate]? = some c ∧ tracks[l.track]? = some t ∧
    l.distance = t.mean.distance c.mean ∧ l.change = Scalar.abs (c.major - t.major) ∧
    l.distance ≤ reach

theorem Tracker.mem_links {l : Link α} :
    l ∈ Tracker.links tracks candidates reach ↔ l.Within tracks candidates reach := by
  unfold Tracker.links Link.Within
  simp only [List.mem_flatMap, List.mem_filterMap, Prod.exists, List.mem_zipIdx_iff_getElem?,
    Option.ite_none_right_eq_some, Option.some.injEq]
  constructor
  · rintro ⟨c, i, hc, t, j, ht, hd, rfl⟩
    exact ⟨c, t, hc, ht, rfl, rfl, hd⟩
  · rintro ⟨c, t, hc, ht, hd, hm, hr⟩
    refine ⟨c, l.candidate, hc, t, l.track, ht, hd ▸ hr, ?_⟩
    rw [← hd, ← hm]

theorem Tracker.mem_sorted_links {l : Link α} {le : Link α → Link α → Bool} :
    l ∈ (Tracker.links tracks candidates reach).mergeSort le ↔
      l.Within tracks candidates reach := by
  rw [List.mem_mergeSort, Tracker.mem_links]

theorem Tracker.within_of_mem_assign {l : Link α}
    (h : l ∈ Tracker.assign tracks candidates reach) : l.Within tracks candidates reach :=
  Tracker.mem_sorted_links.mp (Tracker.keepFree_subset _ h)

theorem Link.Within.eq {l m : Link α} (hl : l.Within tracks candidates reach)
    (hm : m.Within tracks candidates reach) (hc : l.candidate = m.candidate)
    (ht : l.track = m.track) : l = m := by
  obtain ⟨c, t, hlc, hlt, hld, hlm, -⟩ := hl
  obtain ⟨c', t', hmc, hmt, hmd, hmm, -⟩ := hm
  rw [hc, hmc] at hlc
  rw [ht, hmt] at hlt
  cases hlc
  cases hlt
  cases l
  cases m
  simp_all

end Within

/-! ## The order of links -/

namespace Link

/-- The place of a link among all links: by distance, then by change of size, then by its ends. -/
def place (l : Link Float) : Int ×ₗ Int ×ₗ Nat ×ₗ Nat :=
  toLex (Double.rank l.distance, toLex (Double.rank l.change, toLex (l.candidate, l.track)))

theorem order_eq_compare (l m : Link Float) : l.order m = compare l.place m.place := by
  simp only [order, place, Scalar.order, Double.order, Prod.Lex.compare_def, compareLex, compareOn,
    ofLex_toLex]

theorem isLE_order {l m : Link Float} : (l.order m).isLE = true ↔ l.place ≤ m.place := by
  rw [order_eq_compare, Ordering.isLE_iff_ne_gt]
  exact (not_congr compare_gt_iff_gt).trans not_lt

theorem ends_eq_of_place_eq {l m : Link Float} (h : l.place = m.place) :
    l.candidate = m.candidate ∧ l.track = m.track := by
  have h₂ := congrArg (fun p => (ofLex p.2).2) (congrArg ofLex h)
  exact Prod.ext_iff.mp (congrArg ofLex h₂)

theorem Within.eq_of_place_eq {tracks : List (Track Float)} {candidates : List (Candidate Float)}
    {reach : Float} {l m : Link Float} (hl : l.Within tracks candidates reach)
    (hm : m.Within tracks candidates reach) (h : l.place = m.place) : l = m :=
  hl.eq hm (ends_eq_of_place_eq h).1 (ends_eq_of_place_eq h).2

/-- A matching within a set of links that leaves out a link only for one that meets it and comes
before it. -/
structure Stable (links matching : Set (Link Float)) : Prop where
  subset : matching ⊆ links
  candidate_once : ∀ l ∈ matching, ∀ m ∈ matching, l.candidate = m.candidate → l = m
  track_once : ∀ l ∈ matching, ∀ m ∈ matching, l.track = m.track → l = m
  blocked : ∀ l ∈ links, l ∉ matching →
    ∃ m ∈ matching, (m.candidate = l.candidate ∨ m.track = l.track) ∧ m.place < l.place

theorem Stable.eq_of_meets {links matching : Set (Link Float)} (h : Stable links matching)
    {l m : Link Float} (hl : l ∈ matching) (hm : m ∈ matching) (hlm : l.meets m = true) :
    l = m := by
  rcases Link.meets_iff.mp hlm with hc | ht
  · exact h.candidate_once l hl m hm hc
  · exact h.track_once l hl m hm ht

end Link

namespace Tracker

variable {tracks : List (Track Float)} {candidates : List (Candidate Float)} {reach : Float}

theorem sorted_links (tracks : List (Track Float)) (candidates : List (Candidate Float))
    (reach : Float) :
    ((links tracks candidates reach).mergeSort fun a b => (a.order b).isLE).Pairwise
      fun l m => l.place ≤ m.place := by
  refine (List.pairwise_mergeSort ?_ ?_ _).imp Link.isLE_order.mp
  · intro a b c hab hbc
    rw [Link.isLE_order] at *
    exact hab.trans hbc
  · intro a b
    rw [Bool.or_eq_true, Link.isLE_order, Link.isLE_order]
    exact le_total a.place b.place

/-- Of links in order, one that is dropped meets a kept one that comes no later. -/
theorem keepFree_blocked {links : List (Link Float)}
    (h : links.Pairwise fun l m => l.place ≤ m.place) :
    ∀ l ∈ links, l ∈ keepFree links ∨
      ∃ m ∈ keepFree links, m.meets l = true ∧ m.place ≤ l.place := by
  induction links using List.reverseRecOn with
  | nil => intro l hl; exact absurd hl List.not_mem_nil
  | append_singleton links x ih =>
    obtain ⟨hlinks, -, hx⟩ := List.pairwise_append.mp h
    intro l hl
    rw [keepFree_concat]
    rcases List.mem_append.mp hl with hl | hl
    · rcases ih hlinks l hl with hk | ⟨m, hm, hml⟩
      · exact Or.inl (mem_keep_of_mem hk)
      · exact Or.inr ⟨m, mem_keep_of_mem hm, hml⟩
    · obtain rfl := List.mem_singleton.mp hl
      rcases mem_keep_self_or (keepFree links) l with hk | ⟨m, hm, hml⟩
      · exact Or.inl hk
      · refine Or.inr ⟨m, mem_keep_of_mem hm, hml, ?_⟩
        exact hx m (keepFree_subset links hm) l (List.mem_singleton_self l)

/-- **Stability.** The assignment is a stable matching of the links within reach. -/
theorem stable_assign :
    Link.Stable {l | l.Within tracks candidates reach}
      {l | l ∈ assign tracks candidates reach} where
  subset := fun _ hl => within_of_mem_assign hl
  candidate_once := fun _ hl _ hm h => eq_of_meets hl hm (Link.meets_iff.mpr (Or.inl h))
  track_once := fun _ hl _ hm h => eq_of_meets hl hm (Link.meets_iff.mpr (Or.inr h))
  blocked := by
    intro l hl hout
    obtain ⟨m, hm, hml, hle⟩ := (keepFree_blocked (sorted_links tracks candidates reach) l
      (mem_sorted_links.mpr hl)).resolve_left hout
    refine ⟨m, hm, Link.meets_iff.mp hml, lt_of_le_of_ne hle fun heq => hout ?_⟩
    rw [← (within_of_mem_assign hm).eq_of_place_eq hl heq]
    exact hm

/-- A stable matching agrees with the kept links on every prefix of the links in order. -/
theorem mem_keepFree_iff {links : List (Link Float)} {matching : Set (Link Float)}
    (hs : links.Pairwise fun l m => l.place ≤ m.place)
    (hm : Link.Stable {l | l ∈ links} matching) {done rest : List (Link Float)}
    (h : links = done ++ rest) : ∀ l, l ∈ keepFree done ↔ l ∈ matching ∧ l ∈ done := by
  induction done using List.reverseRecOn generalizing rest with
  | nil => intro l; simp [keepFree]
  | append_singleton done x ih =>
    have hx := @ih (x :: rest) (by rw [h, List.append_assoc]; rfl)
    -- whatever comes before `x` in the order has been gone through
    have hbefore : ∀ m ∈ matching, m.place < x.place → m ∈ done := by
      intro m hmem hlt
      have hin : m ∈ done ++ x :: rest := by
        rw [← List.singleton_append, ← List.append_assoc, ← h]
        exact hm.subset hmem
      rw [h, List.append_assoc] at hs
      have hxs := (List.pairwise_append.mp hs).2.1
      rcases List.mem_append.mp hin with hd | hr
      · exact hd
      · rcases List.mem_cons.mp hr with rfl | hr
        · exact absurd hlt (lt_irrefl _)
        · exact absurd hlt (not_lt_of_ge (List.rel_of_pairwise_cons hxs hr))
    intro l
    rw [keepFree_concat, List.mem_append, List.mem_singleton]
    unfold keep
    split
    · rename_i hany
      obtain ⟨m, hmk, hxm⟩ := List.any_eq_true.mp hany
      obtain ⟨hmm, hmd⟩ := (hx m).mp hmk
      constructor
      · intro hl
        exact ⟨((hx l).mp hl).1, Or.inl ((hx l).mp hl).2⟩
      · rintro ⟨hl, hd | rfl⟩
        · exact (hx l).mpr ⟨hl, hd⟩
        · rw [hm.eq_of_meets hl hmm hxm]
          exact hmk
    · rename_i hany
      have hxm : x ∈ matching := by
        by_contra hout
        obtain ⟨m, hmm, hml, hlt⟩ := hm.blocked x (by simp [h]) hout
        refine hany (List.any_eq_true.mpr ⟨m, (hx m).mpr ⟨hmm, hbefore m hmm hlt⟩, ?_⟩)
        exact Link.meets_comm.mp (Link.meets_iff.mpr hml)
      constructor
      · intro hl
        rcases List.mem_cons.mp hl with rfl | hl
        · exact ⟨hxm, Or.inr rfl⟩
        · exact ⟨((hx l).mp hl).1, Or.inl ((hx l).mp hl).2⟩
      · rintro ⟨hl, hd | rfl⟩
        · exact List.mem_cons_of_mem x ((hx l).mpr ⟨hl, hd⟩)
        · exact List.mem_cons_self

/-- **Uniqueness.** The links within reach have no other stable matching. -/
theorem eq_assign_of_stable {matching : Set (Link Float)}
    (h : Link.Stable {l | l.Within tracks candidates reach} matching) :
    matching = {l | l ∈ assign tracks candidates reach} := by
  have hlinks : {l : Link Float | l.Within tracks candidates reach} =
      {l | l ∈ (links tracks candidates reach).mergeSort fun a b => (a.order b).isLE} :=
    Set.ext fun l => mem_sorted_links.symm
  have hiff := mem_keepFree_iff (sorted_links tracks candidates reach) (hlinks ▸ h)
    (List.append_nil _).symm
  ext l
  constructor
  · intro hl
    exact (hiff l).mpr ⟨hl, mem_sorted_links.mpr (h.subset hl)⟩
  · intro hl
    exact ((hiff l).mp hl).1

end Tracker

end PenTouch
