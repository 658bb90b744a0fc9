import Mathlib.Data.List.Perm.Subperm
import PenTouch.Proofs.Contact.Matching

/-!
# Following contacts from frame to frame

`Tracker.update` answers every candidate with one contact. A contact whose candidate is matched
goes on from the matched track (`update_matched`), any other starts a track of its own
(`update_new`).

The identities handed out are distinct (`nodup_follow`): matched tracks have distinct identities
because no two candidates share a track, and every new identity is free when it is handed out. They
are also small (`follow_ids_lt`): as long as a new identity is due, fewer identities are used than
there are candidates, and `firstFree` never skips a free number.
-/

namespace PenTouch

/-! ## Free numbers -/

theorem exists_free (used : List Nat) : ∃ n ∈ List.range (used.length + 1), n ∉ used := by
  by_contra h
  have hsub : List.range (used.length + 1) ⊆ used := by
    intro n hn
    by_contra hout
    exact h ⟨n, hn, hout⟩
  have hle := (List.subperm_of_subset List.nodup_range hsub).length_le
  rw [List.length_range] at hle
  omega

theorem firstFree_spec (used : List Nat) :
    firstFree used ∉ used ∧ firstFree used ≤ used.length := by
  unfold firstFree
  cases h : (List.range (used.length + 1)).find? fun id => !used.contains id with
  | none =>
    obtain ⟨n, hn, hfree⟩ := exists_free used
    have := List.find?_eq_none.mp h n hn
    simp [hfree] at this
  | some n =>
    have hfree := List.find?_some h
    have hn := List.mem_range.mp (List.mem_of_find?_eq_some h)
    simp only [Bool.not_eq_true', List.contains_eq_mem, decide_eq_false_iff_not] at hfree
    exact ⟨hfree, by simpa using Nat.lt_succ_iff.mp hn⟩

variable {α : Type}

/-! ## Prior tracks -/

namespace Tracker

theorem getElem?_withPrior (tracks : List (Track α)) (matching : List (Link α))
    (candidates : List (Candidate α)) (i : Nat) :
    (withPrior tracks matching candidates)[i]? =
      candidates[i]?.map fun c => (c, prior? tracks matching i) := by
  unfold withPrior
  rw [List.getElem?_map, List.getElem?_zipIdx, Option.map_map]
  simp only [Function.comp_def, Nat.zero_add]

theorem map_fst_withPrior (tracks : List (Track α)) (matching : List (Link α))
    (candidates : List (Candidate α)) :
    (withPrior tracks matching candidates).map (·.1) = candidates := by
  refine List.ext_getElem? fun i => ?_
  rw [List.getElem?_map, getElem?_withPrior, Option.map_map]
  exact Option.map_id'

theorem exists_mem_of_prior {tracks : List (Track α)} {matching : List (Link α)} {i : Nat}
    {t : Track α} (h : prior? tracks matching i = some t) :
    ∃ l ∈ matching, l.candidate = i ∧ tracks[l.track]? = some t := by
  obtain ⟨l, hl, ht⟩ := Option.bind_eq_some_iff.mp h
  exact ⟨l, List.mem_of_find?_eq_some hl, by simpa using List.find?_some hl, ht⟩

theorem prior_eq_none {tracks : List (Track α)} {matching : List (Link α)} {i : Nat}
    (h : ∀ l ∈ matching, l.candidate ≠ i) : prior? tracks matching i = none := by
  unfold prior?
  rw [List.find?_eq_none.mpr fun l hl => by simpa using h l hl]
  rfl

theorem length_taken_add (entries : List (Candidate α × Option (Track α))) :
    (taken entries).length + entries.countP (·.2.isNone) = entries.length := by
  induction entries with
  | nil => rfl
  | cons e entries ih =>
    obtain ⟨c, t⟩ := e
    cases t <;> simp [taken] at ih ⊢ <;> omega

variable [Scalar α] {tracks : List (Track α)} {candidates : List (Candidate α)} {reach : α}

/-- A matched candidate finds the track of its link. -/
theorem prior_of_mem {l : Link α} (h : l ∈ assign tracks candidates reach) :
    prior? tracks (assign tracks candidates reach) l.candidate = tracks[l.track]? := by
  unfold prior?
  cases hf : (assign tracks candidates reach).find? fun m => m.candidate == l.candidate with
  | none => exact absurd (beq_self_eq_true l.candidate) (List.find?_eq_none.mp hf l h)
  | some m =>
    have hc : m.candidate = l.candidate := by simpa using List.find?_some hf
    rw [eq_of_meets (List.mem_of_find?_eq_some hf) h (Link.meets_iff.mpr (Or.inl hc))]
    rfl

theorem prior_injective (h : (tracks.map (·.id)).Nodup) {i j : Nat} {t u : Track α}
    (ht : prior? tracks (assign tracks candidates reach) i = some t)
    (hu : prior? tracks (assign tracks candidates reach) j = some u) (hid : t.id = u.id) :
    i = j := by
  obtain ⟨l, hl, rfl, hlt⟩ := exists_mem_of_prior ht
  obtain ⟨m, hm, rfl, hmu⟩ := exists_mem_of_prior hu
  have htrack : l.track = m.track := by
    have hlen : l.track < (tracks.map (·.id)).length := by
      rw [List.length_map]
      exact (List.getElem?_eq_some_iff.mp hlt).1
    refine (List.getElem?_inj hlen h).mp ?_
    rw [List.getElem?_map, List.getElem?_map, hlt, hmu, Option.map_some, Option.map_some, hid]
  rw [eq_of_meets hl hm (Link.meets_iff.mpr (Or.inr htrack))]

theorem nodup_taken (h : (tracks.map (·.id)).Nodup) :
    (taken (withPrior tracks (assign tracks candidates reach) candidates)).Nodup := by
  refine List.Pairwise.filterMap (R := fun e e' : Candidate α × Option (Track α) =>
    ∀ t ∈ e.2, ∀ u ∈ e'.2, t.id ≠ u.id) _ ?_ ?_
  · intro e e' hne id hid id' hid'
    obtain ⟨t, ht, rfl⟩ := Option.map_eq_some_iff.mp hid
    obtain ⟨u, hu, rfl⟩ := Option.map_eq_some_iff.mp hid'
    exact hne t ht u hu
  · refine List.pairwise_iff_getElem.mpr fun i j hi hj hij t ht u hu hid => ?_
    have hsnd : ∀ (k : Nat) (hk : k < (withPrior tracks (assign tracks candidates reach)
        candidates).length), (withPrior tracks (assign tracks candidates reach) candidates)[k].2 =
          prior? tracks (assign tracks candidates reach) k := by
      intro k hk
      simp [withPrior]
    rw [Option.mem_def, hsnd] at ht hu
    exact Nat.ne_of_lt hij (prior_injective h ht hu hid)

end Tracker

/-! ## Following -/

namespace Tracker

section Follow

variable [Scalar α] (settings : TouchSettings α) (used : List Nat)
  {entries : List (Candidate α × Option (Track α))}

theorem follow_matched {i : Nat} {c : Candidate α} {t : Track α}
    (h : entries[i]? = some (c, some t)) :
    (follow settings used entries)[i]? = some ((t.advance settings c).judge settings c) := by
  induction entries generalizing used i with
  | nil => simp at h
  | cons e entries ih =>
    obtain ⟨c', t'⟩ := e
    cases i with
    | zero =>
      obtain ⟨rfl, rfl⟩ := Prod.mk.inj (Option.some.inj h)
      rfl
    | succ i => cases t' <;> exact ih _ h

/-- Any other candidate starts a track, under an identity that is not used. -/
theorem follow_new {i : Nat} {c : Candidate α} (h : entries[i]? = some (c, none)) :
    ∃ id, id ∉ used ∧
      (follow settings used entries)[i]? = some ((Track.start id c).judge settings c) := by
  induction entries generalizing used i with
  | nil => simp at h
  | cons e entries ih =>
    obtain ⟨c', t'⟩ := e
    cases i with
    | zero =>
      obtain ⟨rfl, rfl⟩ := Prod.mk.inj (Option.some.inj h)
      exact ⟨firstFree used, (firstFree_spec used).1, rfl⟩
    | succ i =>
      cases t' with
      | some t' => exact ih used h
      | none =>
        obtain ⟨id, hid, hget⟩ := ih (used ++ [firstFree used]) h
        exact ⟨id, fun hmem => hid (List.mem_append_left _ hmem), hget⟩

theorem toCandidate_follow (entries : List (Candidate α × Option (Track α))) :
    (follow settings used entries).map (·.2.toCandidate) = entries.map (·.1) := by
  induction entries generalizing used with
  | nil => rfl
  | cons e entries ih =>
    obtain ⟨c, t⟩ := e
    cases t <;> exact congrArg (c :: ·) (ih _)

theorem id_track_follow (entries : List (Candidate α × Option (Track α))) :
    (follow settings used entries).map (·.1.id) = (follow settings used entries).map (·.2.id) := by
  induction entries generalizing used with
  | nil => rfl
  | cons e entries ih =>
    obtain ⟨c, t⟩ := e
    cases t <;> exact congrArg (_ :: ·) (ih _)

/-- Distinct identities stay distinct, and a used one only comes from a matched track. -/
theorem nodup_follow (hsub : taken entries ⊆ used) (hnodup : (taken entries).Nodup) :
    ((follow settings used entries).map (·.2.id)).Nodup ∧
      ∀ id ∈ (follow settings used entries).map (·.2.id), id ∈ used → id ∈ taken entries := by
  induction entries generalizing used with
  | nil => exact ⟨List.nodup_nil, fun id hid => absurd hid List.not_mem_nil⟩
  | cons e entries ih =>
    obtain ⟨c, t⟩ := e
    cases t with
    | some t =>
      obtain ⟨hout, hrest⟩ := List.nodup_cons.mp hnodup
      obtain ⟨ht, hsub⟩ := List.cons_subset.mp hsub
      obtain ⟨hnd, hused⟩ := ih used hsub hrest
      refine ⟨List.nodup_cons.mpr ⟨fun hmem => hout (hused _ hmem ht), hnd⟩, ?_⟩
      intro id hid hmem
      rcases List.mem_cons.mp hid with rfl | hid
      · exact List.mem_cons_self
      · exact List.mem_cons_of_mem _ (hused id hid hmem)
    | none =>
      have hfree := (firstFree_spec used).1
      obtain ⟨hnd, hused⟩ := ih (used ++ [firstFree used])
        (List.subset_append_of_subset_left _ hsub) hnodup
      refine ⟨List.nodup_cons.mpr ⟨fun hmem => hfree (hsub (hused _ hmem ?_)), hnd⟩, ?_⟩
      · exact List.mem_append_right _ (List.mem_singleton_self _)
      · intro id hid hmem
        rcases List.mem_cons.mp hid with rfl | hid
        · exact absurd hmem hfree
        · exact hused id hid (List.mem_append_left _ hmem)

/-- While a new identity is due, fewer than `n` are used, so it is below `n` too. -/
theorem follow_ids_lt {n : Nat} (htaken : ∀ id ∈ taken entries, id < n)
    (hn : used.length + entries.countP (·.2.isNone) ≤ n) :
    ∀ id ∈ (follow settings used entries).map (·.2.id), id < n := by
  induction entries generalizing used with
  | nil => exact fun id hid => absurd hid List.not_mem_nil
  | cons e entries ih =>
    obtain ⟨c, t⟩ := e
    intro id hid
    cases t with
    | some t =>
      rcases List.mem_cons.mp hid with rfl | hid
      · exact htaken _ List.mem_cons_self
      · exact ih used (fun x hx => htaken x (List.mem_cons_of_mem _ hx)) hn id hid
    | none =>
      rw [List.countP_cons] at hn
      simp only [Option.isNone_none, if_true] at hn
      rcases List.mem_cons.mp hid with rfl | hid
      · exact Nat.lt_of_le_of_lt (firstFree_spec used).2 (by omega)
      · refine ih (used ++ [firstFree used]) htaken ?_ id hid
        rw [List.length_append, List.length_singleton]
        omega

end Follow

/-! ## Updating -/

section Update

variable [Scalar α] (t : Tracker α) (settings : TouchSettings α) (candidates : List (Candidate α))

/-- The links by which an update goes on from the tracks of the frame before. -/
def matching : List (Link α) := assign t.tracks candidates settings.trackingDistance

/-- The candidates of an update with their prior tracks. -/
def entries : List (Candidate α × Option (Track α)) :=
  withPrior t.tracks (t.matching settings candidates) candidates

/-- The tracks and contacts of an update. -/
def followed : List (Track α × Contact α) :=
  follow settings (taken (t.entries settings candidates)) (t.entries settings candidates)

theorem tracks_update :
    (t.update settings candidates).1.tracks = (t.followed settings candidates).map (·.1) := rfl

theorem contacts_update :
    (t.update settings candidates).2 = (t.followed settings candidates).map (·.2) := rfl

theorem toCandidate_update :
    (t.update settings candidates).2.map (·.toCandidate) = candidates := by
  rw [contacts_update, List.map_map]
  exact (toCandidate_follow _ _ _).trans (map_fst_withPrior _ _ _)

theorem length_update : (t.update settings candidates).1.tracks.length = candidates.length := by
  have h := congrArg List.length (t.toCandidate_update settings candidates)
  rw [List.length_map, contacts_update, List.length_map] at h
  rw [tracks_update, List.length_map, h]

theorem ids_tracks_update :
    (t.update settings candidates).1.tracks.map (·.id) =
      (t.update settings candidates).2.map (·.id) := by
  rw [tracks_update, contacts_update, List.map_map, List.map_map]
  exact id_track_follow _ _ _

variable {t settings candidates}

theorem getElem?_entries {i : Nat} {c : Candidate α} (hc : candidates[i]? = some c) :
    (t.entries settings candidates)[i]? =
      some (c, prior? t.tracks (t.matching settings candidates) i) := by
  unfold entries
  rw [getElem?_withPrior, hc, Option.map_some]

theorem getElem?_update {i : Nat} {r : Track α × Contact α}
    (h : (t.followed settings candidates)[i]? = some r) :
    (t.update settings candidates).1.tracks[i]? = some r.1 ∧
      (t.update settings candidates).2[i]? = some r.2 := by
  rw [tracks_update, contacts_update, List.getElem?_map, List.getElem?_map, h]
  exact ⟨rfl, rfl⟩

/-- **Continuation.** A matched contact goes on from the track of its link. -/
theorem update_matched {l : Link α} (hl : l ∈ t.matching settings candidates) {c : Candidate α}
    {u : Track α} (hc : candidates[l.candidate]? = some c) (hu : t.tracks[l.track]? = some u) :
    (t.update settings candidates).1.tracks[l.candidate]? =
        some ((u.advance settings c).judge settings c).1 ∧
      (t.update settings candidates).2[l.candidate]? =
        some ((u.advance settings c).judge settings c).2 := by
  have hprior : prior? t.tracks (t.matching settings candidates) l.candidate = some u :=
    (prior_of_mem hl).trans hu
  refine getElem?_update (follow_matched _ _ ?_)
  rw [getElem?_entries hc, hprior]

theorem mem_taken_of_mem_matching {l : Link α} (hl : l ∈ t.matching settings candidates)
    {u : Track α} (hu : t.tracks[l.track]? = some u) :
    u.id ∈ taken (t.entries settings candidates) := by
  obtain ⟨c, -, hc, -⟩ := within_of_mem_assign hl
  have hprior : prior? t.tracks (t.matching settings candidates) l.candidate = some u :=
    (prior_of_mem hl).trans hu
  have hentry : (t.entries settings candidates)[l.candidate]? = some (c, some u) := by
    rw [getElem?_entries hc, hprior]
  exact List.mem_filterMap.mpr ⟨_, List.mem_of_getElem? hentry, rfl⟩

/-- **Start.** A contact without a link starts a track under an identity that no matched track
has. -/
theorem update_new {i : Nat} {c : Candidate α} (hc : candidates[i]? = some c)
    (hout : ∀ l ∈ t.matching settings candidates, l.candidate ≠ i) :
    ∃ id, (∀ l ∈ t.matching settings candidates, ∀ u, t.tracks[l.track]? = some u → u.id ≠ id) ∧
      (t.update settings candidates).1.tracks[i]? =
        some ((Track.start id c).judge settings c).1 ∧
      (t.update settings candidates).2[i]? = some ((Track.start id c).judge settings c).2 := by
  have hentry : (t.entries settings candidates)[i]? = some (c, none) := by
    rw [getElem?_entries hc, prior_eq_none hout]
  obtain ⟨id, hid, hget⟩ := follow_new settings (taken (t.entries settings candidates)) hentry
  refine ⟨id, ?_, getElem?_update hget⟩
  rintro l hl u hu rfl
  exact hid (mem_taken_of_mem_matching hl hu)

end Update

/-- **The assignment.** Links within reach have different places. The links by which an update goes
on from its tracks are the one stable matching of the links within reach, so no candidate and track
within reach are both left over. A contact keeps the identity, the steadiness and the palm of its
matched track; any other starts anew, under an identity that no matched track has. -/
theorem matching_eq_stable (t : Tracker Float) (settings : TouchSettings Float)
    (candidates : List (Candidate Float)) :
    (∀ l m : Link Float, l.Within t.tracks candidates settings.trackingDistance →
      m.Within t.tracks candidates settings.trackingDistance → l.place = m.place → l = m) ∧
    (∀ matching : Set (Link Float),
      Link.Stable {l | l.Within t.tracks candidates settings.trackingDistance} matching ↔
        matching = {l | l ∈ t.matching settings candidates}) ∧
    (∀ i j c u, candidates[i]? = some c → t.tracks[j]? = some u →
      (∀ l ∈ t.matching settings candidates, l.candidate ≠ i) →
      (∀ l ∈ t.matching settings candidates, l.track ≠ j) →
        ¬u.mean.distance c.mean ≤ settings.trackingDistance) ∧
    (∀ l ∈ t.matching settings candidates, ∀ c u,
      candidates[l.candidate]? = some c → t.tracks[l.track]? = some u →
        ∃ next contact, (u.advance settings c).judge settings c = (next, contact) ∧
          contact.id = u.id ∧
          (t.update settings candidates).1.tracks[l.candidate]? = some next ∧
          (t.update settings candidates).2[l.candidate]? = some contact) ∧
    ∀ i c, candidates[i]? = some c → (∀ l ∈ t.matching settings candidates, l.candidate ≠ i) →
      ∃ id, (∀ l ∈ t.matching settings candidates, ∀ u, t.tracks[l.track]? = some u → u.id ≠ id) ∧
        (t.update settings candidates).1.tracks[i]? =
          some ((Track.start id c).judge settings c).1 ∧
        (t.update settings candidates).2[i]? = some ((Track.start id c).judge settings c).2 := by
  refine ⟨fun l m hl hm => hl.eq_of_place_eq hm, fun matching => ⟨eq_assign_of_stable, ?_⟩, ?_, ?_,
    fun i c => update_new⟩
  · rintro rfl
    exact stable_assign
  · intro i j c u hc hu hi hj hd
    let l : Link Float :=
      { distance := u.mean.distance c.mean
        change := Scalar.abs (c.major - u.major)
        candidate := i
        track := j }
    have hl : l.Within t.tracks candidates settings.trackingDistance := ⟨c, u, hc, hu, rfl, rfl, hd⟩
    by_cases hmem : l ∈ t.matching settings candidates
    · exact hi l hmem rfl
    · obtain ⟨m, hm, hmc | hmt, -⟩ := stable_assign.blocked l hl hmem
      · exact hi m hm hmc
      · exact hj m hm hmt
  · intro l hl c u hc hu
    obtain ⟨htrack, hcontact⟩ := update_matched hl hc hu
    exact ⟨_, _, rfl, rfl, htrack, hcontact⟩

/-- A contact that moves by a tenth of the panel's width keeps its identity. -/
theorem matching_eq_stable_moved :
    let t : Tracker Float :=
      ⟨[{ id := 7, mean := ⟨0.5, 0.5⟩, major := 0.05, streak := 1, palm := false }]⟩
    let c : Candidate Float :=
      { mean := ⟨0.6, 0.5⟩, major := 0.05, minor := 0.05, orientation := 0.0 }
    ∃ l ∈ t.matching .relative [c], ∃ contact,
      (t.update .relative [c]).2[l.candidate]? = some contact ∧ contact.id = 7 := by
  intro t c
  obtain ⟨-, -, hnear, hmatched, -⟩ := matching_eq_stable t .relative [c]
  have hsome : ∃ l ∈ t.matching .relative [c], l.candidate = 0 ∨ l.track = 0 := by
    by_contra h
    refine hnear 0 0 c _ rfl rfl (fun l hl h0 => h ⟨l, hl, Or.inl h0⟩)
      (fun l hl h0 => h ⟨l, hl, Or.inr h0⟩) ?_
    decide +kernel
  obtain ⟨l, hl, -⟩ := hsome
  obtain ⟨c', u, hc, hu, -⟩ := within_of_mem_assign hl
  obtain ⟨-, contact, -, hid, -, hcontact⟩ := hmatched l hl c' u hc hu
  refine ⟨l, hl, contact, hcontact, ?_⟩
  obtain rfl := List.mem_singleton.mp (List.mem_of_getElem? hu)
  exact hid

end Tracker

end PenTouch
