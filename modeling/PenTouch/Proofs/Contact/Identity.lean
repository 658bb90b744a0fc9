import PenTouch.Contact.Finder
import PenTouch.Proofs.Contact.Tracking

/-!
# Identities

The contacts of a frame have distinct identities, and the identities are small: below the largest
number of candidates of any frame since the last reset (`distinct_after`). The invariant of a run
is `Tracker.Distinct`, which one update keeps (`Distinct.update`): no two candidates share a track,
a new identity is free when it is handed out, and as long as one is due, fewer are used than there
are candidates. A finder looks at no more blobs than it may report, so its identities stay below
that number (`Finder.distinct_after`).
-/

namespace PenTouch

variable {α : Type}

namespace Tracker

/-! ## One update -/

/-- The tracks have distinct identities, all below `n`. -/
structure Distinct (t : Tracker α) (n : Nat) : Prop where
  nodup : (t.tracks.map (·.id)).Nodup
  subset : t.tracks.map (·.id) ⊆ List.range n

theorem Distinct.mono {t : Tracker α} {m n : Nat} (h : t.Distinct m) (hmn : m ≤ n) :
    t.Distinct n where
  nodup := h.nodup
  subset := List.Subset.trans h.subset (List.range_subset.mpr hmn)

theorem distinct_empty (n : Nat) : ({} : Tracker α).Distinct n where
  nodup := List.nodup_nil
  subset := List.nil_subset _

variable [Scalar α] {t : Tracker α} {settings : TouchSettings α} {candidates : List (Candidate α)}

theorem taken_entries_subset : taken (t.entries settings candidates) ⊆ t.tracks.map (·.id) := by
  intro id h
  obtain ⟨e, he, hid⟩ := List.mem_filterMap.mp h
  obtain ⟨i, hi⟩ := List.mem_iff_getElem?.mp he
  unfold entries at hi
  rw [getElem?_withPrior] at hi
  obtain ⟨c, -, rfl⟩ := Option.map_eq_some_iff.mp hi
  obtain ⟨u, hu, rfl⟩ := Option.map_eq_some_iff.mp hid
  obtain ⟨l, -, -, hl⟩ := exists_mem_of_prior hu
  exact List.mem_map_of_mem (List.mem_of_getElem? hl)

/-- **One update.** Identities stay distinct, and below `n` if there are no more than `n`
candidates. -/
theorem Distinct.update {n : Nat} (h : t.Distinct n) (hn : candidates.length ≤ n) :
    (t.update settings candidates).1.Distinct n := by
  have hids : (t.update settings candidates).1.tracks.map (·.id) =
      (t.followed settings candidates).map (·.2.id) := by
    rw [ids_tracks_update, contacts_update, List.map_map]
    rfl
  constructor
  · rw [hids]
    exact (nodup_follow _ _ (List.Subset.refl _) (nodup_taken h.nodup)).1
  · rw [hids]
    intro id hid
    refine List.mem_range.mpr (follow_ids_lt _ _ ?_ ?_ id hid)
    · exact fun x hx => List.mem_range.mp (h.subset (taken_entries_subset hx))
    · rw [length_taken_add, entries, withPrior, List.length_map, List.length_zipIdx]
      exact hn

/-! ## Runs of a tracker -/

inductive Action (α : Type) where
  | update (settings : TouchSettings α) (candidates : List (Candidate α))
  | reset

def act (t : Tracker α) : Action α → Tracker α
  | .update settings candidates => (t.update settings candidates).1
  | .reset => t.reset

/-- The tracker after a run that starts without tracks. -/
def after (actions : List (Action α)) : Tracker α := actions.foldl act {}

/-- The largest number of candidates since the last reset, after one more action. -/
def Action.widen (n : Nat) : Action α → Nat
  | .update _ candidates => max n candidates.length
  | .reset => 0

/-- The largest number of candidates of any update of a run since the last reset. -/
def widest (actions : List (Action α)) : Nat := actions.foldl Action.widen 0

/-- **The run.** Identities are distinct and below the largest number of candidates since the last
reset. -/
theorem distinct_after (actions : List (Action α)) : (after actions).Distinct (widest actions) := by
  induction actions using List.reverseRecOn with
  | nil => exact distinct_empty 0
  | append_singleton actions action ih =>
    unfold after widest
    rw [List.foldl_append, List.foldl_append]
    cases action with
    | update settings candidates =>
      exact (ih.mono (Nat.le_max_left _ _)).update (Nat.le_max_right _ _)
    | reset => exact distinct_empty 0

end Tracker

/-! ## Runs of a finder -/

theorem Blob.length_strongest_le (limit : Nat) (blobs : List (Blob α)) [Scalar α] :
    (Blob.strongest limit blobs).length ≤ limit := by
  unfold Blob.strongest
  split
  · assumption
  · rw [List.length_mergeSort]
    exact List.length_take_le _ _

namespace Finder

variable [Scalar α]

inductive Action (α : Type) where
  | find (heat : Grid α)
  | reset

def act (f : Finder α) : Action α → Finder α
  | .find heat => (f.find heat).1
  | .reset => f.reset

/-- The finder after a run that starts without tracks. -/
def after (settings : TouchSettings α) (actions : List (Action α)) : Finder α :=
  actions.foldl act { settings }

/-- A frame is one update of the tracker, with no more candidates than contacts may be reported. -/
theorem find_eq_update (f : Finder α) (heat : Grid α) :
    ∃ candidates : List (Candidate α), candidates.length ≤ f.settings.maxContacts ∧
      (f.find heat).1.settings = f.settings ∧
      (f.find heat).1.tracker = (f.tracker.update f.settings candidates).1 ∧
      (f.find heat).2 = (f.tracker.update f.settings candidates).2 := by
  unfold find
  split
  · exact ⟨[], Nat.zero_le _, rfl, rfl, rfl⟩
  · refine ⟨_, ?_, rfl, rfl, rfl⟩
    exact (List.length_filterMap_le _ _).trans (Blob.length_strongest_le _ _)

theorem settings_after (settings : TouchSettings α) (actions : List (Action α)) :
    (after settings actions).settings = settings := by
  induction actions using List.reverseRecOn with
  | nil => rfl
  | append_singleton actions action ih =>
    unfold after
    rw [List.foldl_append]
    cases action with
    | find heat =>
      obtain ⟨-, -, h, -⟩ := find_eq_update (after settings actions) heat
      exact h.trans ih
    | reset => exact ih

theorem distinct_after (settings : TouchSettings α) (actions : List (Action α)) :
    (after settings actions).tracker.Distinct settings.maxContacts := by
  induction actions using List.reverseRecOn with
  | nil => exact Tracker.distinct_empty _
  | append_singleton actions action ih =>
    unfold after
    rw [List.foldl_append]
    cases action with
    | find heat =>
      obtain ⟨candidates, hlen, -, h, -⟩ := find_eq_update (after settings actions) heat
      rw [settings_after] at hlen
      show ((after settings actions).find heat).1.tracker.Distinct _
      rw [h]
      exact ih.update hlen
    | reset => exact Tracker.distinct_empty _

end Finder

variable [Scalar α]

/-- **Identities.** Whatever a tracker has been asked to do, an update answers every candidate with
one contact, in order, and the identities of the contacts are distinct and below the largest number
of candidates since the last reset. So those of a finder's contacts are distinct and below the
number of contacts that it may report. -/
theorem ids_distinct_lt_widest :
    (∀ (actions : List (Tracker.Action α)) (settings : TouchSettings α)
        (candidates : List (Candidate α)),
      let next := (Tracker.after actions).update settings candidates
      next.2.map (·.toCandidate) = candidates ∧ next.1.tracks.length = candidates.length ∧
        (next.2.map (·.id)).Nodup ∧
        next.2.map (·.id) ⊆
          List.range (Tracker.widest (actions ++ [.update settings candidates]))) ∧
    ∀ (settings : TouchSettings α) (actions : List (Finder.Action α)) (heat : Grid α),
      let contacts := ((Finder.after settings actions).find heat).2
      (contacts.map (·.id)).Nodup ∧ contacts.map (·.id) ⊆ List.range settings.maxContacts := by
  constructor
  · intro actions settings candidates next
    have h := Tracker.distinct_after (actions ++ [.update settings candidates])
    have hnext : Tracker.after (actions ++ [.update settings candidates]) = next.1 := by
      unfold Tracker.after
      rw [List.foldl_append]
      rfl
    rw [hnext] at h
    have hids := (Tracker.after actions).ids_tracks_update settings candidates
    exact ⟨Tracker.toCandidate_update _ _ _, Tracker.length_update _ _ _, hids ▸ h.nodup,
      hids ▸ h.subset⟩
  · intro settings actions heat contacts
    have h := Finder.distinct_after settings (actions ++ [.find heat])
    obtain ⟨candidates, -, -, htracker, hcontacts⟩ :=
      (Finder.after settings actions).find_eq_update heat
    have hnext : (Finder.after settings (actions ++ [.find heat])).tracker =
        ((Finder.after settings actions).find heat).1.tracker := by
      unfold Finder.after
      rw [List.foldl_append]
      rfl
    rw [hnext, htracker] at h
    have hids := (Finder.after settings actions).tracker.ids_tracks_update
      (Finder.after settings actions).settings candidates
    show (((Finder.after settings actions).find heat).2.map (·.id)).Nodup ∧ _
    rw [hcontacts, ← hids]
    exact ⟨h.nodup, by rw [show contacts = _ from hcontacts, ← hids]; exact h.subset⟩

end PenTouch
