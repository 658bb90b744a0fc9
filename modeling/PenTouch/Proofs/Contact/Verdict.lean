import PenTouch.Proofs.Contact.Identity

/-!
# Verdicts over a chain of contacts

The verdict on a contact depends on its own shape and on one bit that its track carries. The chain
of a contact (`Tracker.Chain`) leads back through the matching to the frame where its identity
started; identities are handed out again, so the chain follows links and not identities.

1. `classify_eq`: what a shape and the bit lead to.
2. `Chain.carries`: what a track starts with, and every match keeps, holds of the track that a chain
   has left. `Chain.exists_judge`: so the track remembers its identity and whether some shape was a
   palm's (`Remembers`). One judgement keeps this (`Remembers.judge`), a matched contact goes on
   from it, any other starts with nothing to remember.
3. `exists_chain`, `Chain.unique`: each contact has one chain.
4. `verdict_iff_chain`: so the verdict is known from the shapes of the chain alone.
5. `palm_stays_invalid`: a contact that was taken for a palm stays invalid while it is followed. One
   that was only too small does not.
-/

namespace PenTouch

variable {α : Type} [Scalar α]

/-! ## Shapes -/

/-- The sizes are numbers. -/
def Candidate.Measured (c : Candidate α) : Prop :=
  Scalar.isFinite c.major = true ∧ Scalar.isFinite c.minor = true

/-- The shape is measured, and too large or too long for a finger. Without a minor size, the ratio
of the sizes is unbounded. -/
def Candidate.PalmShaped (settings : TouchSettings α) (c : Candidate α) : Prop :=
  c.Measured ∧ (c.major > settings.sizeMax ∨
    (c.minor > 0.0 ∧ c.major / c.minor > settings.aspectMax) ∨
    (¬c.minor > 0.0 ∧ Scalar.unbounded > settings.aspectMax))

/-- The shape is measured, and too small or too round for a finger. -/
def Candidate.Slight (settings : TouchSettings α) (c : Candidate α) : Prop :=
  c.Measured ∧ (c.major < settings.sizeMin ∨
    (c.minor > 0.0 ∧ c.major / c.minor < settings.aspectMin) ∨
    (¬c.minor > 0.0 ∧ Scalar.unbounded < settings.aspectMin))

instance (c : Candidate α) : Decidable c.Measured := inferInstanceAs (Decidable (_ ∧ _))

instance (settings : TouchSettings α) (c : Candidate α) : Decidable (c.PalmShaped settings) :=
  inferInstanceAs (Decidable (_ ∧ _))

instance (settings : TouchSettings α) (c : Candidate α) : Decidable (c.Slight settings) :=
  inferInstanceAs (Decidable (_ ∧ _))

theorem ite_iff_or {β : Type} (P : β → Prop) {q : Prop} [Decidable q] (x y : β) :
    P (if q then x else y) ↔ (q ∧ P x) ∨ (¬q ∧ P y) := by
  by_cases h : q <;> simp [h]

section Classify

variable (settings : TouchSettings α) (palm : Bool) (c : Candidate α)

theorem Candidate.palmShaped_iff : c.PalmShaped settings ↔
    c.Measured ∧ (c.major > settings.sizeMax ∨ c.aspect > settings.aspectMax) := by
  unfold PalmShaped aspect
  rw [ite_iff_or (· > settings.aspectMax)]

theorem Candidate.slight_iff : c.Slight settings ↔
    c.Measured ∧ (c.major < settings.sizeMin ∨ c.aspect < settings.aspectMin) := by
  unfold Slight aspect
  rw [ite_iff_or (· < settings.aspectMin)]

/-- A palm goes before all else, and a shape that is not measured before one that is too small. -/
theorem classify_eq :
    classify settings palm c =
      if palm = true ∨ c.PalmShaped settings then (.invalid, true)
      else if ¬c.Measured then (.undetermined, false)
      else if c.Slight settings then (.invalid, false)
      else (.valid, false) := by
  have hmeasured : (¬Scalar.isFinite c.major ∨ ¬Scalar.isFinite c.minor) ↔ ¬c.Measured :=
    not_and_or.symm
  unfold classify
  simp only [hmeasured]
  cases palm with
  | true => simp only [if_true, true_or]
  | false =>
    -- A palm's shape is measured, so it does not matter which of the two is looked at first.
    by_cases hm : c.Measured
    · simp [hm, Candidate.palmShaped_iff, Candidate.slight_iff]
    · simp [hm, Candidate.palmShaped_iff]

theorem classify_palm :
    (classify settings palm c).2 = true ↔ palm = true ∨ c.PalmShaped settings := by
  rw [classify_eq]
  split_ifs <;> simp_all

theorem classify_invalid :
    (classify settings palm c).1 = .invalid ↔
      (palm = true ∨ c.PalmShaped settings) ∨ c.Slight settings := by
  have hmeasured : c.Slight settings → c.Measured := And.left
  rw [classify_eq]
  split_ifs <;> simp_all

theorem classify_undetermined :
    (classify settings palm c).1 = .undetermined ↔
      ¬(palm = true ∨ c.PalmShaped settings) ∧ ¬c.Measured := by
  rw [classify_eq]
  split_ifs <;> simp_all

theorem classify_valid :
    (classify settings palm c).1 = .valid ↔
      ¬(palm = true ∨ c.PalmShaped settings) ∧ c.Measured ∧ ¬c.Slight settings := by
  rw [classify_eq]
  split_ifs <;> simp_all

end Classify

namespace Tracker

/-! ## Chains -/

variable {settings : TouchSettings α} {candidates : List (Candidate α)}
  {earlier frames : List (List (Candidate α))} {i : Nat} {contact : Contact α}
  {chain before later : List (Contact α)}

/-- The tracker after a run of frames, given the latest first. -/
def past (settings : TouchSettings α) (frames : List (List (Candidate α))) : Tracker α :=
  after (frames.reverse.map (.update settings))

theorem past_cons (settings : TouchSettings α) (candidates : List (Candidate α))
    (earlier : List (List (Candidate α))) :
    past settings (candidates :: earlier) =
      ((past settings earlier).update settings candidates).1 := by
  unfold past after
  rw [List.reverse_cons, List.map_append, List.foldl_append]
  rfl

theorem not_mem_matching_of_nil (l : Link α) :
    l ∉ (past settings []).matching settings candidates := by
  intro hl
  obtain ⟨-, u, -, hu, -⟩ := within_of_mem_assign hl
  cases hu

/-- The contacts that led to the one at a place of the latest frame, that one first, back through
the matching to the one that started the identity. -/
inductive Chain (settings : TouchSettings α) :
    List (List (Candidate α)) → Nat → List (Contact α) → Prop
  | start {candidates : List (Candidate α)} {earlier : List (List (Candidate α))} {i : Nat}
      {contact : Contact α}
      (hcontact : ((past settings earlier).update settings candidates).2[i]? = some contact)
      (hnew : ∀ l ∈ (past settings earlier).matching settings candidates, l.candidate ≠ i) :
      Chain settings (candidates :: earlier) i [contact]
  | next {candidates : List (Candidate α)} {earlier : List (List (Candidate α))} {i : Nat}
      {contact : Contact α} {l : Link α} {chain : List (Contact α)}
      (hcontact : ((past settings earlier).update settings candidates).2[i]? = some contact)
      (hl : l ∈ (past settings earlier).matching settings candidates) (hi : l.candidate = i)
      (hchain : Chain settings earlier l.track chain) :
      Chain settings (candidates :: earlier) i (contact :: chain)

theorem Chain.tail (h : Chain settings frames i (contact :: chain)) (hchain : chain ≠ []) :
    ∃ frames i, Chain settings frames i chain := by
  cases h with
  | start => exact absurd rfl hchain
  | next _ _ _ hbefore => exact ⟨_, _, hbefore⟩

theorem Chain.drop (h : Chain settings frames i (later ++ contact :: before)) :
    ∃ frames i, Chain settings frames i (contact :: before) := by
  induction later generalizing frames i with
  | nil => exact ⟨frames, i, h⟩
  | cons d later ih =>
    have hmore : later ++ contact :: before ≠ [] :=
      List.append_ne_nil_of_right_ne_nil later (List.cons_ne_nil contact before)
    obtain ⟨frames, i, hchain⟩ := h.tail hmore
    exact ih hchain

theorem Chain.unique (h : Chain settings frames i chain) :
    ∀ {other : List (Contact α)}, Chain settings frames i other → other = chain := by
  induction h with
  | start hcontact hnew =>
    intro other hother
    cases hother with
    | start hcontact' => rw [Option.some.inj (hcontact'.symm.trans hcontact)]
    | next hcontact' hl hi => exact absurd hi (hnew _ hl)
  | next hcontact hl hi hchain ih =>
    intro other hother
    cases hother with
    | start hcontact' hnew => exact absurd hi (hnew _ hl)
    | next hcontact' hl' hi' hchain' =>
      obtain rfl := eq_of_meets hl' hl (Link.meets_iff.mpr (Or.inl (hi'.trans hi.symm)))
      rw [Option.some.inj (hcontact'.symm.trans hcontact), ih hchain']

theorem exists_chain
    (h : ((past settings earlier).update settings candidates).2[i]? = some contact) :
    ∃ before, Chain settings (candidates :: earlier) i (contact :: before) := by
  induction earlier generalizing candidates i contact with
  | nil => exact ⟨[], .start h fun l hl => absurd hl (not_mem_matching_of_nil l)⟩
  | cons previous earlier ih =>
    by_cases hlink : ∃ l ∈ (past settings (previous :: earlier)).matching settings candidates,
        l.candidate = i
    · -- The track at the other end was left with a contact, which has a chain.
      obtain ⟨l, hl, hi⟩ := hlink
      obtain ⟨-, u, -, hu, -⟩ := within_of_mem_assign hl
      rw [past_cons, tracks_update, List.getElem?_map] at hu
      obtain ⟨r, hr, -⟩ := Option.map_eq_some_iff.mp hu
      obtain ⟨before, hchain⟩ := ih (getElem?_update hr).2
      exact ⟨_, .next h hl hi hchain⟩
    · exact ⟨[], .start h fun l hl hi => hlink ⟨l, hl, hi⟩⟩

theorem exists_link_of_lone {t : Tracker α} {u : Track α} {c : Candidate α} (ht : t.tracks = [u])
    (h : u.mean.distance c.mean ≤ settings.trackingDistance) :
    ∃ l ∈ t.matching settings [c], l.candidate = 0 ∧ l.track = 0 := by
  simp [matching, assign, ht, links, h, keepFree, keep]

theorem exists_chain_of_lone (settings : TouchSettings α) (c d : Candidate α)
    (h : c.mean.distance d.mean ≤ settings.trackingDistance) :
    ∃ x y : Contact α, x.toCandidate = c ∧ y.toCandidate = d ∧
      Chain settings [[d], [c]] 0 [y, x] := by
  have hnone : ∀ l ∈ (past settings []).matching settings [c], l.candidate ≠ 0 :=
    fun l hl => absurd hl (not_mem_matching_of_nil l)
  have hc : [c][0]? = some c := rfl
  obtain ⟨id, -, htrack, hx⟩ := update_new hc hnone
  rw [← past_cons] at htrack
  have hlone : (past settings [[c]]).tracks = [((Track.start id c).judge settings c).1] := by
    have hlen : (past settings [[c]]).tracks.length = 1 := by
      rw [past_cons, length_update, List.length_singleton]
    obtain ⟨u, hu⟩ := List.length_eq_one_iff.mp hlen
    rw [hu] at htrack ⊢
    rw [Option.some.inj htrack]
  obtain ⟨l, hl, hlc, hlt⟩ := exists_link_of_lone hlone h
  have hd : [d][l.candidate]? = some d := hlc ▸ rfl
  have hy := (update_matched hl hd (hlt ▸ htrack)).2
  rw [hlc] at hy
  have hfirst : Chain settings [[c]] l.track [((Track.start id c).judge settings c).2] :=
    hlt ▸ .start hx hnone
  refine ⟨_, _, ?_, ?_, .next hy hl hlc hfirst⟩ <;> rfl

/-! ## What a track remembers -/

/-- A track has the identity of a chain, and is a palm if some contact of it had a palm's shape. -/
structure Remembers (settings : TouchSettings α) (chain : List (Contact α)) (u : Track α) :
    Prop where
  id : ∀ c ∈ chain, c.id = u.id
  palm : u.palm = true ↔ ∃ c ∈ chain, c.PalmShaped settings

theorem remembers_start (id : Nat) (c : Candidate α) :
    Remembers settings [] (Track.start id c) where
  id := by simp
  palm := by simp [Track.start]

theorem Remembers.advance {u : Track α} (h : Remembers settings chain u) (c : Candidate α) :
    Remembers settings chain (u.advance settings c) := ⟨h.id, h.palm⟩

/-- **One judgement.** A judged track also remembers the contact that is reported. -/
theorem Remembers.judge {u : Track α} (h : Remembers settings before u) (c : Candidate α) :
    Remembers settings ((u.judge settings c).2 :: before) (u.judge settings c).1 where
  id := List.forall_mem_cons.mpr ⟨rfl, h.id⟩
  palm := by
    have hpalm := classify_palm settings u.palm c
    rw [h.palm, or_comm] at hpalm
    refine hpalm.trans ?_
    rw [List.exists_mem_cons_iff]
    rfl

theorem getElem?_toCandidate {t : Tracker α}
    (h : (t.update settings candidates).2[i]? = some contact) :
    candidates[i]? = some contact.toCandidate := by
  rw [← t.toCandidate_update settings candidates, List.getElem?_map, h]
  rfl

/-- **Along a chain.** What holds when a track starts, and goes on to hold whenever a track is
matched, holds of the track that a chain has left. -/
theorem Chain.carries {P : List (Contact α) → Track α → Prop}
    (start : ∀ id c, P [((Track.start id c).judge settings c).2]
      ((Track.start id c).judge settings c).1)
    (next : ∀ chain u c, P chain u → P (((u.advance settings c).judge settings c).2 :: chain)
      ((u.advance settings c).judge settings c).1)
    (h : Chain settings frames i chain) :
    ∃ u, (past settings frames).tracks[i]? = some u ∧ P chain u := by
  induction h with
  | start hcontact hnew =>
    obtain ⟨id, -, htrack, hjudged⟩ := update_new (getElem?_toCandidate hcontact) hnew
    refine ⟨_, (past_cons settings ..) ▸ htrack, ?_⟩
    rw [Option.some.inj (hcontact.symm.trans hjudged)]
    exact start id _
  | next hcontact hl hi hchain ih =>
    subst hi
    obtain ⟨u, hu, hP⟩ := ih
    obtain ⟨htrack, hjudged⟩ := update_matched hl (getElem?_toCandidate hcontact) hu
    refine ⟨_, (past_cons settings ..) ▸ htrack, ?_⟩
    rw [Option.some.inj (hcontact.symm.trans hjudged)]
    exact next _ u _ hP

/-- The latest contact of a chain was judged by a track that remembers the ones before it. -/
theorem Chain.exists_judge (h : Chain settings frames i chain) :
    ∃ t c before, Remembers settings before t ∧ chain = (t.judge settings c).2 :: before ∧
      (past settings frames).tracks[i]? = some (t.judge settings c).1 := by
  obtain ⟨-, hu, t, c, before, ht, hchain, rfl⟩ :=
    Chain.carries (P := fun chain u => ∃ t c before, Remembers settings before t ∧
        chain = (t.judge settings c).2 :: before ∧ u = (t.judge settings c).1)
      (fun id c => ⟨_, c, [], remembers_start id c, rfl, rfl⟩)
      (fun chain u c ⟨t, d, before, ht, hchain, hu⟩ =>
        ⟨_, c, chain, hchain ▸ hu ▸ (ht.judge d).advance c, rfl, rfl⟩) h
  exact ⟨t, c, before, ht, hchain, hu⟩

/-! ## The verdict -/

/-- The contacts of a chain have one identity, and the verdict on the latest follows from its shape
and from whether some contact of the chain has a palm's. -/
theorem Chain.verdict (h : Chain settings frames i (contact :: before)) :
    (∀ c ∈ before, c.id = contact.id) ∧
      (contact.validity = .invalid ↔
        (∃ c ∈ contact :: before, c.PalmShaped settings) ∨ contact.Slight settings) ∧
      (contact.validity = .undetermined ↔
        ¬(∃ c ∈ contact :: before, c.PalmShaped settings) ∧ ¬contact.Measured) ∧
      (contact.validity = .valid ↔
        ¬(∃ c ∈ contact :: before, c.PalmShaped settings) ∧ contact.Measured ∧
          ¬contact.Slight settings) := by
  obtain ⟨t, c, before', ht, hchain, -⟩ := h.exists_judge
  obtain ⟨rfl, rfl⟩ := List.cons.inj hchain
  have hpalm : (t.palm = true ∨ c.PalmShaped settings) ↔
      ∃ d ∈ (t.judge settings c).2 :: before, d.PalmShaped settings :=
    (classify_palm settings t.palm c).symm.trans (ht.judge c).palm
  rw [← hpalm]
  exact ⟨ht.id, classify_invalid settings t.palm c, classify_undetermined settings t.palm c,
    classify_valid settings t.palm c⟩

/-- **The verdict.** Every contact has one chain. The contact is invalid just if some contact of the
chain has a palm's shape or it is itself too small or too round, undetermined just if none has a
palm's shape and its own sizes are no numbers, and valid otherwise. A contact that is not matched is
a chain of its own, whatever its identity stood for before. -/
theorem verdict_iff_chain (settings : TouchSettings α) (earlier : List (List (Candidate α)))
    (candidates : List (Candidate α)) (i : Nat) (contact : Contact α)
    (h : ((past settings earlier).update settings candidates).2[i]? = some contact) :
    candidates[i]? = some contact.toCandidate ∧
    ∃ before, Chain settings (candidates :: earlier) i (contact :: before) ∧
      (∀ chain, Chain settings (candidates :: earlier) i chain → chain = contact :: before) ∧
      (∀ c ∈ before, c.id = contact.id) ∧
      ((∀ l ∈ (past settings earlier).matching settings candidates, l.candidate ≠ i) →
        before = []) ∧
      (contact.validity = .invalid ↔
        (∃ c ∈ contact :: before, c.PalmShaped settings) ∨ contact.Slight settings) ∧
      (contact.validity = .undetermined ↔
        ¬(∃ c ∈ contact :: before, c.PalmShaped settings) ∧ ¬contact.Measured) ∧
      (contact.validity = .valid ↔
        ¬(∃ c ∈ contact :: before, c.PalmShaped settings) ∧ contact.Measured ∧
          ¬contact.Slight settings) := by
  obtain ⟨before, hchain⟩ := exists_chain h
  obtain ⟨hid, hverdict⟩ := hchain.verdict
  refine ⟨getElem?_toCandidate h, before, hchain, fun chain => hchain.unique, hid, ?_, hverdict⟩
  intro hnew
  exact (List.cons.inj (hchain.unique (.start h hnew))).2.symm

/-- A shape without sizes where a palm was is still a palm. -/
theorem verdict_iff_chain_vanished :
    let palm : Candidate Float :=
      { mean := ⟨0.5, 0.5⟩, major := 0.3, minor := 0.3, orientation := 0.0 }
    let vague : Candidate Float := { palm with major := 0.0 / 0.0 }
    ∃ contact, ((past .relative [[palm]]).update .relative [vague]).2[0]? = some contact ∧
      ¬contact.Measured ∧ contact.validity = .invalid := by
  intro palm vague
  obtain ⟨x, y, hx, hy, hchain⟩ :=
    exists_chain_of_lone .relative palm vague (by decide +kernel)
  have hcontact : ((past .relative [[palm]]).update .relative [vague]).2[0]? = some y := by
    cases hchain with
    | next hcontact => exact hcontact
  obtain ⟨-, before, -, hunique, -, -, hinvalid, -⟩ :=
    verdict_iff_chain .relative [[palm]] [vague] 0 y hcontact
  rw [← hunique _ hchain] at hinvalid
  refine ⟨y, hcontact, ?_, hinvalid.mpr (Or.inl ⟨x, by simp, ?_⟩)⟩
  · rw [hy]
    decide +kernel
  · rw [hx]
    decide +kernel

/-! ## Palms -/

/-- **Palms stay.** Unless it is only too small or too round, and no contact of its chain so far has
a palm's shape, an invalid contact is followed by invalid contacts for as long as it is matched. -/
theorem palm_stays_invalid (h : Chain settings frames i (later ++ contact :: before))
    (hinvalid : contact.validity = .invalid)
    (hshape : ¬contact.Slight settings ∨ ∃ c ∈ contact :: before, c.PalmShaped settings) :
    ∀ d ∈ later, d.id = contact.id ∧ d.validity = .invalid := by
  have hpalm : ∃ c ∈ contact :: before, c.PalmShaped settings := by
    obtain ⟨frames, i, hcontact⟩ := h.drop
    rcases hcontact.verdict.2.1.mp hinvalid with hpalm | hslight
    · exact hpalm
    · exact hshape.resolve_left (not_not_intro hslight)
  intro d hd
  obtain ⟨newer, older, rfl⟩ := List.append_of_mem hd
  rw [List.append_assoc, List.cons_append] at h
  obtain ⟨frames, i, hchain⟩ := h.drop
  obtain ⟨hid, hverdict, -⟩ := hchain.verdict
  obtain ⟨c, hc, hc'⟩ := hpalm
  refine ⟨(hid contact (by simp)).symm, hverdict.mpr (Or.inl ⟨c, ?_, hc'⟩)⟩
  exact List.mem_cons_of_mem d (List.mem_append_right older hc)

/-- A palm that shrinks to the size of a finger. -/
theorem palm_stays_invalid_shrunk :
    let palm : Candidate Float :=
      { mean := ⟨0.5, 0.5⟩, major := 0.3, minor := 0.3, orientation := 0.0 }
    let finger : Candidate Float := { palm with major := 0.05, minor := 0.05 }
    ∃ x y : Contact Float, Chain .relative [[finger], [palm]] 0 [y, x] ∧
      y.toCandidate = finger ∧ x.validity = .invalid ∧ ¬x.Slight .relative ∧
        y.id = x.id ∧ y.validity = .invalid := by
  intro palm finger
  obtain ⟨x, y, hx, hy, hchain⟩ :=
    exists_chain_of_lone .relative palm finger (by decide +kernel)
  have hpalm : x.PalmShaped .relative := by
    rw [hx]
    decide +kernel
  have hslight : ¬x.Slight .relative := by
    rw [hx]
    decide +kernel
  obtain ⟨frames, i, hfirst⟩ := hchain.tail (List.cons_ne_nil x [])
  have hinvalid : x.validity = .invalid :=
    hfirst.verdict.2.1.mpr (Or.inl ⟨x, List.mem_singleton_self x, hpalm⟩)
  have hlater : ∀ d ∈ [y], d.id = x.id ∧ d.validity = .invalid :=
    palm_stays_invalid hchain hinvalid (Or.inl hslight)
  exact ⟨x, y, hchain, hy, hinvalid, hslight, hlater y (List.mem_singleton_self y)⟩

/-- A contact that was only too small is valid once it has grown. -/
theorem small_does_not_stay_invalid :
    ¬∀ (settings : TouchSettings Float) (frames : List (List (Candidate Float))) (i : Nat)
      (later : List (Contact Float)) (contact : Contact Float) (before : List (Contact Float)),
      Chain settings frames i (later ++ contact :: before) → contact.validity = .invalid →
        ∀ d ∈ later, d.validity = .invalid := by
  intro hstays
  let speck : Candidate Float :=
    { mean := ⟨0.5, 0.5⟩, major := 0.001, minor := 0.001, orientation := 0.0 }
  let finger : Candidate Float := { speck with major := 0.05, minor := 0.05 }
  obtain ⟨x, y, hx, hy, hchain⟩ :=
    exists_chain_of_lone .relative speck finger (by decide +kernel)
  obtain ⟨frames, i, hfirst⟩ := hchain.tail (List.cons_ne_nil x [])
  have hinvalid : x.validity = .invalid := by
    refine hfirst.verdict.2.1.mpr (Or.inr ?_)
    rw [hx]
    decide +kernel
  have hlater := hstays .relative _ 0 [y] x [] hchain hinvalid y (List.mem_singleton_self y)
  have hvalid : ¬((∃ c ∈ [y, x], c.PalmShaped .relative) ∨ y.Slight .relative) := by
    simp only [List.exists_mem_cons_iff, List.not_mem_nil, false_and, exists_false, or_false, hx,
      hy]
    decide +kernel
  exact hvalid (hchain.verdict.2.1.mp hlater)

end Tracker

end PenTouch
