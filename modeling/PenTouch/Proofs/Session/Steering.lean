import PenTouch.Proofs.Session.History

/-!
# What turns the cones

The cones of a frame are turned by the palms that the finder has seen in it, and by nothing else. A
contact that is a palm only because it lies in a cone turns none, neither in its own frame nor in a
later one.

1. `turn_eq_turnTo`: turning a table palm after palm turns each pen's cone by all palms in order.
2. `screen_spec`: a frame's contacts are looked at after the cones have been turned.
3. `pens_after`: over a history, the pens are moved by the finder's palms and by the samples of the
   pens (`Session.moves`). Neither depends on the pens.
-/

namespace PenTouch

/-! ## Cones -/

section Cones

variable {α : Type} [Scalar α] {now : Time}

theorem Cone.alive_updateDirection (c : Cone α) (p : Point α) :
    (c.updateDirection p now).alive = c.alive := by
  unfold Cone.updateDirection
  split <;> rfl

/-- The cone turned towards each of the points in turn, at one time. -/
def Cone.turnTo (c : Cone α) (points : List (Point α)) (now : Time) : Cone α :=
  points.foldl (fun c p => c.updateDirection p now) c

end Cones

/-- The pen with its cone, if that is alive, turned towards each of the points in turn. -/
def Pen.turnTo (pen : Pen) (points : List (Point Float)) (now : Time) : Pen :=
  if pen.cone.alive then { pen with cone := pen.cone.turnTo points now } else pen

theorem Pen.turnTo_nil (pen : Pen) (now : Time) : pen.turnTo [] now = pen := by
  unfold Pen.turnTo
  split <;> rfl

theorem Pen.turnTo_cons (pen : Pen) (p : Point Float) (points : List (Point Float)) (now : Time) :
    pen.turnTo (p :: points) now = (pen.turnTo [p] now).turnTo points now := by
  unfold Pen.turnTo
  by_cases hp : pen.cone.alive = true
  · -- Turning leaves the origin, so the rest of the points finds the cone alive too.
    have hp' : (pen.cone.turnTo [p] now).alive = true := by
      rw [← hp]
      exact Cone.alive_updateDirection _ p
    rw [if_pos hp, if_pos hp, if_pos hp']
    rfl
  · rw [if_neg hp, if_neg hp, if_neg hp]

/-! ## Tables -/

/-- The positions of the palms among the contacts, in order. -/
def Panel.palms (panel : Panel) (contacts : List (Contact Float)) : List (Point Float) :=
  (contacts.filter (·.validity == .invalid)).map (·.physical panel.width panel.height)

namespace PenTable

variable {t : PenTable} {now : Time}

/-- The table with every pen's cone, if that is alive, turned towards each of the points in turn. -/
def turnTo (t : PenTable) (points : List (Point Float)) (now : Time) : PenTable :=
  { t with
    pens := t.pens.map (·.turnTo points now)
    current_lt := by rw [List.length_map]; exact t.current_lt }

theorem ext_pens {t u : PenTable} (hs : t.settings = u.settings) (hp : t.pens = u.pens)
    (hc : t.current = u.current) : t = u := by
  cases t
  cases u
  cases hs
  cases hp
  cases hc
  rfl

theorem turnTo_nil (t : PenTable) (now : Time) : t.turnTo [] now = t := by
  refine ext_pens rfl ?_ rfl
  exact (List.map_congr_left fun pen _ => pen.turnTo_nil now).trans (List.map_id _)

theorem turnTo_cons (t : PenTable) (p : Point Float) (points : List (Point Float)) (now : Time) :
    t.turnTo (p :: points) now = (t.updateDirection p now).turnTo points now := by
  refine ext_pens rfl ?_ rfl
  show t.pens.map (·.turnTo (p :: points) now) = (t.pens.map (·.turnTo [p] now)).map _
  rw [List.map_map]
  exact List.map_congr_left fun pen _ => pen.turnTo_cons p points now

/-- **Turning.** Each cone that is alive is turned towards each palm in turn. -/
theorem turn_eq_turnTo (t : PenTable) (panel : Panel) (contacts : List (Contact Float))
    (now : Time) : t.turn panel contacts now = t.turnTo (panel.palms contacts) now := by
  unfold turn Panel.palms
  generalize contacts.filter (·.validity == .invalid) = palms
  induction palms generalizing t with
  | nil => exact (t.turnTo_nil now).symm
  | cons palm palms ih =>
    rw [List.foldl_cons, List.map_cons, turnTo_cons]
    exact ih _

theorem anyAlive_iff : t.anyAlive = true ↔ ∃ pen ∈ t.pens, pen.cone.alive = true :=
  List.any_eq_true

theorem turnTo_of_dead (ht : ¬t.anyAlive = true) (points : List (Point Float)) :
    t.turnTo points now = t := by
  refine ext_pens rfl ?_ rfl
  refine (List.map_congr_left fun pen hpen => ?_).trans (List.map_id _)
  exact if_neg fun hp => ht (anyAlive_iff.mpr ⟨pen, hpen, hp⟩)

/-! ## Screening -/

/-- Some active cone contains the contact. -/
def Covers (t : PenTable) (panel : Panel) (now : Time) (c : Contact Float) : Prop :=
  ∃ pen ∈ t.pens, pen.cone.active now = true ∧
    pen.cone.contains (c.physical panel.width panel.height) = true

/-- The contact is reported as it was found, or as invalid if it was not and lies in a cone. -/
structure Judges (t : PenTable) (panel : Panel) (now : Time) (found reported : Contact Float) :
    Prop where
  rejected : found.validity ≠ .invalid → t.Covers panel now found →
    reported = { found with validity := .invalid }
  kept : found.validity = .invalid ∨ ¬t.Covers panel now found → reported = found

/-- The number of contacts that are not reported as they were found. -/
def rejudged (found reported : List (Contact Float)) : Nat :=
  (found.zip reported).countP fun c => c.1.validity != c.2.validity

theorem rejectsContact_iff {panel : Panel} {c : Contact Float} :
    t.rejectsContact panel now c = true ↔ c.validity ≠ .invalid ∧ t.Covers panel now c := by
  unfold rejectsContact rejects Covers
  simp only [Bool.and_eq_true, bne_iff_ne, List.any_eq_true]

theorem rejudged_cons (c c' : Contact Float) (found reported : List (Contact Float)) :
    rejudged (c :: found) (c' :: reported) =
      rejudged found reported + if c.validity = c'.validity then 0 else 1 := by
  unfold rejudged
  rw [List.zip_cons_cons, List.countP_cons]
  by_cases h : c.validity = c'.validity <;> simp [h]

theorem rejudged_self (contacts : List (Contact Float)) : rejudged contacts contacts = 0 := by
  induction contacts with
  | nil => rfl
  | cons c contacts ih => rw [rejudged_cons, ih, if_pos rfl]

/-- As many contacts are reported otherwise than they were found as a table takes out. -/
theorem rejudged_map (t : PenTable) (panel : Panel) (now : Time) (contacts : List (Contact Float)) :
    rejudged contacts (contacts.map fun c =>
        if t.rejectsContact panel now c then { c with validity := .invalid } else c) =
      contacts.countP (t.rejectsContact panel now) := by
  induction contacts with
  | nil => rfl
  | cons c contacts ih =>
    rw [List.map_cons, rejudged_cons, List.countP_cons, ih]
    congr 1
    by_cases hc : t.rejectsContact panel now c = true
    · rw [if_pos hc, if_pos hc, if_neg (rejectsContact_iff.mp hc).1]
    · rw [if_neg hc, if_neg hc, if_pos rfl]

variable {panel : Panel} {contacts : List (Contact Float)}

theorem screen_alive (h : (t.settings.enabled && t.anyAlive) = true) :
    t.screen panel contacts now =
      { pens := t.turnTo (panel.palms contacts) now
        contacts := contacts.map fun c =>
          if (t.turnTo (panel.palms contacts) now).rejectsContact panel now c then
            { c with validity := .invalid }
          else c
        rejected :=
          contacts.countP ((t.turnTo (panel.palms contacts) now).rejectsContact panel now) } := by
  unfold screen
  rw [if_pos h, turn_eq_turnTo]

theorem pens_screen (t : PenTable) (panel : Panel) (contacts : List (Contact Float)) (now : Time) :
    (t.screen panel contacts now).pens =
      if t.settings.enabled then t.turnTo (panel.palms contacts) now else t := by
  by_cases h : (t.settings.enabled && t.anyAlive) = true
  · rw [screen_alive h, if_pos (Bool.and_eq_true_iff.mp h).1]
  · rw [screen_idle (Bool.eq_false_iff.mpr h)]
    split
    · rename_i henabled
      refine (turnTo_of_dead (fun halive => h ?_) _).symm
      rw [henabled, halive]
      rfl
    · rfl

theorem forall₂_judges_screen (h : (t.settings.enabled && t.anyAlive) = true) :
    List.Forall₂ ((t.screen panel contacts now).pens.Judges panel now) contacts
      (t.screen panel contacts now).contacts := by
  rw [screen_alive h]
  refine List.forall₂_map_right_iff.mpr (List.forall₂_same.mpr fun c _ => ?_)
  constructor
  · intro hvalid hcovers
    exact if_pos (rejectsContact_iff.mpr ⟨hvalid, hcovers⟩)
  · intro hkept
    refine if_neg fun hc => ?_
    obtain ⟨hvalid, hcovers⟩ := rejectsContact_iff.mp hc
    exact hkept.elim hvalid fun h => h hcovers

theorem rejected_screen (t : PenTable) (panel : Panel) (contacts : List (Contact Float))
    (now : Time) : (t.screen panel contacts now).rejected =
      rejudged contacts (t.screen panel contacts now).contacts := by
  by_cases h : (t.settings.enabled && t.anyAlive) = true
  · rw [screen_alive h]
    exact (rejudged_map _ panel now contacts).symm
  · rw [screen_idle (Bool.eq_false_iff.mpr h)]
    exact (rejudged_self contacts).symm

/-- **Screening.** Cones that are enabled, one of them alive, are turned towards the palms and then
judge the contacts. Other cones neither turn nor judge. -/
theorem screen_spec (t : PenTable) (panel : Panel) (contacts : List (Contact Float)) (now : Time) :
    let screened := t.screen panel contacts now
    (if t.settings.enabled = true ∧ ∃ pen ∈ t.pens, pen.cone.alive = true then
      screened.pens = t.turnTo (panel.palms contacts) now ∧
        List.Forall₂ (screened.pens.Judges panel now) contacts screened.contacts
    else screened.pens = t ∧ screened.contacts = contacts) ∧
      screened.rejected = rejudged contacts screened.contacts := by
  intro screened
  refine ⟨?_, t.rejected_screen panel contacts now⟩
  have hon : (t.settings.enabled && t.anyAlive) = true ↔
      t.settings.enabled = true ∧ ∃ pen ∈ t.pens, pen.cone.alive = true := by
    rw [Bool.and_eq_true_iff, anyAlive_iff]
  by_cases h : t.settings.enabled = true ∧ ∃ pen ∈ t.pens, pen.cone.alive = true
  · rw [if_pos h]
    exact ⟨congrArg (·.pens) (screen_alive (hon.mpr h)), forall₂_judges_screen (hon.mpr h)⟩
  · rw [if_neg h]
    have hidle : t.screen panel contacts now = { pens := t, contacts, rejected := 0 } :=
      screen_idle (Bool.eq_false_iff.mpr (mt hon.mp h))
    exact ⟨congrArg (·.pens) hidle, congrArg (·.contacts) hidle⟩

/-- A palm turns the cone of a pen in the corner, which rejects the one touch of two that lies
towards the palm. -/
example :
    let cone : Cone Float :=
      { angleCos := 0.9, distance := 60.0, timeout := .ofMilliseconds 1000
        halfLife := .ofMilliseconds 1, origin := some ⟨⟨0.0, 0.0⟩, 0⟩ }
    let t : PenTable := ⟨.default, [{ serial := 7, cone }], 0, Nat.one_pos⟩
    let contact (id : Nat) (x y : Float) (validity : Validity) : Contact Float :=
      { id, mean := ⟨x, y⟩, major := 0.05, minor := 0.04, orientation := 0.0, stable := true,
        validity }
    let screened := t.screen ⟨100.0, 100.0⟩
      [contact 0 0.5 0.5 .invalid, contact 1 0.25 0.25 .valid, contact 2 0.5 0.0 .valid] 0
    t.activeCount 0 = 0 ∧ screened.pens.activeCount 0 = 1 ∧ screened.rejected = 1 ∧
      screened.contacts.map (·.validity) = [.invalid, .invalid, .valid] := by
  decide +kernel

theorem settings_screen (t : PenTable) (panel : Panel) (contacts : List (Contact Float))
    (now : Time) : (t.screen panel contacts now).pens.settings = t.settings := by
  rw [pens_screen]
  split <;> rfl

theorem settings_report (t : PenTable) (sample : PenSample Float) (position : Point Float)
    (now : Time) : (t.report sample position now).settings = t.settings := by
  show (t.switch sample.serial).settings = t.settings
  unfold switch
  split
  · rfl
  · split <;> rfl

/-! ## Moves -/

/-- Something that changes the pens of a table. -/
inductive Move where
  /-- A pen has reported a sample at a position. -/
  | report (sample : PenSample Float) (position : Point Float) (time : Time)
  /-- Palms have been seen. -/
  | palms (points : List (Point Float)) (time : Time)

/-- The table after a move. Palms turn the cones of an enabled table. -/
def move (t : PenTable) : Move → PenTable
  | .report sample position time => t.report sample position time
  | .palms points time => if t.settings.enabled then t.turnTo points time else t

end PenTable

namespace Session

/-- What the events of a session do to its pens. The finder goes from frame to frame, and the
estimator from window to window, by itself. -/
def moves (panel : Panel) : Finder Float → Estimator Float → List Event → List PenTable.Move
  | _, _, [] => []
  | finder, estimator, .frame f :: events =>
    if f.isUsable then
      let (finder, found) := finder.find f.heat
      .palms (panel.palms found) f.time :: moves panel finder estimator events
    else moves panel finder estimator events
  | finder, estimator, .pen sample time :: events =>
    .report sample (sample.physical panel.width panel.height) time ::
      moves panel finder estimator events
  | finder, estimator, .window w :: events =>
    let estimator := estimator.input w
    .report estimator.sample (estimator.sample.physical panel.width panel.height) w.time ::
      moves panel finder estimator events

section Moves

variable {panel : Panel} {finder : Finder Float} {estimator : Estimator Float} {f : Frame}
  {events : List Event}

theorem moves_usable (hf : f.isUsable = true) :
    moves panel finder estimator (.frame f :: events) =
      .palms (panel.palms (finder.find f.heat).2) f.time ::
        moves panel (finder.find f.heat).1 estimator events :=
  if_pos hf

theorem moves_unusable (hf : ¬f.isUsable = true) :
    moves panel finder estimator (.frame f :: events) = moves panel finder estimator events :=
  if_neg hf

end Moves

/-- **Steering.** The pens of a session are moved by the palms that its finder has seen, and by the
samples of the pens. -/
theorem pens_after (s : Session) (events : List Event) :
    (s.after events).pens =
      (moves s.panel s.finder s.estimator events).foldl PenTable.move s.pens := by
  induction events generalizing s with
  | nil => rfl
  | cons e events ih =>
    rw [after_cons, ih]
    cases e with
    | frame f =>
      by_cases hf : f.isUsable = true
      · rw [process_usable s hf, moves_usable hf, List.foldl_cons]
        exact congrArg (List.foldl PenTable.move · _)
          (PenTable.pens_screen s.pens s.panel _ f.time)
      · rw [process_unusable s hf, moves_unusable hf]
        rfl
    | pen sample time => rfl
    | window w => rfl

/-- The palms that move the pens are contacts that the finder, left to itself, finds invalid. -/
theorem exists_palm_of_mem_moves {panel : Panel} {finder : Finder Float}
    {estimator : Estimator Float} {events : List Event} {points : List (Point Float)} {time : Time}
    (h : .palms points time ∈ moves panel finder estimator events) {p : Point Float}
    (hp : p ∈ points) :
    ∃ found ∈ finder.run (Frame.heats (events.filterMap Event.frame?)),
      ∃ c ∈ found, c.validity = .invalid ∧ c.physical panel.width panel.height = p := by
  induction events generalizing finder estimator with
  | nil => cases h
  | cons e events ih =>
    cases e with
    | frame f =>
      show ∃ found ∈ finder.run (Frame.heats (f :: events.filterMap Event.frame?)), _
      rw [Frame.heats_cons]
      by_cases hf : f.isUsable = true
      · rw [moves_usable hf, List.mem_cons] at h
        rw [if_pos hf]
        rcases h with h | h
        · cases h
          obtain ⟨c, hc, hcp⟩ := List.mem_map.mp hp
          obtain ⟨hmem, hinvalid⟩ := List.mem_filter.mp hc
          exact ⟨_, List.mem_cons_self, c, hmem, beq_iff_eq.mp hinvalid, hcp⟩
        · obtain ⟨found, hfound, hc⟩ := ih h
          exact ⟨found, List.mem_cons_of_mem _ hfound, hc⟩
      · rw [moves_unusable hf] at h
        rw [if_neg hf]
        exact ih h
    | pen sample time => exact ih ((List.mem_cons.mp h).resolve_left nofun)
    | window w => exact ih ((List.mem_cons.mp h).resolve_left nofun)

theorem settings_pens_process (s : Session) (e : Event) :
    (s.process e).1.pens.settings = s.pens.settings := by
  cases e with
  | frame f =>
    by_cases hf : f.isUsable = true
    · rw [process_usable s hf]
      exact PenTable.settings_screen s.pens s.panel _ f.time
    · rw [process_unusable s hf]
      rfl
  | pen sample time => exact PenTable.settings_report _ _ _ _
  | window w => exact PenTable.settings_report _ _ _ _

theorem settings_pens_after (s : Session) (events : List Event) :
    (s.after events).pens.settings = s.pens.settings :=
  history_induction (P := fun _ t _ => t.pens.settings = s.pens.settings) rfl
    (fun _ t _ e h => (t.settings_pens_process e).trans h) events

theorem screening_after (settings : SessionSettings) (metadata : Option (Metadata Float))
    (events : List Event) (f : Frame) :
    let s := (new settings metadata).after events
    s.screening f =
      s.pens.screen ⟨settings.width, settings.height⟩ (s.finder.find f.heat).2 f.time := by
  intro s
  unfold screening panel
  rw [settings_after]
  rfl

end Session

/-- **What turns the cones.** Take any session that has come to a frame that can be used, and the
contacts that its finder finds there. If cones are enabled and one is alive, each cone that is alive
is first turned towards the found palms in turn. The contacts are then reported as they were found,
except that one that is no palm becomes invalid just if an active cone of the turned table contains
it. Otherwise the cones stay, and the contacts are reported as they were found. As many more
contacts are counted as rejected as are not reported as they were found.

Over a whole history the pens are moved by their own samples and by the palms that the finder, left
to itself, finds in the frames. So a contact that a cone alone has made invalid never moves them. -/
theorem cones_turned_by_palms (settings : SessionSettings) (metadata : Option (Metadata Float)) :
    let start := Session.new settings metadata
    let panel : Panel := ⟨settings.width, settings.height⟩
    (∀ (before : List Event) (f : Frame), f.isUsable = true →
      let s := start.after before
      let found := (s.finder.find f.heat).2
      let next := (s.process (.frame f)).1
      (s.process (.frame f)).2 = some (.contacts next.contacts) ∧
        (if settings.cone.enabled = true ∧ ∃ pen ∈ s.pens.pens, pen.cone.alive = true then
          next.pens = s.pens.turnTo (panel.palms found) f.time ∧
            List.Forall₂ (next.pens.Judges panel f.time) found next.contacts
        else next.pens = s.pens ∧ next.contacts = found) ∧
        next.counters.rejected =
          s.counters.rejected + PenTable.rejudged found next.contacts) ∧
    ∀ events : List Event,
      let moves := Session.moves panel start.finder start.estimator events
      (start.after events).pens = moves.foldl PenTable.move start.pens ∧
        ∀ points time, .palms points time ∈ moves → ∀ p ∈ points,
          ∃ found ∈ start.finder.run (Frame.heats (events.filterMap Event.frame?)),
            ∃ c ∈ found, c.validity = .invalid ∧ c.physical settings.width settings.height = p := by
  intro start panel
  constructor
  · intro before f hf s found next
    have hscreening : s.screening f = s.pens.screen panel found f.time :=
      Session.screening_after settings metadata before f
    have hpens : next.pens = (s.pens.screen panel found f.time).pens :=
      hscreening ▸ s.pens_usable hf
    have hcontacts : next.contacts = (s.pens.screen panel found f.time).contacts :=
      hscreening ▸ s.contacts_usable hf
    have hrejected : next.counters.rejected =
        s.counters.rejected + (s.pens.screen panel found f.time).rejected :=
      hscreening ▸ congrArg (·.rejected) (s.counters_usable hf)
    have henabled : s.pens.settings.enabled = settings.cone.enabled := by
      rw [Session.settings_pens_after]
      rfl
    obtain ⟨hscreen, hcount⟩ := s.pens.screen_spec panel found f.time
    rw [henabled] at hscreen
    rw [s.answer_usable hf, hscreening, hrejected, hcount, hpens, hcontacts]
    exact ⟨rfl, hscreen, rfl⟩
  · intro events moves
    exact ⟨start.pens_after events, fun points time h p hp => Session.exists_palm_of_mem_moves h hp⟩

/-- A frame beside a pen in range. Its cone rejects nothing yet, and would after a palm in the
middle of the panel. -/
theorem cones_turned_by_palms_pen_frame :
    let s := (Session.new {} none).after [.pen { PenSample.outOfRange 7 with proximity := true } 3]
    let f : Frame := ⟨#[200, 10, 200, 200], 2, 2, 10, 200, 0, 4⟩
    let panel : Panel := ⟨260.0, 173.0⟩
    let found := (s.finder.find f.heat).2
    let next := (s.process (.frame f)).1
    s.pens.activeCount 4 = 0 ∧ (s.pens.turnTo [⟨130.0, 86.5⟩] 4).activeCount 4 = 1 ∧
      f.isUsable = true ∧ next.pens = s.pens.turnTo (panel.palms found) 4 ∧
      List.Forall₂ (next.pens.Judges panel 4) found next.contacts := by
  intro s f panel found next
  have hf : f.isUsable = true := by decide
  have halive : ∃ pen ∈ s.pens.pens, pen.cone.alive = true :=
    PenTable.anyAlive_iff.mp rfl
  obtain ⟨-, hturned, -⟩ := (cones_turned_by_palms {} none).1 _ f hf
  rw [if_pos ⟨rfl, halive⟩] at hturned
  exact ⟨rfl, by decide +kernel, hf, hturned⟩

end PenTouch
