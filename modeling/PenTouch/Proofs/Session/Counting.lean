import Mathlib.Algebra.GroupWithZero.Nat
import PenTouch.Proofs.Session.Steering

/-!
# What the counters say

Each counter of a session is a number that can be told from the events and the outputs of its
history (`Counters.Tally`), apart from those of the cones: no more contacts are rejected than
reported, and the active cones are those of the table that the latest usable frame has left.

1. `Session.answeredBy`: what answer each event has.
2. `Counters.Tally.process`: one event keeps the counters in agreement with the history.
3. `Uncovered.process`: where cones are disabled, no cone ever has a direction, so none is active.
4. `activeCones_after_quiet`: the count of active cones stands until the next usable frame.
-/

namespace PenTouch

/-! ## Changes -/

/-- The number of entries of a list that differ from the one before them. The first entry is
compared with `previous`. -/
def changes {β : Type} [DecidableEq β] : Option β → List β → Nat
  | _, [] => 0
  | previous, b :: l => (if previous = some b then 0 else 1) + changes (some b) l

theorem changes_concat {β : Type} [DecidableEq β] (previous : Option β) (l : List β) (b : β) :
    changes previous (l ++ [b]) =
      changes previous l + if l.getLast?.or previous = some b then 0 else 1 := by
  induction l generalizing previous with
  | nil => by_cases h : previous = some b <;> simp [changes, h]
  | cons a l ih =>
    have hlast : (a :: l).getLast?.or previous = l.getLast?.or (some a) := by
      rw [List.getLast?_cons]
      cases l.getLast? <;> rfl
    rw [List.cons_append, changes, changes, ih, hlast, Nat.add_assoc]

/-! ## Answers -/

def Event.window? : Event → Option (Window Float)
  | frame _ => none
  | pen _ _ => none
  | window w => some w

/-- A usable frame is answered with contacts, any other frame not at all, and a sample or window of
a pen with an event of the pen. -/
def Event.AnsweredBy (e : Event) (answer : Option Output) : Prop :=
  match e with
  | frame f => if f.isUsable then ∃ contacts, answer = some (.contacts contacts) else answer = none
  | pen _ _ => ∃ event, answer = some (.pen event)
  | window _ => ∃ event, answer = some (.pen event)

theorem Session.exists_answer_pen (s : Session) {e : Event} (he : e.frame? = none) :
    ∃ event, (s.process e).2 = some (.pen event) := by
  cases e with
  | frame f => cases he
  | pen sample time => exact ⟨_, rfl⟩
  | window w => exact ⟨_, rfl⟩

theorem Session.answeredBy (s : Session) (e : Event) : e.AnsweredBy (s.process e).2 := by
  cases e with
  | frame f =>
    by_cases hf : f.isUsable = true
    · simp only [Event.AnsweredBy, if_pos hf]
      exact ⟨_, s.answer_usable hf⟩
    · simp only [Event.AnsweredBy, if_neg hf]
      rw [process_unusable s hf]
  | pen sample time => exact s.exists_answer_pen rfl
  | window w => exact s.exists_answer_pen rfl

theorem Session.counters_pen (s : Session) {e : Event} (he : e.frame? = none) :
    (s.process e).1.counters = { s.counters with
      samples := s.counters.samples + 1
      windows := s.counters.windows + e.window?.toList.length } := by
  cases e with
  | frame f => cases he
  | pen sample time => rfl
  | window w => rfl

/-! ## Tallies -/

def Frame.dimensions (f : Frame) : Nat × Nat := (f.height, f.width)

/-- The counters agree with the events received and the outputs given. -/
structure Counters.Tally (c : Counters) (events : List Event) (outputs : List Output) : Prop where
  frames : c.frames = (events.filterMap Event.frame?).length
  samples : c.samples = (outputs.filterMap Output.pen?).length
  windows : c.windows = (events.filterMap Event.window?).length
  contacts : c.contacts = ((outputs.filterMap Output.contacts?).map List.length).sum
  rejected : c.rejected ≤ c.contacts
  malformed : c.malformed = (events.filterMap Event.frame?).countP (!·.isValid)
  resizes :
    c.resizes = changes none ((events.filterMap Event.usableFrame?).map Frame.dimensions)

namespace Session

/-- The intensities are those of a frame of the same dimensions as the latest usable one; before any
there are none. -/
def HeatAgrees (s : Session) (events : List Event) : Prop :=
  (s.heat.rows, s.heat.cols) =
    ((events.filterMap Event.usableFrame?).map Frame.dimensions).getLast?.getD (0, 0)

theorem HeatAgrees.process {s : Session} {events : List Event} (h : s.HeatAgrees events)
    (e : Event) : (s.process e).1.HeatAgrees (events ++ [e]) := by
  unfold HeatAgrees
  cases he : e.usableFrame? with
  | some f =>
    obtain ⟨rfl, hf⟩ := Event.exists_of_usableFrame? he
    rw [Event.filterMap_usableFrame?_concat events hf, List.map_append, List.map_singleton,
      List.getLast?_concat, process_usable s hf]
    rfl
  | none =>
    rw [Event.filterMap_usableFrame?_quiet events he, heat_process_quiet s he]
    exact h

/-- A usable frame is of other dimensions than the intensities just if it is of other dimensions
than the usable frame before it. -/
theorem HeatAgrees.resized_iff {s : Session} {events : List Event} (h : s.HeatAgrees events)
    {f : Frame} (hf : f.isUsable = true) :
    (s.heat.rows ≠ f.height ∨ s.heat.cols ≠ f.width) ↔
      ((events.filterMap Event.usableFrame?).map Frame.dimensions).getLast? ≠
        some f.dimensions := by
  have hpair : (s.heat.rows ≠ f.height ∨ s.heat.cols ≠ f.width) ↔
      (s.heat.rows, s.heat.cols) ≠ f.dimensions := by
    unfold Frame.dimensions
    rw [ne_eq, ne_eq, ne_eq, Prod.mk.injEq, not_and_or]
  unfold HeatAgrees at h
  rw [hpair, h]
  cases ((events.filterMap Event.usableFrame?).map Frame.dimensions).getLast? with
  | none =>
    -- A usable frame has a row, and the intensities before any frame have none.
    have hheight : 0 < f.height := (Frame.isUsable_iff.mp hf).2.1
    refine iff_of_true (fun h => ?_) nofun
    have : 0 = f.height := congrArg Prod.fst h
    omega
  | some d => rw [Option.getD_some, ne_eq, ne_eq, Option.some.injEq]

end Session

namespace Counters.Tally

variable {s : Session} {events : List Event} {outputs : List Output}

theorem usable (h : s.counters.Tally events outputs) (hheat : s.HeatAgrees events) {f : Frame}
    (hf : f.isUsable = true) :
    (s.process (.frame f)).1.counters.Tally (events ++ [Event.frame f])
      (outputs ++ (s.process (.frame f)).2.toList) := by
  have hrejected : (s.screening f).rejected ≤ (s.screening f).contacts.length := by
    unfold Session.screening
    rw [PenTable.length_screen]
    exact PenTable.rejected_screen_le _ _ _ _
  have hcontacts : s.counters.rejected ≤ s.counters.contacts := h.rejected
  rw [s.counters_usable hf, s.answer_usable hf]
  exact
    { frames := by simp [Event.frame?, h.frames]
      samples := by simp [Output.pen?, h.samples]
      windows := by simp [Event.window?, h.windows]
      contacts := by simp [Output.contacts?, h.contacts]
      rejected := by dsimp only; omega
      malformed := by cases hv : f.isValid <;> simp [Event.frame?, h.malformed, hv]
      resizes := by
        rw [Event.filterMap_usableFrame?_concat events hf, List.map_append, List.map_singleton,
          changes_concat, Option.or_none, h.resizes]
        by_cases hlast : ((events.filterMap Event.usableFrame?).map Frame.dimensions).getLast? =
          some f.dimensions
        · rw [if_pos hlast, if_neg (mt (hheat.resized_iff hf).mp (not_not.mpr hlast))]
        · rw [if_neg hlast, if_pos ((hheat.resized_iff hf).mpr hlast)] }

theorem unusable (h : s.counters.Tally events outputs) {f : Frame} (hf : ¬f.isUsable = true) :
    (s.process (.frame f)).1.counters.Tally (events ++ [Event.frame f])
      (outputs ++ (s.process (.frame f)).2.toList) := by
  have hv : f.isValid = false := Bool.eq_false_iff.mpr (mt Frame.isUsable_of_isValid hf)
  rw [s.process_unusable hf]
  exact
    { frames := by simp [Session.countFrame, Event.frame?, h.frames]
      samples := by simp [Session.countFrame, h.samples]
      windows := by simp [Session.countFrame, Event.window?, h.windows]
      contacts := by simp [Session.countFrame, h.contacts]
      rejected := h.rejected
      malformed := by simp [Session.countFrame, Event.frame?, h.malformed, hv]
      resizes := by
        rw [Event.filterMap_usableFrame?_quiet events (Event.usableFrame?_eq_none.mpr hf)]
        exact h.resizes }

theorem pen (h : s.counters.Tally events outputs) {e : Event} (he : e.frame? = none) :
    (s.process e).1.counters.Tally (events ++ [e]) (outputs ++ (s.process e).2.toList) := by
  obtain ⟨p, hanswer⟩ := s.exists_answer_pen he
  have hquiet : e.usableFrame? = none := by rw [Event.usableFrame?, he, Option.filter_none]
  rw [s.counters_pen he, hanswer]
  exact
    { frames := by simp [h.frames, he]
      samples := by simp [Output.pen?, h.samples]
      windows := by cases hw : e.window? <;> simp [h.windows, hw]
      contacts := by simp [List.filterMap_cons, Output.contacts?, h.contacts]
      rejected := h.rejected
      malformed := by simp [h.malformed, he]
      resizes := by rw [Event.filterMap_usableFrame?_quiet events hquiet, h.resizes] }

/-- **One event.** The counters go on agreeing with the history. -/
theorem process (h : s.counters.Tally events outputs) (hheat : s.HeatAgrees events) (e : Event) :
    (s.process e).1.counters.Tally (events ++ [e]) (outputs ++ (s.process e).2.toList) := by
  cases e with
  | frame f =>
    by_cases hf : f.isUsable = true
    · exact h.usable hheat hf
    · exact h.unusable hf
  | pen sample time => exact h.pen rfl
  | window w => exact h.pen rfl

end Counters.Tally

/-- **Tallies.** After any history the counters of a new session agree with it. -/
theorem Session.tally_after (settings : SessionSettings) (metadata : Option (Metadata Float))
    (events : List Event) :
    ((new settings metadata).after events).counters.Tally events
      ((new settings metadata).outputs events) := by
  -- Whether a frame counts as resized is read off the intensities, so these go along.
  have h := history_induction (s := new settings metadata)
    (P := fun events t outputs => t.counters.Tally events outputs ∧ t.HeatAgrees events)
    ⟨⟨rfl, rfl, rfl, rfl, Nat.le_refl _, rfl, rfl⟩, rfl⟩
    (fun _ _ _ e h => ⟨h.1.process h.2 e, h.2.process e⟩) events
  exact h.1

/-! ## Active cones -/

namespace PenTable

theorem activeCount_pos_of_rejected {t : PenTable} {panel : Panel} {contacts : List (Contact Float)}
    {now : Time} (h : (t.screen panel contacts now).rejected ≠ 0) :
    0 < (t.screen panel contacts now).pens.activeCount now := by
  by_cases halive : (t.settings.enabled && t.anyAlive) = true
  · rw [screen_alive halive] at h ⊢
    obtain ⟨c, -, hc⟩ := List.countP_pos_iff.mp (Nat.pos_of_ne_zero h)
    obtain ⟨-, pen, hpen, hactive, -⟩ := rejectsContact_iff.mp hc
    exact List.countP_pos_iff.mpr ⟨pen, hpen, hactive⟩
  · rw [screen_idle (Bool.eq_false_iff.mpr halive)] at h
    exact absurd rfl h

/-- No cone has a direction. -/
def Undirected (t : PenTable) : Prop := ∀ pen ∈ t.pens, pen.cone.direction = none

theorem undirected_new (settings : ConeSettings Float) : (PenTable.new settings).Undirected := by
  intro pen hpen
  rw [List.mem_singleton.mp hpen]
  rfl

theorem Undirected.modifyCurrent {t : PenTable} (h : t.Undirected) {f : Pen → Pen}
    (hf : ∀ pen : Pen, pen.cone.direction = none → (f pen).cone.direction = none) :
    (t.modifyCurrent f).Undirected := by
  intro pen hpen
  rcases List.mem_or_eq_of_mem_set hpen with hpen | rfl
  · exact h pen hpen
  · exact hf _ (h _ (List.get_mem t.pens _))

theorem Undirected.switch {t : PenTable} (h : t.Undirected) (serial : Nat) :
    (t.switch serial).Undirected := by
  unfold PenTable.switch
  split
  · exact h
  · split
    · exact h.modifyCurrent fun pen hpen => hpen
    · intro pen hpen
      rcases List.mem_append.mp hpen with hpen | hpen
      · exact h pen hpen
      · rw [List.mem_singleton.mp hpen]
        rfl

theorem Undirected.report {t : PenTable} (h : t.Undirected) (sample : PenSample Float)
    (position : Point Float) (now : Time) : (t.report sample position now).Undirected := by
  refine (h.switch sample.serial).modifyCurrent fun pen hpen => ?_
  show (if sample.proximity then pen.cone.updatePosition position now
    else pen.cone).direction = none
  split <;> exact hpen

theorem Undirected.activeCount_eq_zero {t : PenTable} (h : t.Undirected) (now : Time) :
    t.activeCount now = 0 := by
  refine List.countP_eq_zero.mpr fun pen hpen hactive => ?_
  unfold Cone.active at hactive
  rw [h pen hpen, Option.any_none, Bool.and_false] at hactive
  exact Bool.false_ne_true hactive

end PenTable

namespace Session

variable {s : Session}

/-- The cones of the session have never been turned, and none was active. -/
structure Uncovered (s : Session) : Prop where
  disabled : s.pens.settings.enabled = false
  undirected : s.pens.Undirected
  rejected : s.counters.rejected = 0
  activeCones : s.counters.activeCones = 0

theorem Uncovered.process (h : s.Uncovered) (e : Event) : (s.process e).1.Uncovered := by
  have hdisabled : (s.process e).1.pens.settings.enabled = false := by
    rw [settings_pens_process, h.disabled]
  cases e with
  | frame f =>
    by_cases hf : f.isUsable = true
    · have hoff : (s.pens.settings.enabled && s.pens.anyAlive) = false := by
        rw [h.disabled, Bool.false_and]
      have hscreening : s.screening f = ⟨s.pens, (s.finder.find f.heat).2, 0⟩ :=
        PenTable.screen_idle hoff
      have hcounters := s.counters_usable hf
      rw [hscreening] at hcounters
      refine ⟨hdisabled, ?_, ?_, ?_⟩
      · rw [s.pens_usable hf, hscreening]
        exact h.undirected
      · rw [hcounters]
        exact h.rejected
      · rw [hcounters]
        exact h.undirected.activeCount_eq_zero f.time
    · rw [process_unusable s hf] at hdisabled ⊢
      exact ⟨hdisabled, h.undirected, h.rejected, h.activeCones⟩
  | pen sample time =>
    exact ⟨hdisabled, h.undirected.report _ _ _, h.rejected, h.activeCones⟩
  | window w => exact ⟨hdisabled, h.undirected.report _ _ _, h.rejected, h.activeCones⟩

theorem uncovered_after {settings : SessionSettings} (h : settings.cone.enabled = false)
    (metadata : Option (Metadata Float)) (events : List Event) :
    ((new settings metadata).after events).Uncovered :=
  history_induction (P := fun _ t _ => t.Uncovered)
    ⟨h, PenTable.undirected_new settings.cone, rfl, rfl⟩ (fun _ _ _ e h => h.process e) events

/-- The count of active cones stands until the next usable frame. -/
theorem activeCones_after_quiet (s : Session) {events : List Event}
    (hevents : ∀ e ∈ events, e.usableFrame? = none) :
    (s.after events).counters.activeCones = s.counters.activeCones := by
  induction events generalizing s with
  | nil => rfl
  | cons e events ih =>
    rw [List.forall_mem_cons] at hevents
    rw [after_cons, ih _ hevents.2, activeCones_process_quiet s hevents.1]

/-- A usable frame counts the active cones of the table that it leaves, and it leaves one if it
rejects a contact. -/
theorem activeCones_usable (s : Session) {f : Frame} (hf : f.isUsable = true) :
    let next := (s.process (.frame f)).1
    next.counters.activeCones = next.pens.activeCount f.time ∧
      (next.counters.rejected = s.counters.rejected ∨ 0 < next.counters.activeCones) := by
  intro next
  have hcounters : next.counters = _ := s.counters_usable hf
  have hpens : next.pens = _ := s.pens_usable hf
  rw [hcounters, hpens]
  refine ⟨rfl, ?_⟩
  by_cases h : (s.screening f).rejected = 0
  · left
    show s.counters.rejected + (s.screening f).rejected = s.counters.rejected
    omega
  · right
    exact PenTable.activeCount_pos_of_rejected h

end Session

/-- **Counters.** Every event of a new session has its answer: a usable frame its contacts, any
other frame none, a sample or window of a pen one event of the pen. The counters agree with the
events and outputs. Until the next usable frame, the count of active cones tells how many cones of
the table that the latest one has left were active at its time; there is one if that frame has
rejected a contact, and none before the first. Where cones are disabled, none is ever active and no
contact is rejected. -/
theorem counters_agree (settings : SessionSettings) (metadata : Option (Metadata Float)) :
    let start := Session.new settings metadata
    (∀ (events : List Event) (e : Event), e.AnsweredBy ((start.after events).process e).2) ∧
      (∀ events : List Event,
        (start.after events).counters.Tally events (start.outputs events)) ∧
      (∀ (before : List Event) (f : Frame) (rest : List Event),
        f.isUsable = true → (∀ e ∈ rest, e.usableFrame? = none) →
        let left := start.after (before ++ [.frame f])
        (start.after (before ++ .frame f :: rest)).counters.activeCones =
            left.pens.activeCount f.time ∧
          (left.counters.rejected = (start.after before).counters.rejected ∨
            0 < left.counters.activeCones)) ∧
      (∀ events : List Event, (∀ e ∈ events, e.usableFrame? = none) →
        (start.after events).counters.activeCones = 0) ∧
      (settings.cone.enabled = false → ∀ events : List Event,
        (start.after events).counters.activeCones = 0 ∧
          (start.after events).counters.rejected = 0) := by
  intro start
  refine ⟨fun events e => (start.after events).answeredBy e,
    fun events => Session.tally_after settings metadata events, ?_, ?_, ?_⟩
  · intro before f rest hf hrest left
    have hleft : left = ((start.after before).process (.frame f)).1 := start.after_concat before _
    obtain ⟨hactive, hrejected⟩ := (start.after before).activeCones_usable hf
    rw [← hleft] at hactive hrejected
    refine ⟨?_, hrejected⟩
    rw [Session.after_append, Session.after_cons, Session.activeCones_after_quiet _ hrest, ← hleft,
      hactive]
  · intro events hevents
    rw [Session.activeCones_after_quiet start hevents]
    rfl
  · intro hdisabled events
    have h := Session.uncovered_after hdisabled metadata events
    exact ⟨h.activeCones, h.rejected⟩

/-- A frame between two samples of a pen, with cones disabled. -/
theorem counters_agree_pen_frame_pen :
    let settings : SessionSettings := { cone := { ConeSettings.default with enabled := false } }
    let start := Session.new settings none
    let f : Frame := ⟨#[200, 10, 200, 200], 2, 2, 10, 200, 0, 4⟩
    let pen : Event := .pen { PenSample.outOfRange 7 with proximity := true } 3
    (start.after [pen, .frame f, pen]).counters.activeCones =
        (start.after [pen, .frame f]).pens.activeCount 4 ∧
      (start.after [pen]).counters.activeCones = 0 ∧
      (start.after [pen, .frame f, pen]).counters.rejected = 0 := by
  intro settings start f pen
  have hf : f.isUsable = true := by decide
  have hpen : ∀ e ∈ [pen], e.usableFrame? = none := by
    rw [List.forall_mem_singleton]
    rfl
  obtain ⟨-, -, hactive, hbefore, hdisabled⟩ := counters_agree settings none
  exact ⟨(hactive [pen] f [pen] hf hpen).1, hbefore [pen] hpen, (hdisabled rfl _).2⟩

end PenTouch
