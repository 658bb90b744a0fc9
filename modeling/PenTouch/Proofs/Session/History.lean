import Mathlib.Data.List.Induction
import PenTouch.Proofs.Session.Separation

/-!
# The history of a session

What a session has become after a list of events, and what it has given out for them. Both are
followed event by event from the end of the list: `history_induction` turns a fact about one event
into one about every history.
-/

namespace PenTouch

def Event.usableFrame? (e : Event) : Option Frame := e.frame?.filter Frame.isUsable

theorem Event.usableFrame?_of_usable {f : Frame} (hf : f.isUsable = true) :
    (frame f).usableFrame? = some f :=
  Option.filter_some_pos hf

theorem Event.usableFrame?_eq_none {f : Frame} :
    (frame f).usableFrame? = none ↔ ¬f.isUsable = true := by
  simp [usableFrame?, frame?]

theorem Event.exists_of_usableFrame? {e : Event} {f : Frame} (h : e.usableFrame? = some f) :
    e = frame f ∧ f.isUsable = true := by
  obtain ⟨hframe, hf⟩ := Option.filter_eq_some_iff.mp h
  cases e with
  | frame g =>
    cases hframe
    exact ⟨rfl, hf⟩
  | pen sample time => cases hframe
  | window w => cases hframe

theorem Event.filterMap_usableFrame?_concat (events : List Event) {f : Frame}
    (hf : f.isUsable = true) :
    (events ++ [frame f]).filterMap usableFrame? = events.filterMap usableFrame? ++ [f] := by
  rw [List.filterMap_append, List.filterMap_cons, usableFrame?_of_usable hf]
  rfl

theorem Event.filterMap_usableFrame?_quiet (events : List Event) {e : Event}
    (he : e.usableFrame? = none) :
    (events ++ [e]).filterMap usableFrame? = events.filterMap usableFrame? := by
  rw [List.filterMap_append, List.filterMap_cons, he]
  exact List.append_nil _

namespace Session

def after (s : Session) (events : List Event) : Session := (s.processAll events).1

def outputs (s : Session) (events : List Event) : List Output := (s.processAll events).2

variable (s : Session)

theorem after_cons (e : Event) (events : List Event) :
    s.after (e :: events) = (s.process e).1.after events := rfl

theorem outputs_cons (e : Event) (events : List Event) :
    s.outputs (e :: events) = (s.process e).2.toList ++ (s.process e).1.outputs events := rfl

theorem after_append (before rest : List Event) :
    s.after (before ++ rest) = (s.after before).after rest := by
  induction before generalizing s with
  | nil => rfl
  | cons e before ih => exact ih (s.process e).1

theorem outputs_append (before rest : List Event) :
    s.outputs (before ++ rest) = s.outputs before ++ (s.after before).outputs rest := by
  induction before generalizing s with
  | nil => rfl
  | cons e before ih =>
    rw [List.cons_append, outputs_cons, ih, outputs_cons, after_cons, List.append_assoc]

theorem after_concat (events : List Event) (e : Event) :
    s.after (events ++ [e]) = ((s.after events).process e).1 :=
  s.after_append events [e]

theorem outputs_concat (events : List Event) (e : Event) :
    s.outputs (events ++ [e]) = s.outputs events ++ ((s.after events).process e).2.toList := by
  rw [outputs_append, outputs_cons]
  exact congrArg _ (List.append_nil _)

variable {s}

/-- What holds at the start, and goes on to hold with every event, holds of every history. -/
theorem history_induction {P : List Event → Session → List Output → Prop} (start : P [] s [])
    (step : ∀ events t outputs e, P events t outputs →
      P (events ++ [e]) (t.process e).1 (outputs ++ (t.process e).2.toList))
    (events : List Event) : P events (s.after events) (s.outputs events) := by
  induction events using List.reverseRecOn with
  | nil => exact start
  | append_singleton events e ih =>
    rw [after_concat, outputs_concat]
    exact step events _ _ e ih

/-! ## What a session does at a usable frame -/

/-- What the pens leave of the contacts that are found in a frame. -/
def screening (s : Session) (f : Frame) : Screening :=
  s.pens.screen s.panel (s.finder.find f.heat).2 f.time

section Usable

variable (s) {f : Frame} (hf : f.isUsable = true)

include hf

theorem answer_usable :
    (s.process (.frame f)).2 = some (.contacts (s.screening f).contacts) := by
  rw [process_usable s hf]
  rfl

theorem contacts_usable : (s.process (.frame f)).1.contacts = (s.screening f).contacts := by
  rw [process_usable s hf]
  rfl

theorem pens_usable : (s.process (.frame f)).1.pens = (s.screening f).pens := by
  rw [process_usable s hf]
  rfl

theorem counters_usable :
    (s.process (.frame f)).1.counters = { s.counters with
      frames := s.counters.frames + 1
      malformed := s.counters.malformed + if f.isValid then 0 else 1
      contacts := s.counters.contacts + (s.screening f).contacts.length
      rejected := s.counters.rejected + (s.screening f).rejected
      resizes := s.counters.resizes +
        if s.heat.rows ≠ f.height ∨ s.heat.cols ≠ f.width then 1 else 0
      activeCones := (s.screening f).pens.activeCount f.time } := by
  rw [process_usable s hf]
  rfl

end Usable

/-! ## What a session keeps -/

theorem heat_process_quiet (s : Session) {e : Event} (he : e.usableFrame? = none) :
    (s.process e).1.heat = s.heat := by
  cases e with
  | frame f =>
    rw [process_unusable s (Event.usableFrame?_eq_none.mp he)]
    rfl
  | pen sample time => rfl
  | window w => rfl

theorem activeCones_process_quiet (s : Session) {e : Event} (he : e.usableFrame? = none) :
    (s.process e).1.counters.activeCones = s.counters.activeCones := by
  cases e with
  | frame f =>
    rw [process_unusable s (Event.usableFrame?_eq_none.mp he)]
    rfl
  | pen sample time => rfl
  | window w => rfl

theorem settings_process (s : Session) (e : Event) : (s.process e).1.settings = s.settings := by
  cases e with
  | frame f =>
    by_cases hf : f.isUsable = true
    · rw [process_usable s hf]
      rfl
    · rw [process_unusable s hf]
      rfl
  | pen sample time => rfl
  | window w => rfl

theorem settings_after (s : Session) (events : List Event) :
    (s.after events).settings = s.settings :=
  history_induction (P := fun _ t _ => t.settings = s.settings) rfl
    (fun _ t _ e h => (t.settings_process e).trans h) events

end Session

end PenTouch
