import PenTouch.Proofs.Session.History

/-!
# Frames that cannot be used

A frame without cells or without a range is counted and leaves nothing else behind. A session that
has received such frames differs from one that has not in two counters, and until the next frame
that can be used in its contacts (`Session.Overlooks`).

1. `Overlooks.process`: the difference goes through every event and does not show in the answer.
2. `Overlooks.insert`: a frame that cannot be used adds one to it.
3. `overlooks_after`: so a history with such frames put in gives out what it did without them.
-/

namespace PenTouch

/-- The second list of events is the first with `n` frames put in that cannot be used. -/
inductive Event.Interspersed : Nat → List Event → List Event → Prop where
  | nil : Interspersed 0 [] []
  | keep {n : Nat} {events events' : List Event} (e : Event) :
      Interspersed n events events' → Interspersed n (e :: events) (e :: events')
  | insert {n : Nat} {events events' : List Event} {f : Frame} (hf : ¬f.isUsable = true) :
      Interspersed n events events' → Interspersed (n + 1) events (.frame f :: events')

namespace Session

/-- The session with other contacts, and with `n` more frames counted as received and malformed. -/
def overlook (s : Session) (n : Nat) (contacts : List (Contact Float)) : Session :=
  { s with
    contacts
    counters := { s.counters with
      frames := s.counters.frames + n
      malformed := s.counters.malformed + n } }

/-- The second session is the first after `n` more frames that could not be used. It may have lost
the contacts of the latest frame. -/
def Overlooks (n : Nat) (s t : Session) : Prop :=
  ∃ contacts, (contacts = s.contacts ∨ contacts = []) ∧ t = s.overlook n contacts

variable {n : Nat} {s t : Session} {f : Frame}

theorem Overlooks.refl (s : Session) : s.Overlooks 0 s := ⟨s.contacts, Or.inl rfl, rfl⟩

theorem malformed_of_unusable (hf : ¬f.isUsable = true) : ¬f.isValid = true :=
  mt Frame.isUsable_of_isValid hf

/-- **A frame that cannot be used.** It is counted twice over, takes away the contacts, and has no
answer. -/
theorem process_eq_overlook (s : Session) (hf : ¬f.isUsable = true) :
    s.process (.frame f) = (s.overlook 1 [], none) := by
  rw [process_unusable s hf]
  unfold countFrame overlook
  rw [if_neg (malformed_of_unusable hf)]

theorem Overlooks.insert (h : s.Overlooks n t) (hf : ¬f.isUsable = true) :
    s.Overlooks (n + 1) (t.process (.frame f)).1 ∧ (t.process (.frame f)).2 = none := by
  obtain ⟨cs, -, rfl⟩ := h
  rw [process_eq_overlook _ hf]
  exact ⟨⟨[], Or.inr rfl, rfl⟩, rfl⟩

/-- Sessions that differ in frames that could not be used answer alike, and differ in them again. -/
theorem Overlooks.process (h : s.Overlooks n t) (e : Event) :
    (s.process e).1.Overlooks n (t.process e).1 ∧ (t.process e).2 = (s.process e).2 := by
  obtain ⟨cs, hcs, rfl⟩ := h
  cases e with
  | frame f =>
    by_cases hf : f.isUsable = true
    · rw [process_usable s hf, process_usable _ hf]
      refine ⟨⟨_, Or.inl rfl, ?_⟩, rfl⟩
      unfold touch touchWith countFrame overlook
      simp only [Nat.add_right_comm]
      rfl
    · rw [process_eq_overlook s hf, process_eq_overlook _ hf]
      refine ⟨⟨[], Or.inl rfl, ?_⟩, rfl⟩
      unfold overlook
      simp only [Nat.add_right_comm]
  | pen sample time => exact ⟨⟨cs, hcs, rfl⟩, rfl⟩
  | window w => exact ⟨⟨cs, hcs, rfl⟩, rfl⟩

/-- **Histories.** Frames that cannot be used, put in anywhere, change nothing that is given out. -/
theorem overlooks_after {m : Nat} {events events' : List Event}
    (h : Event.Interspersed n events events') (hst : s.Overlooks m t) :
    (s.after events).Overlooks (m + n) (t.after events') ∧
      t.outputs events' = s.outputs events := by
  induction h generalizing m s t with
  | nil => exact ⟨hst, rfl⟩
  | keep e _ ih =>
    obtain ⟨hnext, hanswer⟩ := hst.process e
    obtain ⟨hafter, houtputs⟩ := ih hnext
    refine ⟨hafter, ?_⟩
    rw [outputs_cons, outputs_cons, hanswer, houtputs]
  | @insert n events events' f hf _ ih =>
    obtain ⟨hnext, hanswer⟩ := hst.insert hf
    obtain ⟨hafter, houtputs⟩ := ih hnext
    rw [Nat.add_right_comm] at hafter
    refine ⟨hafter, ?_⟩
    rw [outputs_cons, hanswer, houtputs]
    rfl

/-! ## Contacts -/

/-- Once there are no contacts, only a frame that can be used brings some. -/
theorem contacts_process_quiet (hs : s.contacts = []) {e : Event} (he : e.usableFrame? = none) :
    (s.process e).1.contacts = [] := by
  cases e with
  | frame f => rw [process_unusable s (Event.usableFrame?_eq_none.mp he)]
  | pen sample time => exact hs
  | window w => exact hs

theorem contacts_after_quiet (hs : s.contacts = []) {events : List Event}
    (hevents : ∀ e ∈ events, e.usableFrame? = none) : (s.after events).contacts = [] := by
  induction events generalizing s with
  | nil => exact hs
  | cons e events ih =>
    rw [List.forall_mem_cons] at hevents
    exact ih (contacts_process_quiet hs hevents.1) hevents.2

end Session

/-- **Transparency.** Frames that cannot be used may be put in anywhere among the events of a
session. The outputs stay the same, and so does all that the session has become, except that as many
frames more have been received and were malformed, and that the contacts may be gone: after such a
frame there are none until the next frame that can be used. -/
theorem unusable_frames_transparent (s : Session) :
    (∀ (n : Nat) (events events' : List Event), Event.Interspersed n events events' →
      s.outputs events' = s.outputs events ∧ (s.after events).Overlooks n (s.after events')) ∧
    ∀ (before : List Event) (f : Frame) (rest : List Event),
      ¬f.isUsable = true → (∀ e ∈ rest, e.usableFrame? = none) →
      (s.after (before ++ .frame f :: rest)).contacts = [] := by
  constructor
  · intro n events events' h
    obtain ⟨hafter, houtputs⟩ := Session.overlooks_after h (Session.Overlooks.refl s)
    rw [Nat.zero_add] at hafter
    exact ⟨houtputs, hafter⟩
  · intro before f rest hf hrest
    rw [Session.after_append, Session.after_cons, Session.process_eq_overlook _ hf]
    exact Session.contacts_after_quiet rfl hrest

/-- A frame without a range among a touch and a pen. -/
theorem unusable_frames_transparent_between :
    let s := Session.new {} none
    let f : Frame := ⟨#[200, 10, 200, 200], 2, 2, 10, 200, 0, 0⟩
    let dropped : Frame := { f with zMax := 10 }
    let pen : Event := .pen { PenSample.outOfRange 7 with proximity := true } 3
    s.outputs [.frame f, .frame dropped, pen] = s.outputs [.frame f, pen] ∧
      (s.after [.frame f, pen]).Overlooks 1 (s.after [.frame f, .frame dropped, pen]) ∧
      (s.after [.frame f, .frame dropped, pen]).contacts = [] := by
  intro s f dropped pen
  have hdropped : ¬dropped.isUsable = true := by decide
  have hput : Event.Interspersed 1 [.frame f, pen] [.frame f, .frame dropped, pen] :=
    .keep (.frame f) (.insert hdropped (.keep pen .nil))
  have hpen : ∀ e ∈ [pen], e.usableFrame? = none := by
    rw [List.forall_mem_singleton]
    rfl
  obtain ⟨houtputs, hafter⟩ := (unusable_frames_transparent s).1 1 _ _ hput
  exact ⟨houtputs, hafter, (unusable_frames_transparent s).2 [.frame f] dropped [pen] hdropped hpen⟩

end PenTouch
