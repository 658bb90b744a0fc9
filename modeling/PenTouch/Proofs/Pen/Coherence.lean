import PenTouch.Pen.Estimator

/-!
# The parts of an estimate

The windows of a burst come in any order, and each updates its own part of the sample. The parts
stay `Coherent` all the same: whether the tip touches the panel follows from range and pressure, and
a pen out of range has neither buttons nor tilt nor a phase to compare with.

One lemma for each kind of window says that it keeps the parts coherent, `Coherent.input` joins
them, and `coherent_foldl_input` carries them over a burst of any length.
-/

namespace PenTouch.Estimator

variable {α : Type} [Scalar α] {e : Estimator α}

/-- The parts of the estimate fit together. -/
structure Coherent (e : Estimator α) : Prop where
  /-- The tip touches the panel just if the pen is in range and pressed. -/
  contact : e.sample.contact = true ↔ e.sample.proximity = true ∧ e.sample.pressure > 0.0
  /-- There is a phase to compare with just if the pen is in range. -/
  reference : e.reference.isSome = true ↔ e.sample.proximity = true
  buttons_away : e.sample.proximity = false → e.sample.buttons = 0
  tiltX_away : e.sample.proximity = false → e.sample.tiltX = 0.0
  tiltY_away : e.sample.proximity = false → e.sample.tiltY = 0.0
  buttons : e.sample.buttons = 0 ∨ e.sample.buttons = PenState.barrelBit ∨
    e.sample.buttons = PenState.eraserBit
  serial : e.sample.serial = 0

theorem Coherent.not_barrel_and_eraser (h : e.Coherent) :
    ¬(e.sample.barrel = true ∧ e.sample.eraser = true) := by
  unfold PenState.barrel PenState.eraser
  rcases h.buttons with hb | hb | hb <;> rw [hb] <;> decide

theorem coherent_new (settings : PenSettings α) (width height : α)
    (metadata : Option (Metadata α)) : (new settings width height metadata).Coherent where
  contact := iff_of_false Bool.false_ne_true fun h => Bool.false_ne_true h.1
  reference := Iff.rfl
  buttons_away _ := rfl
  tiltX_away _ := rfl
  tiltY_away _ := rfl
  buttons := Or.inl rfl
  serial := rfl

/-! ## The kinds of windows -/

theorem Coherent.lift (h : e.Coherent) : e.lift.Coherent where
  contact := iff_of_false Bool.false_ne_true fun h => Bool.false_ne_true h.1
  reference := Iff.rfl
  buttons_away _ := rfl
  tiltX_away _ := rfl
  tiltY_away _ := rfl
  buttons := Or.inl rfl
  serial := h.serial

theorem Coherent.inputPosition (h : e.Coherent) (w : Window α) : (e.inputPosition w).Coherent := by
  unfold Estimator.inputPosition
  split
  · exact h.lift
  · -- The pen is in range now, so nothing is asked of its tilt.
    exact
      { contact := by simp
        reference := iff_of_true rfl rfl
        buttons_away := fun hp => nomatch hp
        tiltX_away := fun hp => nomatch hp
        tiltY_away := fun hp => nomatch hp
        buttons := h.buttons
        serial := h.serial }

theorem Coherent.inputTilt (h : e.Coherent) (w : Window α) : (e.inputTilt w).Coherent := by
  unfold Estimator.inputTilt
  by_cases hp : e.sample.proximity = true
  · rw [if_neg (by simp [hp])]
    have hin : ¬e.sample.proximity = false := by simp [hp]
    exact
      { contact := h.contact
        reference := h.reference
        buttons_away := h.buttons_away
        tiltX_away := fun hout => absurd hout hin
        tiltY_away := fun hout => absurd hout hin
        buttons := h.buttons
        serial := h.serial }
  · rw [if_pos (by simp [hp])]
    exact h

theorem Coherent.inputPressure (h : e.Coherent) (w : Window α) :
    (e.inputPressure w).Coherent where
  contact := decide_eq_true_iff
  reference := h.reference
  buttons_away := h.buttons_away
  tiltX_away := h.tiltX_away
  tiltY_away := h.tiltY_away
  buttons := h.buttons
  serial := h.serial

theorem buttons_inputButton (e : Estimator α) (w : Window α) :
    (e.inputButton w).sample.buttons = 0 ∨
      (e.inputButton w).sample.buttons = PenState.barrelBit ∨
      (e.inputButton w).sample.buttons = PenState.eraserBit := by
  unfold Estimator.inputButton
  dsimp only
  split
  · split
    · exact Or.inr (Or.inl rfl)
    · exact Or.inr (Or.inr rfl)
  · exact Or.inl rfl

theorem buttons_inputButton_of_none (hr : e.reference = none) (w : Window α) :
    (e.inputButton w).sample.buttons = 0 := by
  unfold Estimator.inputButton
  rw [hr]
  cases AxisPeak.ofAntennas? w.columns 0 e.settings.minAmplitude <;> rfl

theorem Coherent.inputButton (h : e.Coherent) (w : Window α) : (e.inputButton w).Coherent where
  contact := h.contact
  reference := h.reference
  buttons_away hp := by
    have hout : ¬e.sample.proximity = true := Bool.eq_false_iff.mp hp
    have hr : e.reference = none := Option.not_isSome_iff_eq_none.mp (mt h.reference.mp hout)
    exact buttons_inputButton_of_none hr w
  tiltX_away := h.tiltX_away
  tiltY_away := h.tiltY_away
  buttons := buttons_inputButton e w
  serial := h.serial

/-! ## Bursts -/

/-- **One window.** A window of any kind keeps the parts coherent. -/
theorem Coherent.input (h : e.Coherent) (w : Window α) : (e.input w).Coherent := by
  unfold Estimator.input
  cases w.kind with
  | position => exact h.inputPosition w
  | tilt => exact h.inputTilt w
  | pressure => exact h.inputPressure w
  | button => exact h.inputButton w
  | unknown code => exact h

theorem coherent_foldl_input (h : e.Coherent) (windows : List (Window α)) :
    (windows.foldl input e).Coherent := by
  induction windows generalizing e with
  | nil => exact h
  | cons w windows ih => exact ih (h.input w)

/-- The pen comes into range and leaves it by a position window only. -/
theorem proximity_input {w : Window α} (hw : w.kind ≠ .position) :
    (e.input w).sample.proximity = e.sample.proximity := by
  unfold Estimator.input
  cases hk : w.kind with
  | position => exact absurd hk hw
  | tilt =>
    show (e.inputTilt w).sample.proximity = _
    unfold Estimator.inputTilt
    split <;> rfl
  | pressure => rfl
  | button => rfl
  | unknown code => rfl

/-- After a position window the pen is in range just if its signal was found. -/
theorem proximity_input_position (e : Estimator α) (w : Window α) (hw : w.kind = .position) :
    (e.input w).sample.proximity = (e.locate? w).isSome := by
  unfold Estimator.input Estimator.inputPosition
  rw [hw]
  cases e.locate? w <;> rfl

/-- **Coherence.** After any burst of windows, whatever they read, the tip touches the panel just if
the pen is in range and pressed, and there is a phase to compare with just if it is in range. A pen
out of range has no buttons and no tilt; barrel and eraser are never pressed together; and the pen
has no number. The next window changes the range only if it is a position window. -/
theorem burst_coherent (settings : PenSettings α) (width height : α)
    (metadata : Option (Metadata α)) (windows : List (Window α)) :
    let e := windows.foldl input (new settings width height metadata)
    e.Coherent ∧ ¬(e.sample.barrel = true ∧ e.sample.eraser = true) ∧
      ∀ w : Window α, w.kind ≠ .position →
        (e.input w).sample.proximity = e.sample.proximity := by
  intro e
  have h : e.Coherent := coherent_foldl_input (coherent_new settings width height metadata) windows
  exact ⟨h, h.not_barrel_and_eraser, fun w => proximity_input⟩

/-- A tilt window after a position window leaves the pen in range. -/
theorem burst_coherent_position_tilt :
    let e : Estimator Float := new .default 260.0 173.0 none
    let w : Window Float := ⟨.position, [⟨90.0, 0.0⟩], [⟨0.0, 90.0⟩], 3, 5, 0⟩
    ((e.input w).input { w with kind := .tilt }).sample.proximity = true := by
  intro e w
  have h := (burst_coherent .default 260.0 173.0 none [w]).2.2 { w with kind := .tilt } (by decide)
  rw [List.foldl_cons, List.foldl_nil] at h
  rw [h, proximity_input_position _ w rfl]
  decide +kernel

end PenTouch.Estimator
