import PenTouch.Proofs.Pen.Coherence

/-!
# A pen that was lost

A position window without a signal lifts the pen. What is left of the windows before it is the last
place alone: the estimator is then a new one with the pen `placed` there, and the place is not read
again before the next position window that `Finds` the pen replaces it.

`input_placed_of_finds` and `input_placed_of_not_finds` are the two cases of one more window,
`foldl_input_placed` follows a run of them, and `lost_pen_forgotten` compares the run after a lost
pen with the same run of a new estimator.
-/

namespace PenTouch.Estimator

variable {α : Type} [Scalar α] {e : Estimator α} {w : Window α} {x y : α}

/-- The estimator with the pen at another place. -/
def placed (e : Estimator α) (x y : α) : Estimator α :=
  { e with sample := { e.sample with x, y } }

/-- The window is a position window with a signal. -/
def Finds (e : Estimator α) (w : Window α) : Prop :=
  w.kind = .position ∧ (e.locate? w).isSome = true

instance (e : Estimator α) (w : Window α) : Decidable (e.Finds w) :=
  inferInstanceAs (Decidable (_ ∧ _))

/-! ## What all windows leave as it is -/

theorem inputPosition_eq (e : Estimator α) (w : Window α) :
    e.inputPosition w =
      { e with
        sample := (e.inputPosition w).sample
        reference := (e.inputPosition w).reference } := by
  unfold inputPosition
  cases e.locate? w <;> rfl

theorem inputTilt_eq (e : Estimator α) (w : Window α) :
    e.inputTilt w = { e with sample := (e.inputTilt w).sample } := by
  unfold inputTilt
  split <;> rfl

theorem input_eq (e : Estimator α) (w : Window α) :
    e.input w = { e with sample := (e.input w).sample, reference := (e.input w).reference } := by
  unfold input
  cases w.kind with
  | position => exact e.inputPosition_eq w
  | tilt =>
    show e.inputTilt w = _
    rw [inputTilt_eq]
  | pressure => rfl
  | button => rfl
  | unknown code => rfl

theorem foldl_input_eq (e : Estimator α) (windows : List (Window α)) :
    windows.foldl input e =
      { e with
        sample := (windows.foldl input e).sample
        reference := (windows.foldl input e).reference } := by
  induction windows generalizing e with
  | nil => rfl
  | cons w windows ih =>
    rw [List.foldl_cons, ih, input_eq e w]

/-- So a signal is found or not, whatever windows there were before. -/
theorem locate?_foldl_input (e : Estimator α) (windows : List (Window α)) (w : Window α) :
    (windows.foldl input e).locate? w = e.locate? w := by
  rw [foldl_input_eq]
  rfl

theorem finds_input (e : Estimator α) (w v : Window α) : (e.input w).Finds v ↔ e.Finds v := by
  unfold Finds
  rw [show (e.input w).locate? v = e.locate? v from locate?_foldl_input e [w] v]

/-! ## One window -/

theorem input_placed_of_finds (h : e.Finds w) : (e.placed x y).input w = e.input w := by
  obtain ⟨found, hfound⟩ := Option.isSome_iff_exists.mp h.2
  have hplaced : (e.placed x y).locate? w = some found := hfound
  unfold input inputPosition
  rw [h.1, hfound, hplaced]
  rfl

theorem inputPosition_of_lost (h : e.locate? w = none) : e.inputPosition w = e.lift := by
  unfold inputPosition
  rw [h]

theorem locate?_of_not_finds (h : ¬e.Finds w) (hk : w.kind = .position) : e.locate? w = none :=
  Option.not_isSome_iff_eq_none.mp fun hsome => h ⟨hk, hsome⟩

/-- Any other window leaves the place of a pen out of range alone, and does not read it. -/
theorem input_placed_of_not_finds (hp : e.sample.proximity = false) (h : ¬e.Finds w) :
    (e.placed x y).input w = (e.input w).placed x y := by
  unfold input
  cases hk : w.kind with
  | position =>
    have hlost : e.locate? w = none := locate?_of_not_finds h hk
    have hplaced : (e.placed x y).locate? w = none := hlost
    simp only [inputPosition_of_lost hlost, inputPosition_of_lost hplaced]
    rfl
  | tilt =>
    -- The tilt of a pen in range is told from its place, so the range matters here.
    have hplaced : (e.placed x y).sample.proximity = false := hp
    simp [inputTilt, hp, hplaced]
  | pressure => rfl
  | button => rfl
  | unknown code => rfl

theorem proximity_input_of_not_finds (hp : e.sample.proximity = false) (h : ¬e.Finds w) :
    (e.input w).sample.proximity = false := by
  by_cases hk : w.kind = .position
  · rw [proximity_input_position e w hk, locate?_of_not_finds h hk]
    rfl
  · rw [proximity_input hk, hp]

/-! ## Runs -/

/-- **Runs.** While the pen is out of range, its place is carried along. It is gone with the first
window that finds the pen. -/
theorem foldl_input_placed (hp : e.sample.proximity = false) (windows : List (Window α)) :
    windows.foldl input (e.placed x y) =
      if ∃ w ∈ windows, e.Finds w then windows.foldl input e
      else (windows.foldl input e).placed x y := by
  induction windows generalizing e with
  | nil => simp
  | cons w windows ih =>
    rw [List.foldl_cons, List.foldl_cons]
    by_cases h : e.Finds w
    · rw [input_placed_of_finds h, if_pos ⟨w, List.mem_cons_self, h⟩]
    · rw [input_placed_of_not_finds hp h, ih (proximity_input_of_not_finds hp h)]
      simp only [finds_input, List.mem_cons, or_and_right, exists_or, exists_eq_left, h, false_or]

/-- An estimator that has lost the pen is a new one, but for the place. -/
theorem lift_foldl_input (settings : PenSettings α) (width height : α)
    (metadata : Option (Metadata α)) (history : List (Window α)) :
    let fresh := new settings width height metadata
    (history.foldl input fresh).lift =
      fresh.placed (history.foldl input fresh).sample.x (history.foldl input fresh).sample.y := by
  intro fresh
  have hserial : (history.foldl input fresh).sample.serial = 0 :=
    (coherent_foldl_input (coherent_new settings width height metadata) history).serial
  rw [foldl_input_eq]
  unfold lift
  rw [hserial]
  rfl

/-- **A lost pen is forgotten.** After a position window without a signal on one of the axes, the
windows before it do not matter: every continuation leads to what it leads to in a new estimator, as
a whole, but the pen stays at its last place until the next position window finds it. -/
theorem lost_pen_forgotten (settings : PenSettings α) (width height : α)
    (metadata : Option (Metadata α)) (history : List (Window α)) (lost : Window α)
    (hkind : lost.kind = .position)
    (hlost : AxisPeak.ofAntennas? lost.columns settings.windowRadius settings.minAmplitude = none ∨
      AxisPeak.ofAntennas? lost.rows settings.windowRadius settings.minAmplitude = none)
    (continuation : List (Window α)) :
    let fresh := new settings width height metadata
    let before := history.foldl input fresh
    let alone := continuation.foldl input fresh
    (history ++ lost :: continuation).foldl input fresh =
      if ∃ w ∈ continuation, fresh.Finds w then alone
      else alone.placed before.sample.x before.sample.y := by
  intro fresh before alone
  have hnone : before.locate? lost = none := by
    rw [show before.locate? lost = fresh.locate? lost from locate?_foldl_input fresh history lost]
    unfold locate?
    rcases hlost with hx | hy
    · rw [show fresh.settings = settings from rfl, hx]
      rfl
    · rw [show fresh.settings = settings from rfl, hy]
      cases AxisPeak.ofAntennas? lost.columns settings.windowRadius settings.minAmplitude <;> rfl
  have hlift : before.input lost = fresh.placed before.sample.x before.sample.y := by
    unfold input
    rw [hkind]
    show before.inputPosition lost = _
    rw [inputPosition_of_lost hnone]
    exact lift_foldl_input settings width height metadata history
  rw [List.foldl_append, List.foldl_cons, hlift]
  exact foldl_input_placed rfl continuation

/-- A pen that was pressed is not in touch when it comes back. -/
theorem lost_pen_forgotten_pressed :
    let fresh : Estimator Float := new .default 260.0 173.0 none
    let position : Window Float := ⟨.position, [⟨90.0, 0.0⟩], [⟨0.0, 90.0⟩], 3, 5, 0⟩
    let pressure : Window Float :=
      { position with kind := .pressure, rows := [⟨60.0, 0.0⟩, ⟨80.0, 0.0⟩] }
    let lost : Window Float := { position with rows := [] }
    (([position, pressure].foldl input fresh).sample.contact = true) ∧
      ([position, pressure, lost, position].foldl input fresh).sample.contact = false := by
  intro fresh position pressure lost
  refine ⟨by decide +kernel, ?_⟩
  have h := lost_pen_forgotten .default 260.0 173.0 none [position, pressure] lost rfl (Or.inr rfl)
    [position]
  rw [show [position, pressure, lost, position] = [position, pressure] ++ [lost, position] from rfl,
    h, if_pos ⟨position, List.mem_cons_self, by decide +kernel⟩]
  decide +kernel

end PenTouch.Estimator
