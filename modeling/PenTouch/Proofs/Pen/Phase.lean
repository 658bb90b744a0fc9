import Mathlib
import PenTouch.Proofs.Pen.Weights
import PenTouch.Proofs.Scalar.Exact

/-!
# Phases

In exact arithmetic only the phases between antennas count. A reading is a complex number; turning
all readings by one unit number changes neither their amplitudes nor how far any two of them are in
phase.

1. `amplitude_turn`, `coherence_turn`: the two things that are read off antennas.
2. `AxisPeak.ofAntennas?_turn`: so along an axis the same antenna is found at the same position, and
   its reading is turned.
3. `Estimator.input_turn`: an estimator whose phase to compare with is turned as well does the same
   with a turned window, one lemma for each kind of window; `Estimator.scanl_turn` follows a run.
-/

namespace PenTouch

open scoped Exact ComplexConjugate

/-! ## Readings -/

namespace Antenna

def complex (a : Antenna ℝ) : ℂ := ⟨a.real, a.imag⟩

/-- The reading with its phase turned. -/
def turn (u : Circle) (a : Antenna ℝ) : Antenna ℝ := ⟨(u * a.complex).re, (u * a.complex).im⟩

variable (u : Circle) (a b : Antenna ℝ)

theorem complex_turn : (a.turn u).complex = u * a.complex := rfl

theorem amplitude_eq_norm : a.amplitude = ‖a.complex‖ := by
  rw [Complex.norm_eq_sqrt_sq_add_sq]
  rfl

theorem coherence_eq_re : a.coherence b = (a.complex * conj b.complex).re := by
  rw [Complex.mul_re, Complex.conj_re, Complex.conj_im, mul_neg, sub_neg_eq_add]
  rfl

theorem amplitude_turn : (a.turn u).amplitude = a.amplitude := by
  rw [amplitude_eq_norm, amplitude_eq_norm, complex_turn, norm_mul, Circle.norm_coe, one_mul]

theorem coherence_turn : (a.turn u).coherence (b.turn u) = a.coherence b := by
  have hunit : (u : ℂ) * conj (u : ℂ) = 1 := by
    rw [Complex.mul_conj, Circle.normSq_coe, Complex.ofReal_one]
  rw [coherence_eq_re, coherence_eq_re, complex_turn, complex_turn, map_mul, mul_mul_mul_comm,
    hunit, one_mul]

end Antenna

/-! ## One axis -/

namespace AxisPeak

open Antenna

variable (u : Circle)

/-- The position with the reading of the strongest antenna turned. -/
def turn (p : AxisPeak ℝ) : AxisPeak ℝ := { p with peak := p.peak.turn u }

/-- The antenna turned, at its place. -/
def turnAt (a : Antenna ℝ × Nat) : Antenna ℝ × Nat := (a.1.turn u, a.2)

theorem zipIdx_turn (antennas : List (Antenna ℝ)) :
    (antennas.map (Antenna.turn u)).zipIdx = antennas.zipIdx.map (turnAt u) :=
  List.zipIdx_map

theorem stronger_turn (best : Option (Antenna ℝ × Nat)) (next : Antenna ℝ × Nat) :
    stronger (best.map (turnAt u)) (turnAt u next) = (stronger best next).map (turnAt u) := by
  cases best with
  | none => rfl
  | some best =>
    unfold stronger
    simp only [Option.map_some, turnAt, amplitude_turn]
    split_ifs <;> rfl

theorem strongest?_turn (antennas : List (Antenna ℝ)) :
    strongest? (antennas.map (Antenna.turn u)) = (strongest? antennas).map (turnAt u) := by
  unfold strongest?
  rw [zipIdx_turn, List.foldl_map]
  have hhom : List.foldl (fun best next => stronger best (turnAt u next))
      (Option.map (turnAt u) none) antennas.zipIdx = _ :=
    List.foldl_hom (Option.map (turnAt u)) (stronger_turn u)
  exact hhom

theorem around_turn (antennas : List (Antenna ℝ)) (place radius : Nat) :
    around (antennas.map (Antenna.turn u)) place radius =
      (around antennas place radius).map (turnAt u) := by
  unfold around
  rw [zipIdx_turn, ← List.map_take, ← List.map_drop]

theorem weight_turn (peak a : Antenna ℝ) : weight (peak.turn u) (a.turn u) = weight peak a := by
  unfold weight
  rw [coherence_turn, amplitude_turn]

/-- **One axis.** The position is the same, and the strongest antenna is the same one turned. -/
theorem ofAntennas?_turn (antennas : List (Antenna ℝ)) (radius : Nat) (minAmplitude : ℝ) :
    ofAntennas? (antennas.map (Antenna.turn u)) radius minAmplitude =
      (ofAntennas? antennas radius minAmplitude).map (turn u) := by
  unfold ofAntennas?
  rw [strongest?_turn]
  cases strongest? antennas with
  | none => rfl
  | some best =>
    simp only [Option.map_some, Option.bind_eq_bind, Option.bind_some, turnAt, amplitude_turn,
      around_turn, List.foldl_map, weight_turn]
    split_ifs <;> rfl

end AxisPeak

/-! ## Windows -/

/-- The window with the phases of all its readings turned. -/
def Window.turn (u : Circle) (w : Window ℝ) : Window ℝ :=
  { w with rows := w.rows.map (Antenna.turn u), columns := w.columns.map (Antenna.turn u) }

namespace Estimator

open Antenna

variable (u : Circle) (e : Estimator ℝ) (w : Window ℝ)

/-- The estimator with the phase to compare with turned. -/
def turn : Estimator ℝ := { e with reference := e.reference.map (Antenna.turn u) }

theorem locate?_turn :
    (e.turn u).locate? (w.turn u) = (e.locate? w).map fun found => (found.1, found.2.turn u) := by
  unfold locate? Window.turn
  simp only [AxisPeak.ofAntennas?_turn]
  show ((AxisPeak.ofAntennas? w.columns e.settings.windowRadius e.settings.minAmplitude).map
    (AxisPeak.turn u)).bind _ = _
  cases AxisPeak.ofAntennas? w.columns e.settings.windowRadius e.settings.minAmplitude with
  | none => rfl
  | some x =>
    show ((AxisPeak.ofAntennas? w.rows e.settings.windowRadius e.settings.minAmplitude).map
      (AxisPeak.turn u)).bind _ = _
    cases AxisPeak.ofAntennas? w.rows e.settings.windowRadius e.settings.minAmplitude <;> rfl

theorem inputPosition_turn :
    (e.turn u).inputPosition (w.turn u) = (e.inputPosition w).turn u := by
  unfold inputPosition
  rw [locate?_turn]
  cases e.locate? w <;> rfl

theorem inputTilt_turn : (e.turn u).inputTilt (w.turn u) = (e.inputTilt w).turn u := by
  have hproximity : (e.turn u).sample.proximity = e.sample.proximity := rfl
  unfold inputTilt
  rw [hproximity, locate?_turn]
  split_ifs
  · rfl
  · cases e.locate? w <;> rfl

theorem pressure_turn (settings : PenSettings ℝ) (bins : List (Antenna ℝ)) :
    pressure settings (bins.map (Antenna.turn u)) = pressure settings bins := by
  have hamplitudes : (bins.map (Antenna.turn u)).map Antenna.amplitude =
      bins.map Antenna.amplitude := by
    rw [List.map_map]
    exact List.map_congr_left fun a _ => amplitude_turn u a
  unfold pressure
  simp only [hamplitudes, List.length_map, AxisPeak.zipIdx_turn, List.foldl_map, AxisPeak.turnAt,
    amplitude_turn]

theorem inputPressure_turn :
    (e.turn u).inputPressure (w.turn u) = (e.inputPressure w).turn u := by
  have hpressure : pressure (e.turn u).settings (w.turn u).rows = pressure e.settings w.rows :=
    pressure_turn u e.settings w.rows
  unfold inputPressure
  rw [hpressure]
  rfl

/-- The button answers in the same or the opposite phase, whatever both phases are. -/
theorem inputButton_turn : (e.turn u).inputButton (w.turn u) = (e.inputButton w).turn u := by
  have hsignal : AxisPeak.ofAntennas? (w.turn u).columns 0 (e.turn u).settings.minAmplitude =
      (AxisPeak.ofAntennas? w.columns 0 e.settings.minAmplitude).map (AxisPeak.turn u) :=
    AxisPeak.ofAntennas?_turn u w.columns 0 e.settings.minAmplitude
  have hreference : (e.turn u).reference = e.reference.map (Antenna.turn u) := rfl
  unfold inputButton
  rw [hsignal, hreference]
  cases AxisPeak.ofAntennas? w.columns 0 e.settings.minAmplitude with
  | none => rfl
  | some signal =>
    cases e.reference with
    | none => rfl
    | some reference =>
      have hsame : (signal.turn u).peak.coherence (reference.turn u) =
          signal.peak.coherence reference := coherence_turn u signal.peak reference
      simp only [Option.map_some, hsame]
      rfl

/-- **One window.** -/
theorem input_turn : (e.turn u).input (w.turn u) = (e.input w).turn u := by
  have hkind : (w.turn u).kind = w.kind := rfl
  unfold input
  rw [hkind]
  cases w.kind with
  | position => exact inputPosition_turn u e w
  | tilt => exact inputTilt_turn u e w
  | pressure => exact inputPressure_turn u e w
  | button => exact inputButton_turn u e w
  | unknown code => rfl

theorem scanl_turn (windows : List (Window ℝ)) :
    (windows.map (Window.turn u)).scanl input (e.turn u) = (windows.scanl input e).map (turn u) := by
  induction windows generalizing e with
  | nil => rfl
  | cons w windows ih =>
    rw [List.map_cons, List.scanl_cons, List.scanl_cons, List.map_cons, input_turn, ih]

/-- **Phases are relative.** If the coefficients of all antennas of all windows are multiplied by
one unit number, then every sample stays as it is. -/
theorem phases_are_relative (settings : PenSettings ℝ) (width height : ℝ)
    (metadata : Option (Metadata ℝ)) (windows : List (Window ℝ)) :
    let e := new settings width height metadata
    ((windows.map (Window.turn u)).scanl input e).map (·.sample) =
      (windows.scanl input e).map (·.sample) := by
  intro e
  have hfresh : e.turn u = e := rfl
  calc ((windows.map (Window.turn u)).scanl input e).map (·.sample)
    _ = ((windows.scanl input e).map (turn u)).map (·.sample) := by rw [← scanl_turn, hfresh]
    _ = (windows.scanl input e).map (·.sample) := by
      rw [List.map_map]
      rfl

end Estimator

end PenTouch
