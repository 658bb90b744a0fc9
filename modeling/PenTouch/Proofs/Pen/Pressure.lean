import Mathlib
import PenTouch.Proofs.Pen.Range

/-!
# The range of the pressure

The pressure is the mean frequency of a pressure window as a share of the frequencies' range, so it
is between zero and the pressure of a fully pressed tip. Only a window whose readings are all zero
has no mean frequency. It counts as too weak, unless the settings demand no amplitude at all
(`Blind`).

1. `amplitude_le_zero_iff`, `pressureTotal_le_zero_iff`: readings without amplitude are zero.
2. `pressure_mem`, `isNaN_pressure`: the pressure of a window is in the range if the settings are
   not blind to it, and it is not a number if they are.
3. `pressure_foldl_input`: after a burst the pressure is the one of the latest window that tells a
   pressure (`TellsPressure`).
-/

namespace PenTouch

open Double

/-! ## Amplitudes -/

namespace Antenna

def Finite (a : Antenna Float) : Prop := a.real.isFinite = true ∧ a.imag.isFinite = true

/-- The antenna has received nothing. -/
def Silent (a : Antenna Float) : Prop := (a.real == 0.0) = true ∧ (a.imag == 0.0) = true

instance (a : Antenna Float) : Decidable a.Finite := inferInstanceAs (Decidable (_ ∧ _))

instance (a : Antenna Float) : Decidable a.Silent := inferInstanceAs (Decidable (_ ∧ _))

section Amplitude

variable {a : Antenna Float} (ha : a.Finite)

include ha

theorem rounds_amplitude : Rounds a.amplitude (√(value a.real ^ 2 + value a.imag ^ 2)) :=
  rounds_hypot ha.1 ha.2

theorem zero_le_amplitude : 0.0 ≤ a.amplitude := (rounds_amplitude ha).zero_le (Real.sqrt_nonneg _)

/-- A coefficient is a double that is not above the exact length, so it is not above the rounded one
either: even the smallest coefficient is not lost. -/
theorem value_eq_zero_of_amplitude (h : a.amplitude ≤ 0.0) {x : Float} (hx : x.isFinite = true)
    (hle : value x ^ 2 ≤ value a.real ^ 2 + value a.imag ^ 2) : value x = 0 := by
  have hneg : (-x).isFinite = true := (isFinite_neg x).trans hx
  have hupper : x ≤ a.amplitude :=
    (rounds_amplitude ha).ge_of_ge hx (Real.le_sqrt_of_sq_le hle)
  have hlower : -x ≤ a.amplitude := by
    refine (rounds_amplitude ha).ge_of_ge hneg (Real.le_sqrt_of_sq_le ?_)
    rwa [value_neg, neg_sq]
  have hupper' := (le_iff_value (y := 0.0) hx rfl).mp (le_trans hupper h)
  have hlower' := (le_iff_value (y := 0.0) hneg rfl).mp (le_trans hlower h)
  rw [value_zero] at hupper' hlower'
  rw [value_neg] at hlower'
  linarith

theorem amplitude_le_zero_iff : a.amplitude ≤ 0.0 ↔ a.Silent := by
  unfold Silent
  rw [beq_zero_iff ha.1, beq_zero_iff ha.2]
  constructor
  · intro h
    exact ⟨value_eq_zero_of_amplitude ha h ha.1 (le_add_of_nonneg_right (sq_nonneg _)),
      value_eq_zero_of_amplitude ha h ha.2 (le_add_of_nonneg_left (sq_nonneg _))⟩
  · rintro ⟨hreal, himag⟩
    refine (rounds_amplitude ha).le_of_le rfl ?_
    rw [hreal, himag, value_zero]
    simp

end Amplitude

end Antenna

namespace Estimator

/-! ## One window -/

section Readings

variable {settings : PenSettings Float} {bins : List (Antenna Float)}

def pressureTotal (bins : List (Antenna Float)) : Float :=
  Statistics.total (bins.map Antenna.amplitude)

/-- The sum of the places, each weighted by its amplitude. -/
def pressureMoment (bins : List (Antenna Float)) : Float :=
  bins.zipIdx.foldl (fun sum a => sum + Scalar.ofNat a.2 * a.1.amplitude) 0.0

/-- The settings demand no amplitude, and the window has none. -/
def Blind (settings : PenSettings Float) (bins : List (Antenna Float)) : Prop :=
  2 ≤ bins.length ∧ (∀ a ∈ bins, a.Silent) ∧ ¬0.0 < settings.minAmplitude

instance (settings : PenSettings Float) (bins : List (Antenna Float)) :
    Decidable (Blind settings bins) := inferInstanceAs (Decidable (_ ∧ _ ∧ _))

/-- The window is too weak to have a mean frequency. -/
def Weak (settings : PenSettings Float) (bins : List (Antenna Float)) : Prop :=
  bins.length < 2 ∨ ¬(pressureTotal bins).isFinite = true ∨
    pressureTotal bins < settings.minAmplitude

theorem pressure_of_weak (h : Weak settings bins) : pressure settings bins = 0.0 := if_pos h

theorem pressure_of_not_weak (h : ¬Weak settings bins) :
    pressure settings bins =
      Scalar.clamp (pressureMoment bins / pressureTotal bins / Float.ofNat (bins.length - 1))
        0.0 1.0 * settings.maxPressure := if_neg h

theorem pressureTotal_eq (bins : List (Antenna Float)) :
    pressureTotal bins = bins.foldl (fun sum a => sum + a.amplitude) (-0.0) := List.foldl_map

section Total

variable (hbins : ∀ a ∈ bins, a.Finite)

include hbins

theorem le_pressureTotal :
    0.0 ≤ pressureTotal bins ∧
      ∀ a ∈ bins, a.amplitude ≤ pressureTotal bins := by
  rw [pressureTotal_eq]
  obtain ⟨hzero, hall⟩ := le_foldl_add (f := Antenna.amplitude) (x := -0.0)
    (fun a ha => Antenna.zero_le_amplitude (hbins a ha)) (by decide +kernel)
  exact ⟨le_trans (by decide +kernel) hzero, hall⟩

theorem pressureTotal_le_zero_iff :
    pressureTotal bins ≤ 0.0 ↔ ∀ a ∈ bins, a.Silent := by
  constructor
  · intro h a ha
    exact (Antenna.amplitude_le_zero_iff (hbins a ha)).mp
      (le_trans ((le_pressureTotal hbins).2 a ha) h)
  · intro h
    have hzero : ∀ a ∈ bins, a.amplitude.isFinite = true ∧ value a.amplitude = 0 := fun a ha =>
      eq_zero_of_le (Antenna.zero_le_amplitude (hbins a ha))
        ((Antenna.amplitude_le_zero_iff (hbins a ha)).mpr (h a ha))
    rw [pressureTotal_eq]
    obtain ⟨hfinite, hvalue⟩ := foldl_add_zero hzero (x := -0.0) ⟨rfl, rfl⟩
    exact (le_iff_value hfinite rfl).mpr hvalue.le

theorem zero_le_pressureMoment (hlength : bins.length < 2 ^ 64)
    (htotal : (pressureTotal bins).isFinite = true) :
    0.0 ≤ pressureMoment bins := by
  refine (le_foldl_add (fun a ha => ?_) (le_self rfl)).1
  have hmem : a.1 ∈ bins := List.fst_mem_of_mem_zipIdx ha
  have hplace := List.mem_zipIdx ha
  have hamplitude := Antenna.zero_le_amplitude (hbins a.1 hmem)
  have hfinite : a.1.amplitude.isFinite = true :=
    isFinite_of_le_of_le rfl htotal hamplitude ((le_pressureTotal hbins).2 a.1 hmem)
  exact zero_le_mul (isFinite_ofNat (by omega)) hfinite (zero_le_ofNat a.2) hamplitude

theorem pressureMoment_eq_zero (hlength : bins.length < 2 ^ 64) (h : ∀ a ∈ bins, a.Silent) :
    (pressureMoment bins).isFinite = true ∧ value (pressureMoment bins) = 0 := by
  refine foldl_add_zero (fun a ha => ?_) ⟨rfl, rfl⟩
  have hmem : a.1 ∈ bins := List.fst_mem_of_mem_zipIdx ha
  have hplace := List.mem_zipIdx ha
  obtain ⟨hfinite, hvalue⟩ := eq_zero_of_le (Antenna.zero_le_amplitude (hbins a.1 hmem))
    ((Antenna.amplitude_le_zero_iff (hbins a.1 hmem)).mpr (h a.1 hmem))
  have hmul := rounds_mul (isFinite_ofNat (n := a.2) (by omega)) hfinite
  rw [hvalue, mul_zero] at hmul
  exact hmul.exact (z := 0.0) rfl rfl

/-- **One window.** The settings are blind to it, or its pressure is in the range. -/
theorem pressure_mem (hlength : bins.length < 2 ^ 64) (hmin : 0.0 ≤ settings.minAmplitude)
    (hmax : settings.maxPressure.isFinite = true) (hmax' : 0.0 ≤ settings.maxPressure)
    (h : ¬Blind settings bins) :
    0.0 ≤ pressure settings bins ∧ pressure settings bins ≤ settings.maxPressure := by
  by_cases hweak : Weak settings bins
  · rw [pressure_of_weak hweak]
    exact ⟨le_self rfl, hmax'⟩
  rw [pressure_of_not_weak hweak]
  simp only [Weak, not_or, not_not, Nat.not_lt] at hweak
  obtain ⟨hseveral, htotal, hstrong⟩ := hweak
  have hle := (lt_or_le (isNaN_of_isFinite htotal) (isNaN_of_le hmin)).resolve_left hstrong
  -- A total of zero is strong enough only for settings that demand nothing.
  have hpos : 0.0 < pressureTotal bins := by
    refine (lt_or_le rfl (isNaN_of_isFinite htotal)).resolve_right fun hzero => h ?_
    exact ⟨hseveral, (pressureTotal_le_zero_iff hbins).mp hzero,
      fun hmin => not_le_of_lt hmin (le_trans hle hzero)⟩
  have hlast : 0.0 < Float.ofNat (bins.length - 1) := zero_lt_ofNat (by omega)
  have hmean := zero_le_div (zero_le_pressureMoment hbins hlength htotal) htotal hpos
  have hshare := zero_le_div hmean (isFinite_ofNat (n := bins.length - 1) (by omega)) hlast
  obtain ⟨hlower, hupper⟩ := clamp_mem (isNaN_of_le hshare)
  exact mul_mem hlower hupper hmax hmax'

theorem isNaN_pressure (hlength : bins.length < 2 ^ 64) (h : Blind settings bins) :
    (pressure settings bins).isNaN = true := by
  obtain ⟨hseveral, hsilent, hdemand⟩ := h
  obtain ⟨htotal, hvalue⟩ := eq_zero_of_le (le_pressureTotal hbins).1
    ((pressureTotal_le_zero_iff hbins).mpr hsilent)
  have hweak : ¬Weak settings bins := by
    rintro (hfew | hinfinite | hweak)
    · omega
    · exact hinfinite htotal
    · exact hdemand (lt_of_le_of_lt (le_pressureTotal hbins).1 hweak)
  obtain ⟨hmoment, hvalue'⟩ := pressureMoment_eq_zero hbins hlength hsilent
  have hshare : (pressureMoment bins / pressureTotal bins /
      Float.ofNat (bins.length - 1)).isNaN = true :=
    isNaN_div (isNaN_zero_div_zero hmoment hvalue' htotal hvalue)
  rw [pressure_of_not_weak hweak, clamp_of_isNaN hshare]
  exact isNaN_mul hshare

end Total

end Readings

/-! ## Bursts -/

section Bursts

variable {α : Type} [Scalar α] {e : Estimator α} {w : Window α}

/-- The window tells a pressure: it measures one, or the pen has left, and is no longer pressed. -/
def TellsPressure (e : Estimator α) (w : Window α) : Prop :=
  w.kind = .pressure ∨ w.kind = .position ∧ ¬e.Finds w

instance (e : Estimator α) (w : Window α) : Decidable (e.TellsPressure w) :=
  inferInstanceAs (Decidable (_ ∨ _ ∧ _))

/-- The pressure that a window tells. -/
def toldPressure (e : Estimator α) (w : Window α) : α :=
  if w.kind = .pressure then pressure e.settings w.rows else 0.0

theorem pressure_input (h : ¬e.TellsPressure w) :
    (e.input w).sample.pressure = e.sample.pressure := by
  rw [TellsPressure, not_or, not_and, not_not] at h
  unfold input
  cases hk : w.kind with
  | position =>
    obtain ⟨found, hfound⟩ := Option.isSome_iff_exists.mp (h.2 hk).2
    show (e.inputPosition w).sample.pressure = _
    unfold inputPosition
    rw [hfound]
  | tilt =>
    show (e.inputTilt w).sample.pressure = _
    unfold inputTilt
    split <;> rfl
  | pressure => exact absurd hk h.1
  | button => rfl
  | unknown code => rfl

theorem pressure_input_told (h : e.TellsPressure w) :
    (e.input w).sample.pressure = e.toldPressure w := by
  unfold input toldPressure
  rcases h with hk | ⟨hk, hlost⟩
  · rw [hk]
    rfl
  · rw [hk]
    show (e.inputPosition w).sample.pressure = 0.0
    rw [inputPosition_of_lost (locate?_of_not_finds hlost hk)]
    rfl

theorem tellsPressure_foldl_input (windows : List (Window α)) :
    (windows.foldl input e).TellsPressure w ↔ e.TellsPressure w := by
  unfold TellsPressure Finds
  rw [locate?_foldl_input]

theorem toldPressure_foldl_input (windows : List (Window α)) :
    (windows.foldl input e).toldPressure w = e.toldPressure w := by
  unfold toldPressure
  rw [foldl_input_eq]

/-- **Bursts.** The pressure is the one of the latest window that tells a pressure. -/
theorem pressure_foldl_input (e : Estimator α) (windows : List (Window α)) :
    (windows.foldl input e).sample.pressure =
      ((windows.filter (e.TellsPressure ·)).getLast?.map e.toldPressure).getD
        e.sample.pressure := by
  induction windows using List.reverseRecOn with
  | nil => rfl
  | append_singleton windows w ih =>
    rw [List.foldl_append, List.foldl_cons, List.foldl_nil, List.filter_append]
    by_cases h : e.TellsPressure w
    · rw [pressure_input_told ((tellsPressure_foldl_input windows).mpr h), toldPressure_foldl_input]
      simp [h]
    · rw [pressure_input (mt (tellsPressure_foldl_input windows).mp h), ih]
      simp [h]

end Bursts

/-- **Range.** The pressure is between zero and the pressure of a fully pressed tip, unless the
latest window that has told a pressure is one to which the settings are blind: then it is not a
number. Settings that demand some amplitude are blind to none. -/
theorem pressure_in_range (settings : PenSettings Float) (width height : Float)
    (metadata : Option (Metadata Float)) (hmin : 0.0 ≤ settings.minAmplitude)
    (hmax : settings.maxPressure.isFinite = true) (hmax' : 0.0 ≤ settings.maxPressure)
    (windows : List (Window Float)) (hreadings : ∀ w ∈ windows, ∀ a ∈ w.rows, a.Finite)
    (hlength : ∀ w ∈ windows, w.rows.length < 2 ^ 64) :
    let fresh := new settings width height metadata
    let e := windows.foldl input fresh
    let unread := ∃ w, (windows.filter (fresh.TellsPressure ·)).getLast? = some w ∧
      w.kind = .pressure ∧ Blind settings w.rows
    (¬unread → 0.0 ≤ e.sample.pressure ∧ e.sample.pressure ≤ settings.maxPressure) ∧
      (unread → e.sample.pressure.isNaN = true) ∧
      (0.0 < settings.minAmplitude →
        0.0 ≤ e.sample.pressure ∧ e.sample.pressure ≤ settings.maxPressure) := by
  intro fresh e unread
  have hpressure : e.sample.pressure =
      ((windows.filter (fresh.TellsPressure ·)).getLast?.map fresh.toldPressure).getD 0.0 :=
    pressure_foldl_input fresh windows
  have hrange : ¬unread → 0.0 ≤ e.sample.pressure ∧ e.sample.pressure ≤ settings.maxPressure := by
    intro hread
    rw [hpressure]
    cases hlatest : (windows.filter (fresh.TellsPressure ·)).getLast? with
    | none => exact ⟨le_self rfl, hmax'⟩
    | some w =>
      have hw : w ∈ windows := List.mem_of_mem_filter (List.mem_of_getLast? hlatest)
      rw [Option.map_some, Option.getD_some, toldPressure]
      split
      case isTrue hk =>
        exact pressure_mem (hreadings w hw) (hlength w hw) hmin hmax hmax' fun hblind =>
          hread ⟨w, hlatest, hk, hblind⟩
      case isFalse => exact ⟨le_self rfl, hmax'⟩
  refine ⟨hrange, ?_, fun hdemand => hrange ?_⟩
  · rintro ⟨w, hlatest, hk, hblind⟩
    have hw : w ∈ windows := List.mem_of_mem_filter (List.mem_of_getLast? hlatest)
    rw [hpressure, hlatest, Option.map_some, Option.getD_some, toldPressure, if_pos hk]
    exact isNaN_pressure (hreadings w hw) (hlength w hw) hblind
  · rintro ⟨_, _, _, hblind⟩
    exact hblind.2.2 hdemand

/-- A silent window leaves no number where no amplitude is demanded, until the next reading. -/
theorem pressure_in_range_silent :
    let settings : PenSettings Float := { PenSettings.default with minAmplitude := 0.0 }
    let pressed : Window Float := ⟨.pressure, [⟨60.0, 0.0⟩, ⟨0.0, 80.0⟩], [], 0, 0, 0⟩
    let silent : Window Float := { pressed with rows := [⟨0.0, 0.0⟩, ⟨0.0, -0.0⟩] }
    let fresh : Estimator Float := new settings 260.0 173.0 none
    ([pressed, silent].foldl input fresh).sample.pressure.isNaN = true ∧
      0.0 ≤ ([silent, pressed].foldl input fresh).sample.pressure ∧
      ([silent, pressed].foldl input fresh).sample.pressure ≤ 4096.0 := by
  intro settings pressed silent fresh
  have hunread := (pressure_in_range settings 260.0 173.0 none (by decide +kernel)
    (by decide +kernel) (by decide +kernel) [pressed, silent] (by decide +kernel) (by decide)).2.1
  have hread := (pressure_in_range settings 260.0 173.0 none (by decide +kernel)
    (by decide +kernel) (by decide +kernel) [silent, pressed] (by decide +kernel) (by decide)).1
  refine ⟨hunread ⟨silent, rfl, rfl, by decide +kernel⟩, hread ?_⟩
  rintro ⟨w, hlatest, -, hblind⟩
  cases hlatest
  revert hblind
  decide +kernel

/-- **Silence.** Settings that demand no amplitude are allowed, and the mean frequency of a silent
window is the ratio of two zeros. -/
theorem silence_leaves_no_number :
    ¬∀ (s : SessionSettings) (windows : List (Window Float)), s.validate = .ok () →
      s.pen.minAmplitude.isFinite = true → 0.0 ≤ s.pen.minAmplitude →
      s.pen.maxPressure.isFinite = true → 0.0 ≤ s.pen.maxPressure →
      (∀ w ∈ windows, ∀ a ∈ w.rows ++ w.columns, a.Finite) →
      let e := windows.foldl input (new s.pen s.width s.height none)
      0.0 ≤ e.sample.pressure ∧ e.sample.pressure ≤ s.pen.maxPressure := by
  intro h
  have hrange := h { pen := { PenSettings.default with minAmplitude := 0.0 } }
    [⟨.pressure, [⟨0.0, 0.0⟩, ⟨0.0, 0.0⟩], [], 0, 0, 0⟩]
    (SessionSettings.validate_eq_ok.mpr (by decide +kernel)) (by decide +kernel)
    (by decide +kernel) (by decide +kernel) (by decide +kernel) (by decide +kernel)
  revert hrange
  decide +kernel

end Estimator

end PenTouch
