import Mathlib
import PenTouch.Proofs.Pen.Forgetting
import PenTouch.Proofs.Pen.Weights
import PenTouch.Settings.Session

/-!
# The range of positions

Without a report of the device, antennas are spread evenly over the device range, and a position is
confined to the range. What is not a number is not confined (`coordinate_mem`, `isNaN_coordinate`),
so a pen in range has a place in the device range just as far as the axes of the latest position
window are weighable (`position_in_range`). With moderate readings they are; `overflow_leaves_range`
is a reading for which they are not.
-/

namespace PenTouch

open Double

/-! ## Coordinates -/

namespace Double

variable {x limit : Float}

theorem clamp_mem (hx : x.isNaN = false) :
    0.0 ≤ Scalar.clamp x 0.0 1.0 ∧ Scalar.clamp x 0.0 1.0 ≤ 1.0 := by
  unfold Scalar.clamp
  split_ifs with hlow hhigh
  · exact ⟨le_self rfl, by decide +kernel⟩
  · exact ⟨by decide +kernel, le_self rfl⟩
  · exact ⟨(lt_or_le hx rfl).resolve_left hlow, (lt_or_le rfl hx).resolve_left hhigh⟩

theorem clamp_of_isNaN (hx : x.isNaN = true) : Scalar.clamp x 0.0 1.0 = x := by
  unfold Scalar.clamp
  rw [if_neg (not_lt_of_isNaN hx).1, if_neg (not_lt_of_isNaN hx).2]

theorem mul_mem (hx : 0.0 ≤ x) (hx' : x ≤ 1.0) (hlimit : limit.isFinite = true)
    (hlimit' : 0.0 ≤ limit) : 0.0 ≤ x * limit ∧ x * limit ≤ limit := by
  have hfinite := isFinite_of_le_of_le rfl rfl hx hx'
  have hone := (le_iff_value (y := 1.0) hfinite rfl).mp hx'
  rw [value_one] at hone
  refine ⟨zero_le_mul hfinite hlimit hx hlimit', ?_⟩
  exact (rounds_mul hfinite hlimit).le_of_le hlimit
    (mul_le_of_le_one_left ((zero_le_iff_value hlimit).mp hlimit') hone)

end Double

namespace Calibration

/-- The device coordinate of a position that is counted from the first antenna of a window. -/
def coordinate (first count : Nat) (position limit : Float) : Float :=
  Scalar.clamp ((Float.ofNat first + position) / Float.ofNat (max count 2 - 1)) 0.0 1.0 * limit

variable {first count : Nat} {position limit : Float}

theorem coordinate_mem (hcount : count < 2 ^ 32) (hposition : 0.0 ≤ position)
    (hlimit : limit.isFinite = true) (hlimit' : 0.0 ≤ limit) :
    0.0 ≤ coordinate first count position limit ∧
      coordinate first count position limit ≤ limit := by
  have hsum : 0.0 ≤ Float.ofNat first + position :=
    le_trans (zero_le_ofNat first) (le_add_right (zero_le_ofNat first) hposition)
  have hfinite : (Float.ofNat (max count 2 - 1)).isFinite = true := isFinite_ofNat (by omega)
  have hpos : 0.0 < Float.ofNat (max count 2 - 1) := zero_lt_ofNat (by omega)
  obtain ⟨hlower, hupper⟩ := clamp_mem (isNaN_of_le (zero_le_div hsum hfinite hpos))
  exact mul_mem hlower hupper hlimit hlimit'

theorem isNaN_coordinate (hposition : position.isNaN = true) :
    (coordinate first count position limit).isNaN = true := by
  have hshare : ((Float.ofNat first + position) / Float.ofNat (max count 2 - 1)).isNaN = true :=
    isNaN_div (isNaN_add hposition)
  unfold coordinate
  rw [clamp_of_isNaN hshare]
  exact isNaN_mul hshare

end Calibration

/-- The readings of the window are moderate in size, and a double can count them. -/
structure Window.Moderate (w : Window Float) : Prop where
  few : w.rows.length < 2 ^ 53 ∧ w.columns.length < 2 ^ 53
  readings : ∀ a ∈ w.rows ++ w.columns, a.Moderate

namespace Estimator

open AxisPeak

/-! ## The latest position window -/

section Latest

variable {α : Type} [Scalar α] {e : Estimator α} {w : Window α}

theorem place_input (hw : w.kind ≠ .position) :
    (e.input w).sample.x = e.sample.x ∧ (e.input w).sample.y = e.sample.y := by
  unfold input
  cases hk : w.kind with
  | position => exact absurd hk hw
  | tilt =>
    show (e.inputTilt w).sample.x = _ ∧ (e.inputTilt w).sample.y = _
    unfold inputTilt
    split <;> exact ⟨rfl, rfl⟩
  | pressure => exact ⟨rfl, rfl⟩
  | button => exact ⟨rfl, rfl⟩
  | unknown code => exact ⟨rfl, rfl⟩

theorem place_input_position {position : Point α} {peak : Antenna α} (hw : w.kind = .position)
    (h : e.locate? w = some (position, peak)) :
    (e.input w).sample.x = position.x ∧ (e.input w).sample.y = position.y := by
  unfold input inputPosition
  rw [hw, h]
  exact ⟨rfl, rfl⟩

/-- A pen in range is where the latest position window has found it. -/
theorem located_of_proximity (hp : e.sample.proximity = false) (windows : List (Window α)) :
    (windows.foldl input e).sample.proximity = true →
      ∃ w, (windows.filter (·.kind = .position)).getLast? = some w ∧
        ∃ position peak, e.locate? w = some (position, peak) ∧
          (windows.foldl input e).sample.x = position.x ∧
          (windows.foldl input e).sample.y = position.y := by
  induction windows using List.reverseRecOn with
  | nil => exact fun h => nomatch hp.symm.trans h
  | append_singleton windows w ih =>
    rw [List.foldl_append, List.foldl_cons, List.foldl_nil, List.filter_append]
    by_cases hw : w.kind = .position
    · intro h
      rw [proximity_input_position _ w hw, Option.isSome_iff_exists] at h
      obtain ⟨⟨position, peak⟩, hfound⟩ := h
      refine ⟨w, by simp [hw], position, peak, ?_, place_input_position hw hfound⟩
      rw [← locate?_foldl_input e windows w]
      exact hfound
    · rw [proximity_input hw, (place_input hw).1, (place_input hw).2]
      simpa [hw] using ih

end Latest

/-! ## Range -/

/-- The coordinate is in the range if the axis is weighable, and it is not a number if not. -/
def Confined (antennas : List (Antenna Float)) (radius : Nat) (limit x : Float) : Prop :=
  (Weighable antennas radius → 0.0 ≤ x ∧ x ≤ limit) ∧
    (¬Weighable antennas radius → x.isNaN = true)

theorem confined_coordinate {antennas : List (Antenna Float)} {radius : Nat}
    {minAmplitude limit : Float} {p : AxisPeak Float} {first count : Nat}
    (h : ofAntennas? antennas radius minAmplitude = some p) (hlength : antennas.length < 2 ^ 64)
    (hcount : count < 2 ^ 32) (hlimit : limit.isFinite = true) (hlimit' : 0.0 ≤ limit) :
    Confined antennas radius limit (Calibration.coordinate first count p.position limit) :=
  ⟨fun hw => Calibration.coordinate_mem hcount (position_nonneg h hlength hw) hlimit hlimit',
    fun hw => Calibration.isNaN_coordinate (isNaN_position h hlength hw)⟩

theorem locate?_eq_some {settings : PenSettings Float} {width height : Float} {w : Window Float}
    {position : Point Float} {peak : Antenna Float}
    (h : (new settings width height none).locate? w = some (position, peak)) :
    ∃ p q, ofAntennas? w.columns settings.windowRadius settings.minAmplitude = some p ∧
      ofAntennas? w.rows settings.windowRadius settings.minAmplitude = some q ∧
      position.x = Calibration.coordinate w.firstColumn settings.defaultColumns p.position maxX ∧
      position.y = Calibration.coordinate w.firstRow settings.defaultRows q.position maxY := by
  obtain ⟨p, hp, h⟩ := Option.bind_eq_some_iff.mp h
  obtain ⟨q, hq, h⟩ := Option.bind_eq_some_iff.mp h
  cases h
  exact ⟨p, q, hp, hq, rfl, rfl⟩

/-- **Range.** A pen in range is where the latest position window found it, whatever came after.
Each coordinate is in the device range if the weights of that axis have a mean, and is not a number
if they have none. They have one if the settings demand some amplitude, no reading is huge and the
radius does not wrap around. -/
theorem position_in_range (settings : PenSettings Float) (width height : Float)
    (hrows : settings.defaultRows < 2 ^ 32) (hcolumns : settings.defaultColumns < 2 ^ 32)
    (windows : List (Window Float))
    (hlength : ∀ w ∈ windows, w.rows.length < 2 ^ 64 ∧ w.columns.length < 2 ^ 64) :
    let e := windows.foldl input (new settings width height none)
    e.sample.proximity = true →
      ∃ w, (windows.filter (·.kind = .position)).getLast? = some w ∧
        Confined w.columns settings.windowRadius maxX e.sample.x ∧
        Confined w.rows settings.windowRadius maxY e.sample.y ∧
        (1e-90 ≤ settings.minAmplitude → w.Moderate → w.Holds settings.windowRadius →
          (0.0 ≤ e.sample.x ∧ e.sample.x ≤ maxX) ∧ 0.0 ≤ e.sample.y ∧ e.sample.y ≤ maxY) := by
  intro e hproximity
  obtain ⟨w, hlatest, position, peak, hfound, hx, hy⟩ := located_of_proximity rfl windows hproximity
  obtain ⟨p, q, hp, hq, hx', hy'⟩ := locate?_eq_some hfound
  obtain ⟨hrows', hcolumns'⟩ := hlength w (List.mem_of_mem_filter (List.mem_of_getLast? hlatest))
  have hxrange : Confined w.columns settings.windowRadius maxX e.sample.x := by
    rw [hx, hx']
    exact confined_coordinate hp hcolumns' hcolumns (by decide +kernel) (by decide +kernel)
  have hyrange : Confined w.rows settings.windowRadius maxY e.sample.y := by
    rw [hy, hy']
    exact confined_coordinate hq hrows' hrows (by decide +kernel) (by decide +kernel)
  refine ⟨w, hlatest, hxrange, hyrange, fun hmin hmoderate hholds =>
    ⟨hxrange.1 ?_, hyrange.1 ?_⟩⟩
  · exact weighable_of_moderate hp hmin hmoderate.few.2 hholds.columns fun a ha =>
      hmoderate.readings a (List.mem_append_right w.rows ha)
  · exact weighable_of_moderate hq hmin hmoderate.few.1 hholds.rows fun a ha =>
      hmoderate.readings a (List.mem_append_left w.columns ha)

/-- Of two position windows the later one counts, with a tilt window after it. -/
theorem position_in_range_tilt :
    let w : Window Float := ⟨.position, [⟨90.0, 0.0⟩], [⟨0.0, 90.0⟩, ⟨0.0, 60.0⟩], 3, 5, 0⟩
    let windows := [{ w with rows := [⟨70.0, 0.0⟩] }, w, { w with kind := .tilt }]
    let e := windows.foldl input (new .default 260.0 173.0 none)
    e.sample.proximity = true ∧
      (0.0 ≤ e.sample.x ∧ e.sample.x ≤ maxX) ∧ 0.0 ≤ e.sample.y ∧ e.sample.y ≤ maxY := by
  intro w windows
  have hproximity : (windows.foldl input (new .default 260.0 173.0 none)).sample.proximity = true :=
    by decide +kernel
  obtain ⟨v, hv, -, -, hrange⟩ := position_in_range .default 260.0 173.0 (by decide) (by decide)
    windows (by decide) hproximity
  have hlatest : v = w := by simpa [windows, w] using hv.symm
  have hmoderate : v.Moderate := by
    rw [hlatest]
    exact ⟨by decide, by decide +kernel⟩
  have hholds : v.Holds 1 := by
    rw [hlatest]
    exact ⟨by decide, by decide⟩
  exact ⟨hproximity, hrange (by decide +kernel) hmoderate hholds⟩

/-- **Overflow.** A square that overflows leaves no number, though every coefficient is finite. -/
theorem overflow_leaves_range :
    ¬∀ (s : SessionSettings) (windows : List (Window Float)), s.validate = .ok () →
      (∀ w ∈ windows, ∀ a ∈ w.rows ++ w.columns,
        a.real.isFinite = true ∧ a.imag.isFinite = true) →
      let e := windows.foldl input (new s.pen s.width s.height none)
      e.sample.proximity = true →
        (0.0 ≤ e.sample.x ∧ e.sample.x ≤ maxX) ∧ 0.0 ≤ e.sample.y ∧ e.sample.y ≤ maxY := by
  intro h
  have hrange := h {} [⟨.position, [⟨1e200, 0.0⟩], [⟨1e200, 0.0⟩], 21, 31, 0⟩]
    (SessionSettings.validate_eq_ok.mpr (by decide +kernel)) (by decide +kernel) (by decide +kernel)
  revert hrange
  decide +kernel

end Estimator

end PenTouch
