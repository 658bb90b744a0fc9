import PenTouch.Proofs.Scalar.Order
import PenTouch.Session
import PenTouch.Settings.File
import PenTouch.Toml.Document

/-!
# The settings that are accepted

Settings are checked before a session starts with them, and when they are read from a file. A check
that demands a comparison fails for a value that is not a number; a check that refuses the opposite
comparison passes it (`not_lt_iff`). Both kinds occur, so what is known of accepted settings is that
they are `Admissible`: their limits are in order as far as they are numbers.

1. `validate_eq_ok_iff`: the check accepts just the admissible settings.
2. `sound_iff`: they are `Sound`, with all limits in order, just if six of the limits are numbers.
-/

namespace PenTouch

open Double

namespace SessionSettings

/-! ## Limits -/

/-- The limits that the check demands to be in order. -/
structure Firm (s : SessionSettings) : Prop where
  width : 0.0 < s.width ∧ s.width.isFinite = true
  height : 0.0 < s.height ∧ s.height.isFinite = true
  levels : 0.0 ≤ s.touch.deactivation ∧ s.touch.deactivation ≤ s.touch.activation ∧
    s.touch.activation ≤ 1.0
  stability : 1 ≤ s.touch.stabilityFrames
  angle : 0.0 < s.cone.angle ∧ s.cone.angle < 180.0

/-- All limits are in order. -/
structure Sound (s : SessionSettings) : Prop extends s.Firm where
  sizes : s.touch.sizeMin ≤ s.touch.sizeMax
  aspects : s.touch.aspectMin ≤ s.touch.aspectMax
  tracking : 0.0 ≤ s.touch.trackingDistance
  reach : 0.0 < s.cone.distance

/-- All limits are in order, as far as they are numbers. -/
structure Admissible (s : SessionSettings) : Prop extends s.Firm where
  sizes : s.touch.sizeMin ≤ s.touch.sizeMax ∨
    s.touch.sizeMin.isNaN = true ∨ s.touch.sizeMax.isNaN = true
  aspects : s.touch.aspectMin ≤ s.touch.aspectMax ∨
    s.touch.aspectMin.isNaN = true ∨ s.touch.aspectMax.isNaN = true
  tracking : 0.0 ≤ s.touch.trackingDistance ∨ s.touch.trackingDistance.isNaN = true
  reach : 0.0 < s.cone.distance ∨ s.cone.distance.isNaN = true

/-- The limits that the check only refuses to be out of order are numbers. -/
structure Numeric (s : SessionSettings) : Prop where
  sizes : ¬(s.touch.sizeMin.isNaN = true ∨ s.touch.sizeMax.isNaN = true)
  aspects : ¬(s.touch.aspectMin.isNaN = true ∨ s.touch.aspectMax.isNaN = true)
  tracking : ¬s.touch.trackingDistance.isNaN = true
  reach : ¬s.cone.distance.isNaN = true

/-- Admissible settings are sound just if those limits are numbers. -/
theorem sound_iff {s : SessionSettings} : s.Sound ↔ s.Admissible ∧ s.Numeric := by
  constructor
  · intro h
    refine ⟨⟨h.toFirm, .inl h.sizes, .inl h.aspects, .inl h.tracking, .inl h.reach⟩,
      ⟨?_, ?_, ?_, ?_⟩⟩
    · rintro (hnan | hnan)
      · exact (not_le_of_isNaN hnan).1 h.sizes
      · exact (not_le_of_isNaN hnan).2 h.sizes
    · rintro (hnan | hnan)
      · exact (not_le_of_isNaN hnan).1 h.aspects
      · exact (not_le_of_isNaN hnan).2 h.aspects
    · exact fun hnan => (not_le_of_isNaN hnan).2 h.tracking
    · exact fun hnan => (not_lt_of_isNaN hnan).2 h.reach
  · rintro ⟨h, hnumeric⟩
    exact ⟨h.toFirm, h.sizes.resolve_right hnumeric.sizes,
      h.aspects.resolve_right hnumeric.aspects, h.tracking.resolve_right hnumeric.tracking,
      h.reach.resolve_right hnumeric.reach⟩

/-! ## The check -/

theorem displayOk_iff {s : SessionSettings} :
    s.displayOk = true ↔
      (0.0 < s.width ∧ s.width.isFinite = true) ∧ 0.0 < s.height ∧ s.height.isFinite = true := by
  simp only [displayOk, Bool.and_eq_true, decide_eq_true_eq, gt_iff_lt]
  constructor
  · rintro ⟨⟨⟨hwidth, hheight⟩, hwidth'⟩, hheight'⟩
    exact ⟨⟨hwidth, hwidth'⟩, hheight, hheight'⟩
  · rintro ⟨⟨hwidth, hwidth'⟩, hheight, hheight'⟩
    exact ⟨⟨⟨hwidth, hheight⟩, hwidth'⟩, hheight'⟩

theorem thresholdsOk_iff {t : TouchSettings Float} :
    thresholdsOk t = true ↔
      (0.0 ≤ t.deactivation ∧ t.deactivation ≤ t.activation ∧ t.activation ≤ 1.0) ∧
        ¬t.sizeMax < t.sizeMin ∧ ¬t.aspectMax < t.aspectMin ∧ ¬t.trackingDistance < 0.0 := by
  simp only [thresholdsOk, isShare, Bool.and_eq_true, Bool.not_eq_true', decide_eq_true_eq,
    decide_eq_false_iff_not, gt_iff_lt]
  constructor
  · rintro ⟨⟨⟨⟨⟨⟨hzero', hone⟩, hzero, -⟩, hlevels⟩, hsizes⟩, haspects⟩, htracking⟩
    -- Both levels have been compared with zero, so they are numbers.
    have hle := (lt_or_le (isNaN_of_le hzero') (isNaN_of_le hzero)).resolve_left hlevels
    exact ⟨⟨hzero, hle, hone⟩, hsizes, haspects, htracking⟩
  · rintro ⟨⟨hzero, hle, hone⟩, hsizes, haspects, htracking⟩
    have hlevels := fun h => not_le_of_lt h hle
    exact ⟨⟨⟨⟨⟨⟨le_trans hzero hle, hone⟩, hzero, le_trans hle hone⟩, hlevels⟩, hsizes⟩, haspects⟩,
      htracking⟩

theorem coneOk_iff {c : ConeSettings Float} :
    coneOk c = true ↔ (0.0 < c.angle ∧ c.angle < 180.0) ∧ ¬c.distance ≤ 0.0 := by
  simp only [coneOk, Bool.and_eq_true, Bool.not_eq_true', decide_eq_true_eq,
    decide_eq_false_iff_not, gt_iff_lt]

theorem one_le_iff {n : UInt32} : 1 ≤ n ↔ n ≠ 0 := by
  rw [UInt32.le_iff_toNat_le, ne_eq, ← UInt32.toNat_inj]
  exact Nat.one_le_iff_ne_zero

/-- **The check.** Settings are accepted just if their limits are in order as far as they are
numbers. -/
theorem validate_eq_ok_iff {s : SessionSettings} : s.validate = .ok () ↔ s.Admissible := by
  rw [validate_eq_ok, displayOk_iff, thresholdsOk_iff, coneOk_iff, ← one_le_iff, not_lt_iff,
    not_lt_iff, not_lt_zero_iff, not_le_zero_iff]
  constructor
  · rintro ⟨⟨hwidth, hheight⟩, ⟨hlevels, hsizes, haspects, htracking⟩, hstability, hangle, hreach⟩
    exact ⟨⟨hwidth, hheight, hlevels, hstability, hangle⟩, hsizes, haspects, htracking, hreach⟩
  · intro h
    exact ⟨⟨h.width, h.height⟩, ⟨h.levels, h.sizes, h.aspects, h.tracking⟩, h.stability, h.angle,
      h.reach⟩

/-! ## Files and sessions -/

inductive Accepted (s : SessionSettings) : Prop
  /-- They have passed the check. -/
  | checked (h : s.validate = .ok ())
  /-- They have been read from the text of a file, with some parser. -/
  | read (parse? : String → Option Toml.Entries) (text : String) (f : FileSettings)
    (h : FileSettings.ofText parse? text = .ok f) (hs : f.session = s)
  /-- A session has started with them. -/
  | started (metadata : Option (Metadata Float)) (session : Session)
    (h : Session.start s metadata = .ok session)

theorem bind_eq_ok {β : Type} {s : SessionSettings} {k : Except SettingsError β} {b : β}
    (h : (do s.validate; k) = .ok b) : s.validate = .ok () := by
  cases hs : s.validate with
  | error e =>
    rw [hs] at h
    cases h
  | ok => rfl

theorem validate_of_ofText {parse? : String → Option Toml.Entries} {text : String}
    {f : FileSettings} (h : FileSettings.ofText parse? text = .ok f) :
    f.session.validate = .ok () := by
  unfold FileSettings.ofText at h
  split at h
  · cases h
  case h_2 g _ =>
    have hvalid := bind_eq_ok h
    rw [hvalid] at h
    cases h
    exact hvalid

theorem validate_of_accepted {s : SessionSettings} (h : s.Accepted) : s.validate = .ok () := by
  cases h with
  | checked h => exact h
  | read parse? text f h hs => exact hs ▸ validate_of_ofText h
  | started metadata session h => exact bind_eq_ok h

/-- **Accepted settings.** However settings have been accepted, their limits are in order as far as
they are numbers, and all settings of that kind are accepted. Just those are sound whose limits of
sizes, aspects, tracking and reach are numbers. -/
theorem accepted_iff_admissible (s : SessionSettings) :
    (s.Accepted ↔ s.Admissible) ∧ (s.Sound ↔ s.Accepted ∧ s.Numeric) := by
  have h : s.Accepted ↔ s.Admissible :=
    ⟨fun h => validate_eq_ok_iff.mp (validate_of_accepted h),
      fun h => .checked (validate_eq_ok_iff.mpr h)⟩
  refine ⟨h, ?_⟩
  rw [h]
  exact sound_iff

/-- The text of a file in which the reach of the cone is not a number. -/
def undefinedReach : String := "[cone]\ndistance = nan\n"

/-- **An undefined reach.** The check only refuses a reach of at most zero, so this one passes. -/
theorem undefined_reach_is_accepted : ¬∀ s : SessionSettings, s.Accepted → s.Sound := by
  intro h
  have hread : (match FileSettings.ofText Toml.parse? undefinedReach with
      | .ok f => f.session.cone.distance.isNaN
      | .error _ => false) = true := by decide +kernel
  split at hread
  case h_1 f hf =>
    exact (not_lt_of_isNaN hread).2 (h f.session (.read Toml.parse? undefinedReach f hf rfl)).reach
  case h_2 => cases hread

end SessionSettings

end PenTouch
