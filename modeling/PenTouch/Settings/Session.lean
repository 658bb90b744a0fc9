import PenTouch.Contact.Settings
import PenTouch.Decimal.Text
import PenTouch.Pen.Settings

/-!
# Session settings

The settings of one session, and the conditions under which a session may start.

* `SessionSettings.validate_eq_ok`: settings are allowed just if all parts of them are.
-/

namespace PenTouch

/-- The settings of one session. Lengths are in millimetres. -/
structure SessionSettings where
  width : Float := 260.0
  height : Float := 173.0
  touch : TouchSettings Float := .metric
  pen : PenSettings Float := .default
  cone : ConeSettings Float := .default

inductive SettingsError where
  /-- The panel has no area. -/
  | displaySize (width height : Float)
  /-- The contact thresholds are out of range or out of order. -/
  | thresholds
  /-- Contacts would be stable after no frame at all. -/
  | stability
  /-- The cone has no angle or no reach. -/
  | cone
  /-- The file could not be read. -/
  | unreadable (reason : String)
  /-- The file is not well formed. -/
  | malformed

def SettingsError.message : SettingsError → String
  | .displaySize width height =>
    s!"invalid display size {Decimal.text width}x{Decimal.text height}: " ++
      "both dimensions must be positive"
  | .thresholds => "invalid contact detection thresholds"
  | .stability => "stability requires at least one frame"
  | .cone => "invalid rejection cone geometry"
  | .unreadable reason => "failed to read config file: " ++ reason
  | .malformed => "failed to parse config file"

namespace SessionSettings

def diagonal (s : SessionSettings) : Float := Scalar.hypot s.width s.height

/-- A number between zero and one. -/
def isShare (x : Float) : Bool := 0.0 ≤ x && x ≤ 1.0

/-- The panel has an area. -/
def displayOk (s : SessionSettings) : Bool :=
  s.width > 0.0 && s.height > 0.0 && s.width.isFinite && s.height.isFinite

/-- The levels are shares in order, and no other limit is out of order. -/
def thresholdsOk (t : TouchSettings Float) : Bool :=
  isShare t.activation && isShare t.deactivation && !(t.deactivation > t.activation) &&
    !(t.sizeMin > t.sizeMax) && !(t.aspectMin > t.aspectMax) && !(t.trackingDistance < 0.0)

/-- The cone has an angle and a reach. -/
def coneOk (c : ConeSettings Float) : Bool :=
  c.angle > 0.0 && c.angle < 180.0 && !(c.distance ≤ 0.0)

/-- Refuses settings with which no session may start; of several reasons the first is given. -/
def validate (s : SessionSettings) : Except SettingsError Unit :=
  if !s.displayOk then .error (.displaySize s.width s.height)
  else if !thresholdsOk s.touch then .error .thresholds
  else if s.touch.stabilityFrames = 0 then .error .stability
  else if !coneOk s.cone then .error .cone
  else .ok ()

theorem validate_eq_ok {s : SessionSettings} :
    s.validate = .ok () ↔
      s.displayOk = true ∧ thresholdsOk s.touch = true ∧ s.touch.stabilityFrames ≠ 0 ∧
        coneOk s.cone = true := by
  unfold validate
  cases s.displayOk <;> cases thresholdsOk s.touch <;> cases coneOk s.cone <;>
    by_cases h : s.touch.stabilityFrames = 0 <;> simp [h]

/-- The contact settings with sizes relative to the diagonal. -/
def contacts (s : SessionSettings) : TouchSettings Float :=
  { s.touch with
    fittingRadius := max s.touch.fittingRadius 1
    stabilityFrames := max s.touch.stabilityFrames 1
    sizeMin := s.touch.sizeMin / s.diagonal
    sizeMax := s.touch.sizeMax / s.diagonal }

end SessionSettings

end PenTouch
