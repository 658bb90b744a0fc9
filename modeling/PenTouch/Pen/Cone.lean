import PenTouch.Pen.Settings
import PenTouch.Plane
import PenTouch.Time

/-!
# Cones

A cone has its origin at the tip of a pen and opens towards the palm of the hand that holds it.
Touches in it are taken for the palm. A cone is dead until its pen has a position, and active as
long as both its origin and its direction are recent.
-/

namespace PenTouch

/-- A sector around the tip of a pen. -/
structure Cone (α : Type) where
  /-- The cosine of the half-width. -/
  angleCos : α
  distance : α
  timeout : Span
  halfLife : Span
  origin : Option (Stamped (Point α)) := none
  direction : Option (Stamped (Vector2 α)) := none

/-- The stages in the life of a cone. -/
inductive ConeState where
  /-- The pen has had no position yet. -/
  | dead
  /-- The origin is known, but no recent direction. -/
  | inactive
  /-- Origin and direction are recent. -/
  | active
  deriving DecidableEq, Repr

namespace Cone

variable {α : Type} [Scalar α]

/-- A dead cone with a half-width in degrees and a reach. -/
def new (angle distance : α) : Cone α where
  angleCos := Scalar.cos (Scalar.radians angle)
  distance
  timeout := .ofMilliseconds (ConeSettings.default : ConeSettings α).timeoutMs
  halfLife := .ofMilliseconds (ConeSettings.default : ConeSettings α).halfLifeMs

/-- A dead cone; its half-life is at least a millisecond. -/
def ofSettings (s : ConeSettings α) : Cone α :=
  { new s.angle s.distance with
    timeout := .ofMilliseconds s.timeoutMs
    halfLife := .ofMilliseconds (max s.halfLifeMs 1) }

/-! ## State -/

def alive (c : Cone α) : Bool := c.origin.isSome

/-- Origin and direction exist and neither is older than the timeout. -/
def active (c : Cone α) (now : Time) : Bool :=
  c.origin.any (fun o => o.age now ≤ c.timeout) && c.direction.any (fun d => d.age now ≤ c.timeout)

def state (c : Cone α) (now : Time) : ConeState :=
  if !c.alive then .dead else if c.active now then .active else .inactive

/-! ## Updates -/

/-- The cone with its origin at a new position of the pen. -/
def updatePosition (c : Cone α) (p : Point α) (now : Time) : Cone α :=
  { c with origin := some ⟨p, now⟩ }

/-- The share that is left of a direction of some age. -/
def weight (c : Cone α) (age : Span) : α :=
  Scalar.pow 0.5 (age.seconds / c.halfLife.seconds)

/-- The direction after a palm was seen towards a unit vector: the old direction, by its weight,
and the new one, made a unit vector again; the new one alone if the two cancel. -/
def blend (c : Cone α) (towards : Vector2 α) (now : Time) : Vector2 α :=
  match c.direction with
  | none => towards
  | some old => (old.value.scale (c.weight (old.age now)) + towards).normalized?.getD towards

/-- The cone turned towards a palm. A dead cone, and a palm without a direction from the tip,
change nothing. -/
def updateDirection (c : Cone α) (palm : Point α) (now : Time) : Cone α :=
  match c.origin.bind fun o => (palm - o.value : Vector2 α).normalized? with
  | none => c
  | some towards => { c with direction := some ⟨c.blend towards now, now⟩ }

/-! ## Rejection -/

/-- The point lies in the sector. Without origin and direction there is none. -/
def contains (c : Cone α) (p : Point α) : Bool :=
  match c.origin, c.direction with
  | some origin, some direction =>
    let offset : Vector2 α := p - origin.value
    !(offset.norm > c.distance) && offset.dot direction.value > c.angleCos * offset.norm
  | _, _ => false

end Cone

end PenTouch
