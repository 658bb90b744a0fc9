import PenTouch.Scalar

/-!
# Points and vectors of a plane

A `Point` is a place, a `Vector2` the displacement between two places.
-/

namespace PenTouch

/-- A place in a plane. -/
structure Point (α : Type) where
  x : α
  y : α
  deriving Repr

/-- A displacement in a plane. -/
structure Vector2 (α : Type) where
  x : α
  y : α
  deriving Repr

variable {α : Type} [Scalar α]

namespace Vector2

instance : Add (Vector2 α) := ⟨fun v w => ⟨v.x + w.x, v.y + w.y⟩⟩

/-- The vector stretched by a factor. -/
def scale (v : Vector2 α) (k : α) : Vector2 α := ⟨v.x * k, v.y * k⟩

def dot (v w : Vector2 α) : α := v.x * w.x + v.y * w.y

def norm (v : Vector2 α) : α := Scalar.hypot v.x v.y

/-- The unit vector of the same direction, if the length is finite and above `Scalar.epsilon`. -/
def normalized? (v : Vector2 α) : Option (Vector2 α) :=
  if v.norm > Scalar.epsilon ∧ Scalar.isFinite v.norm then some ⟨v.x / v.norm, v.y / v.norm⟩
  else none

end Vector2

namespace Point

instance : HSub (Point α) (Point α) (Vector2 α) := ⟨fun p q => ⟨p.x - q.x, p.y - q.y⟩⟩

instance : HAdd (Point α) (Vector2 α) (Point α) := ⟨fun p v => ⟨p.x + v.x, p.y + v.y⟩⟩

instance : BEq (Point α) := ⟨fun p q => p.x == q.x && p.y == q.y⟩

def distance (p q : Point α) : α := (q - p : Vector2 α).norm

/-- The point with each axis stretched by a factor of its own. -/
def scale (p : Point α) (sx sy : α) : Point α := ⟨p.x * sx, p.y * sy⟩

end Point

end PenTouch
