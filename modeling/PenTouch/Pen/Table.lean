import PenTouch.Pen.Cone
import PenTouch.Pen.Sample
import PenTouch.Scalar.Double

/-!
# Known pens

One entry for each pen that has been seen, one of them current. A table starts with a placeholder
of number `0`, which takes the number of the first pen that reports one while it is current.
-/

namespace PenTouch

/-- A known pen with its cone and its latest sample. -/
structure Pen where
  serial : Nat
  cone : Cone Float
  last : Option (PenSample Float) := none

/-- The known pens, one of them current. -/
structure PenTable where
  settings : ConeSettings Float
  pens : List Pen
  current : Nat
  current_lt : current < pens.length

namespace PenTable

/-- The table with the placeholder alone. -/
def new (settings : ConeSettings Float) : PenTable where
  settings
  pens := [{ serial := 0, cone := .ofSettings settings }]
  current := 0
  current_lt := Nat.one_pos

/-- The pen that reported last. -/
def currentPen (t : PenTable) : Pen := t.pens.get ⟨t.current, t.current_lt⟩

/-- The table with the current pen changed. -/
def modifyCurrent (t : PenTable) (f : Pen → Pen) : PenTable :=
  { t with
    pens := t.pens.set t.current (f t.currentPen)
    current_lt := by rw [List.length_set]; exact t.current_lt }

/-- Makes the pen of a number current. A new number goes to the placeholder if that is current, and
else to a new entry. -/
def switch (t : PenTable) (serial : Nat) : PenTable :=
  match h : t.pens.findIdx? (·.serial == serial) with
  | some i => { t with current := i, current_lt := (List.findIdx?_eq_some_iff_getElem.mp h).1 }
  | none =>
    if t.currentPen.serial = 0 then t.modifyCurrent ({ · with serial })
    else
      { t with
        pens := t.pens ++ [{ serial, cone := .ofSettings t.settings }]
        current := t.pens.length
        current_lt := by simp }

def get? (t : PenTable) (serial : Nat) : Option Pen := t.pens.find? (·.serial == serial)

/-- Some pen has had a position. -/
def anyAlive (t : PenTable) : Bool := t.pens.any (·.cone.alive)

/-- The number of cones that can reject touches. -/
def activeCount (t : PenTable) (now : Time) : Nat := t.pens.countP (·.cone.active now)

/-- Turns every cone that is alive towards a palm. -/
def updateDirection (t : PenTable) (palm : Point Float) (now : Time) : PenTable :=
  { t with
    pens := t.pens.map fun p =>
      if p.cone.alive then { p with cone := p.cone.updateDirection palm now } else p
    current_lt := by rw [List.length_map]; exact t.current_lt }

/-- Some active cone contains the point. -/
def rejects (t : PenTable) (p : Point Float) (now : Time) : Bool :=
  t.pens.any fun pen => pen.cone.active now && pen.cone.contains p

/-- The table after a pen has reported a sample at a position. -/
def report (t : PenTable) (sample : PenSample Float) (position : Point Float) (now : Time) :
    PenTable :=
  (t.switch sample.serial).modifyCurrent fun pen =>
    { pen with
      last := some sample
      cone := if sample.proximity then pen.cone.updatePosition position now else pen.cone }

end PenTable

end PenTouch
