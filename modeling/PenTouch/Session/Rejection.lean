import PenTouch.Contact.Basic
import PenTouch.Pen.Table

/-!
# Rejecting the writing hand

The palms of a frame turn the cones of all pens, and then every touch inside a cone counts as a
palm too. A touch that was rejected in this way never turns a cone.

* `screen_idle`: while no pen has a position, nothing is turned and nothing is rejected.
* `rejected_screen_le`: no more contacts are rejected than there are.
-/

namespace PenTouch

/-- The size of the panel in millimetres. -/
structure Panel where
  width : Float
  height : Float

/-- What screening a frame's contacts leaves. -/
structure Screening where
  pens : PenTable
  contacts : List (Contact Float)
  /-- The number of contacts that became invalid. -/
  rejected : Nat

namespace PenTable

/-- The pens with their cones turned towards each of the palms in turn. -/
def turn (pens : PenTable) (panel : Panel) (contacts : List (Contact Float)) (now : Time) :
    PenTable :=
  (contacts.filter (·.validity == .invalid)).foldl
    (fun pens palm => pens.updateDirection (palm.physical panel.width panel.height) now) pens

/-- A cone takes the contact out of the touches. -/
def rejectsContact (pens : PenTable) (panel : Panel) (now : Time) (c : Contact Float) : Bool :=
  c.validity != .invalid && pens.rejects (c.physical panel.width panel.height) now

/-- The contacts of a frame after the cones have been turned by the palms among them. -/
def screen (pens : PenTable) (panel : Panel) (contacts : List (Contact Float)) (now : Time) :
    Screening :=
  if pens.settings.enabled && pens.anyAlive then
    let pens := pens.turn panel contacts now
    { pens
      contacts := contacts.map fun c =>
        if pens.rejectsContact panel now c then { c with validity := .invalid } else c
      rejected := contacts.countP (pens.rejectsContact panel now) }
  else { pens, contacts, rejected := 0 }

theorem screen_idle {pens : PenTable} {panel : Panel} {contacts : List (Contact Float)} {now : Time}
    (h : (pens.settings.enabled && pens.anyAlive) = false) :
    pens.screen panel contacts now = { pens, contacts, rejected := 0 } := by
  simp [screen, h]

theorem length_screen (pens : PenTable) (panel : Panel) (contacts : List (Contact Float))
    (now : Time) : (pens.screen panel contacts now).contacts.length = contacts.length := by
  unfold screen
  split <;> simp

theorem rejected_screen_le (pens : PenTable) (panel : Panel) (contacts : List (Contact Float))
    (now : Time) : (pens.screen panel contacts now).rejected ≤ contacts.length := by
  unfold screen
  split
  · exact List.countP_le_length
  · exact Nat.zero_le _

end PenTable

end PenTouch
