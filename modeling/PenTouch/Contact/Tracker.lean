import PenTouch.Contact.Basic
import PenTouch.Contact.Settings

/-!
# Tracking

Candidates of a frame are matched with the tracks of the frame before. All pairs within reach are
taken in one order, the closest first, and each is kept unless one of its two ends is already
matched (`assign`). A matched candidate goes on with the track's identity; any other gets the
smallest identity that is free in this frame.

A contact's verdict follows from its shape, except that a palm stays one for as long as it is
tracked.
-/

namespace PenTouch

variable {α : Type} [Scalar α]

/-- What is remembered of a contact until the next frame. -/
structure Track (α : Type) where
  id : Nat
  mean : Point α
  major : α
  /-- The number of frames since the size last jumped, at most `2³² - 1`. -/
  streak : UInt32
  palm : Bool

/-! ## Matching -/

/-- A candidate and a track that may be the same contact, both given by their places. -/
structure Link (α : Type) where
  distance : α
  /-- How much the major size changes. -/
  change : α
  candidate : Nat
  track : Nat

/-- The pairs that are at most `reach` apart. -/
def Tracker.links (tracks : List (Track α)) (candidates : List (Candidate α)) (reach : α) :
    List (Link α) :=
  candidates.zipIdx.flatMap fun (c, candidate) =>
    tracks.zipIdx.filterMap fun (t, track) =>
      let distance := t.mean.distance c.mean
      if distance ≤ reach then
        some { distance, change := Scalar.abs (c.major - t.major), candidate, track }
      else none

/-- Links are ordered by distance, then by change of size, then by the places of their ends. -/
def Link.order (a b : Link α) : Ordering :=
  (Scalar.order a.distance b.distance).then <|
    (Scalar.order a.change b.change).then <|
      (compare a.candidate b.candidate).then (compare a.track b.track)

/-- Two links share an end. -/
def Link.meets (a b : Link α) : Bool := a.candidate == b.candidate || a.track == b.track

/-- Keeps one more link, unless it meets a link kept before. -/
def Tracker.keep (kept : List (Link α)) (l : Link α) : List (Link α) :=
  if kept.any l.meets then kept else l :: kept

/-- Of links in order, those that meet no link kept before. -/
def Tracker.keepFree (links : List (Link α)) : List (Link α) := links.foldl keep []

/-- The matching of candidates and tracks. -/
def Tracker.assign (tracks : List (Track α)) (candidates : List (Candidate α)) (reach : α) :
    List (Link α) :=
  keepFree ((Tracker.links tracks candidates reach).mergeSort fun a b => (a.order b).isLE)

/-- The track that a candidate is matched with, if any. -/
def Tracker.prior? (tracks : List (Track α)) (matching : List (Link α)) (candidate : Nat) :
    Option (Track α) :=
  (matching.find? fun l => l.candidate == candidate).bind fun l => tracks[l.track]?

/-- Each candidate with the track that it is matched with, if any. -/
def Tracker.withPrior (tracks : List (Track α)) (matching : List (Link α))
    (candidates : List (Candidate α)) : List (Candidate α × Option (Track α)) :=
  candidates.zipIdx.map fun (c, i) => (c, prior? tracks matching i)

/-- The identities of the matched tracks. -/
def Tracker.taken (entries : List (Candidate α × Option (Track α))) : List Nat :=
  entries.filterMap fun e => e.2.map (·.id)

/-! ## Verdicts -/

/-- The verdict on a candidate and whether it is a palm from now on, given whether it was one. -/
def classify (settings : TouchSettings α) (palm : Bool) (c : Candidate α) : Validity × Bool :=
  if palm then (.invalid, true)
  else if ¬Scalar.isFinite c.major ∨ ¬Scalar.isFinite c.minor then (.undetermined, false)
  else if c.major > settings.sizeMax ∨ c.aspect > settings.aspectMax then (.invalid, true)
  else if c.major < settings.sizeMin ∨ c.aspect < settings.aspectMin then (.invalid, false)
  else (.valid, false)

/-! ## Following contacts -/

/-- The smallest number that is not in a list. -/
def firstFree (used : List Nat) : Nat :=
  ((List.range (used.length + 1)).find? fun id => !used.contains id).getD used.length

/-- The relative change from one size to another, unbounded if the first is not above zero. -/
def relativeChange (old new : α) : α :=
  if old > 0.0 then Scalar.abs (new - old) / old else Scalar.unbounded

/-- The track after it was matched with a candidate; its verdict is still to be given. -/
def Track.advance (settings : TouchSettings α) (t : Track α) (c : Candidate α) : Track α :=
  { t with
    mean := c.mean
    major := c.major
    streak :=
      if relativeChange t.major c.major ≤ settings.sizeTolerance then
        if t.streak = UInt32.ofNat (UInt32.size - 1) then t.streak else t.streak + 1
      else 1 }

/-- The track of a candidate seen for the first time. -/
def Track.start (id : Nat) (c : Candidate α) : Track α :=
  { id, mean := c.mean, major := c.major, streak := 1, palm := false }

/-- The track with the candidate's verdict, and the contact to report. -/
def Track.judge (settings : TouchSettings α) (t : Track α) (c : Candidate α) :
    Track α × Contact α :=
  let (validity, palm) := classify settings t.palm c
  ({ t with palm },
    { c with id := t.id, stable := settings.stabilityFrames ≤ t.streak, validity })

/-- The tracks and contacts of a frame's candidates, in order. Identities in `used` are taken. -/
def Tracker.follow (settings : TouchSettings α) :
    List Nat → List (Candidate α × Option (Track α)) → List (Track α × Contact α)
  | _, [] => []
  | used, (c, some t) :: rest =>
    (t.advance settings c).judge settings c :: follow settings used rest
  | used, (c, none) :: rest =>
    let id := firstFree used
    (Track.start id c).judge settings c :: follow settings (used ++ [id]) rest

/-- The tracks of the frame before. -/
structure Tracker (α : Type) where
  tracks : List (Track α) := []

namespace Tracker

/-- The candidates of a frame as contacts, and the tracks for the next frame. -/
def update (t : Tracker α) (settings : TouchSettings α) (candidates : List (Candidate α)) :
    Tracker α × List (Contact α) :=
  let matching := assign t.tracks candidates settings.trackingDistance
  let entries := withPrior t.tracks matching candidates
  let followed := follow settings (taken entries) entries
  (⟨followed.map (·.1)⟩, followed.map (·.2))

/-- An update whose contacts are written over those of an earlier one. -/
def updateInto (t : Tracker α) (settings : TouchSettings α) (candidates : Array (Candidate α))
    (out : Array (Contact α)) : Tracker α × Array (Contact α) :=
  let (t, contacts) := t.update settings candidates.toList
  (t, contacts.foldl Array.push (out.shrink 0))

def reset (_ : Tracker α) : Tracker α := {}

end Tracker

end PenTouch
