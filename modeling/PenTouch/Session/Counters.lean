import PenTouch.Text.Record

/-!
# Counters

What a session has counted since its start, apart from `activeCones`, which tells how it stood at
the latest usable frame.
-/

namespace PenTouch

structure Counters where
  /-- The frames received. -/
  frames : Nat := 0
  /-- The pen samples received or estimated. -/
  samples : Nat := 0
  /-- The antenna windows received. -/
  windows : Nat := 0
  /-- The contacts reported, over all frames. -/
  contacts : Nat := 0
  /-- The contacts that a cone has rejected. -/
  rejected : Nat := 0
  /-- The frames that were not what they declared to be. -/
  malformed : Nat := 0
  /-- The usable frames of other dimensions than the one before. -/
  resizes : Nat := 0
  /-- The cones that could reject a touch at the latest usable frame. -/
  activeCones : Nat := 0
  deriving DecidableEq, Repr

namespace Counters

/-- All counters with the names under which they are published. -/
def named (c : Counters) : List (String × Nat) :=
  [("heatmap_frames", c.frames), ("stylus_samples", c.samples), ("dft_windows", c.windows),
    ("contacts", c.contacts), ("rejected_contacts", c.rejected),
    ("malformed_frames", c.malformed), ("heatmap_resizes", c.resizes),
    ("active_cones", c.activeCones)]

def summary (c : Counters) : String :=
  Text.record "PipelineStats" (c.named.map fun (name, n) => (name, toString n))

end Counters

end PenTouch
