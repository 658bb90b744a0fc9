import PenTouch.Session.Counters

/-!
# Published metrics

Snapshots of a session's counters are published as metrics. A total never falls: it is the largest
one published so far, so that a session that starts over does not take it back. The number of
active cones is the latest one.

How metrics are written as a text is left to an exposition, which is given all of them with their
values (`Registry.families`).
-/

namespace PenTouch

/-- What is published: the largest totals, and the last number of active cones as a signed word. -/
structure Registry where
  frames : Nat := 0
  samples : Nat := 0
  windows : Nat := 0
  contacts : Nat := 0
  rejected : Nat := 0
  malformed : Nat := 0
  resizes : Nat := 0
  activeCones : Int := 0

/-- A published total after one that has been reached: it is increased by what it lacks of it. -/
def Registry.advance (current total : Nat) : Nat :=
  if current < total then current + (total - current) else current

theorem Registry.advance_eq_max (current total : Nat) :
    advance current total = max current total := by
  unfold advance
  split <;> omega

def Registry.update (r : Registry) (snapshot : Counters) : Registry where
  frames := advance r.frames snapshot.frames
  samples := advance r.samples snapshot.samples
  windows := advance r.windows snapshot.windows
  contacts := advance r.contacts snapshot.contacts
  rejected := advance r.rejected snapshot.rejected
  malformed := advance r.malformed snapshot.malformed
  resizes := advance r.resizes snapshot.resizes
  activeCones := Int.bmod snapshot.activeCones UInt64.size

/-! ## Families -/

inductive MetricKind where
  /-- A total, which never falls. -/
  | counter
  /-- A state, which rises and falls. -/
  | gauge
  deriving DecidableEq, Repr

/-- A metric with its published name and what is said about it. -/
structure Metric where
  name : String
  help : String
  kind : MetricKind
  /-- What is published. -/
  value : Registry → Int
  /-- What a session has counted of it. -/
  counted : Counters → Nat

/-- All metrics, in the order in which they are registered. -/
def Metric.all : List Metric :=
  [ ⟨"digitizer_heatmap_frames_total", "Total number of heatmap frames received", .counter,
      (·.frames), (·.frames)⟩,
    ⟨"digitizer_stylus_samples_total", "Total number of stylus samples processed", .counter,
      (·.samples), (·.samples)⟩,
    ⟨"digitizer_dft_windows_total", "Total number of DFT windows received", .counter,
      (·.windows), (·.windows)⟩,
    ⟨"digitizer_malformed_frames_total", "Heatmap frames that were repaired or dropped", .counter,
      (·.malformed), (·.malformed)⟩,
    ⟨"digitizer_heatmap_resizes_total", "Reallocations of the normalized heatmap buffer", .counter,
      (·.resizes), (·.resizes)⟩,
    ⟨"digitizer_contacts_total", "Total number of contacts emitted", .counter,
      (·.contacts), (·.contacts)⟩,
    ⟨"digitizer_contacts_rejected_total", "Contacts invalidated by a stylus rejection cone",
      .counter, (·.rejected), (·.rejected)⟩,
    ⟨"digitizer_active_cones", "Rejection cones currently able to reject touches", .gauge,
      (·.activeCones), (·.activeCones)⟩ ]

/-- A metric and its value, as they are given to an exposition. -/
structure Family where
  name : String
  help : String
  kind : MetricKind
  value : Int
  deriving DecidableEq, Repr

def Metric.family (m : Metric) (value : Int) : Family := ⟨m.name, m.help, m.kind, value⟩

def Registry.families (r : Registry) : List Family := Metric.all.map fun m => m.family (m.value r)

end PenTouch
