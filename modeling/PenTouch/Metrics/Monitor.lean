import PenTouch.Metrics.Registry

/-!
# Watching a session

A monitor keeps the latest snapshot of a session and tells from the last two whether frames are
arriving. It answers three requests: the published metrics, the latest snapshot, and the health. The
first two answers are written by `Encoders`, of which nothing is assumed.
-/

namespace PenTouch

/-- Whether frames are arriving. -/
inductive Health where
  /-- No frame has arrived yet. -/
  | waiting
  /-- Frames have arrived since the snapshot before. -/
  | streaming
  /-- No frame has arrived since the snapshot before. -/
  | stalled
  deriving DecidableEq, Repr

def Health.name : Health → String
  | waiting => "waiting"
  | streaming => "streaming"
  | stalled => "stalled"

/-- The health that a number of frames shows, given the number before. -/
def Health.ofFrames (before now : Nat) : Health :=
  if now = 0 then waiting else if before < now then streaming else stalled

/-- What is known of a session from its snapshots. -/
structure Monitor where
  registry : Registry := {}
  /-- The latest snapshot. -/
  snapshot : Counters := {}
  health : Health := .waiting

/-- Something that a monitor can be asked for. -/
inductive Endpoint where
  | metrics
  | status
  | health
  deriving DecidableEq, Repr

/-- The request that is addressed by a path. -/
def Endpoint.ofPath? : String → Option Endpoint
  | "/metrics" => some metrics
  | "/status" => some status
  | "/health" => some health
  | _ => none

inductive FieldValue where
  | word (s : String)
  | count (n : Nat)
  deriving DecidableEq, Repr

/-- What writes metrics as a text, and the fields of a report as an object. Writing metrics may fail
for a reason. -/
structure Encoders where
  exposition : List Family → Except String String
  object : List (String × FieldValue) → String

structure Response where
  /-- `200` if all is well, `503` if the session is not at work, `500` if the answer could not be
  written. -/
  status : Nat
  contentType : String
  body : String

namespace Monitor

/-- The port on which a monitor answers if no other is chosen. -/
def defaultPort : Nat := 9090

/-- The address on which a monitor answers, on all interfaces. -/
def address (port : Nat) : String := s!"0.0.0.0:{port}"

/-- The monitor after a snapshot. -/
def publish (m : Monitor) (snapshot : Counters) : Monitor where
  registry := m.registry.update snapshot
  snapshot
  health := .ofFrames m.snapshot.frames snapshot.frames

/-- The fields of the status: the health and then the latest snapshot. -/
def report (m : Monitor) : List (String × FieldValue) :=
  ("health", .word m.health.name) :: m.snapshot.named.map fun (name, n) => (name, .count n)

def sentence (m : Monitor) : String :=
  match m.health with
  | .waiting => "waiting for heatmap frames"
  | .streaming => s!"streaming: {m.snapshot.frames} frames, {m.snapshot.activeCones} active cones"
  | .stalled => s!"stalled at {m.snapshot.frames} frames"

def respond (e : Encoders) (m : Monitor) : Endpoint → Response
  | .metrics =>
    match e.exposition m.registry.families with
    | .ok text => ⟨200, "text/plain; version=0.0.4; charset=utf-8", text⟩
    | .error reason =>
      ⟨500, "text/plain; charset=utf-8",
        s!"Failed to encode metrics: prometheus error: {reason}"⟩
  | .status => ⟨200, "application/json", e.object m.report⟩
  | .health =>
    ⟨if m.health = .streaming then 200 else 503, "text/plain; charset=utf-8", m.sentence⟩

end Monitor

end PenTouch
