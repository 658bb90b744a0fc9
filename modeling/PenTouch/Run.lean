import PenTouch.Session
import PenTouch.Settings.Run
import PenTouch.Source.Basic

/-!
# Runs

A run connects a source, starts a session and feeds it with what it reads, until it is told to
stop, has had the events asked for, the source is exhausted, or too many readings in a row have
failed. `Run.take` is one reading, `Run.follow` the readings of a list, and `runObserved` the whole
course of calls to source and sink, with what an observer is shown on the way.
-/

namespace PenTouch

/-! ## One reading -/

/-- How far a run has come. -/
structure Progress where
  /-- The readings taken, failed ones included. -/
  readings : Nat := 0
  /-- The events processed. -/
  events : Nat := 0

/-- Tells before each reading whether the run is to stop. -/
abbrev StopSchedule := Progress → Bool

/-- The state of a run between two readings. -/
structure Run where
  limits : RunSettings
  session : Session
  progress : Progress := {}
  /-- The readings that have failed since the last event. -/
  failures : UInt32 := 0

inductive Ending where
  /-- The run was told to stop. -/
  | stopped
  /-- As many events as asked for have been processed. -/
  | complete
  /-- The source has no more events. -/
  | exhausted
  /-- Too many readings in a row have failed. -/
  | gaveUp (count : UInt32) (last : SourceError)

namespace Run

/-- The reason to end a run before the next reading, if there is one. -/
def halt? (r : Run) (stop : StopSchedule) : Option Ending :=
  if stop r.progress then some .stopped
  else if 0 < r.limits.eventCount ∧ r.limits.eventCount.toNat ≤ r.progress.events then
    some .complete
  else none

/-- The run after an event, and the session's answer. -/
def takeEvent (r : Run) (e : Event) : Run × Option Output :=
  let (session, output) := r.session.process e
  ({ r with
      session
      progress := ⟨r.progress.readings + 1, r.progress.events + 1⟩
      failures := 0 }, output)

/-- The run after a reading that has failed, and the reason to end it, if that makes one. -/
def takeFailure (r : Run) (e : SourceError) : Run × Option Ending :=
  let r := { r with progress := { r.progress with readings := r.progress.readings + 1 } }
  if e = .exhausted then (r, some .exhausted)
  else
    let r := { r with failures := r.failures + 1 }
    (r, if r.limits.maxErrors ≤ r.failures then some (.gaveUp r.failures e) else none)

/-- The run after a reading, the session's answer, and the reason to end it. -/
def take (r : Run) : Reading → Run × Option Output × Option Ending
  | .ok e => let (r, output) := r.takeEvent e; (r, output, none)
  | .error e => let (r, ending) := r.takeFailure e; (r, none, ending)

end Run

/-! ## The calls of a run -/

/-- A call that a run makes to its source or its sink. -/
inductive Call where
  | openSource
  /-- The source was read, with a result. -/
  | read (result : Reading)
  | closeSource
  | startSink
  /-- The sink was given an output. -/
  | output (output : Output)
  | stopSink

/-- The end of a run, and what led to it. -/
structure Course where
  run : Run
  calls : List Call
  /-- The session as its observer saw it after each event. -/
  observed : List Session
  ending : Ending

/-- The course that makes further calls and is observed further first. -/
def Course.after (c : Course) (calls : List Call) (observed : List Session) : Course :=
  { c with calls := calls ++ c.calls, observed := observed ++ c.observed }

/-- What the observer is shown once a reading has been taken: nothing after a failure. -/
def Run.shown? (r : Run) : Reading → Option Session
  | .ok _ => some r.session
  | .error _ => none

/-- The course of a run over a list of readings, after which the source is exhausted. -/
def Run.follow (stop : StopSchedule) (r : Run) (readings : List Reading) : Course :=
  match r.halt? stop with
  | some ending => ⟨r, [], [], ending⟩
  | none =>
    match readings with
    | [] => ⟨(r.takeFailure .exhausted).1, [.read (.error .exhausted)], [], .exhausted⟩
    | reading :: readings =>
      let (r, output, ending) := r.take reading
      let calls := .read reading :: output.toList.map .output
      let observed := (r.shown? reading).toList
      match ending with
      | some ending => ⟨r, calls, observed, ending⟩
      | none => (r.follow stop readings).after calls observed

/-! ## Whole runs -/

/-- How a source behaves: what connecting it gives, and then its readings, after which it is
exhausted. -/
structure SourceBehaviour where
  connection : Connection
  readings : List Reading

inductive RunError where
  | source (error : SourceError)
  | settings (error : SettingsError)
  | tooManyErrors (count : UInt32) (last : SourceError)

def RunError.message : RunError → String
  | source e => "failed to start source: " ++ e.message
  | settings e => e.refusal
  | tooManyErrors count last =>
    s!"giving up after {count.toNat} consecutive source errors, last: {last.message}"

def Ending.result (session : Session) : Ending → Except RunError Session
  | gaveUp count last => .error (.tooManyErrors count last)
  | _ => .ok session

/-- What a whole run leaves. -/
structure Report where
  calls : List Call
  /-- The session as its observer saw it after each event. -/
  observed : List Session
  /-- The session at the end, or the reason of the failure. -/
  result : Except RunError Session

/-- A whole run with an observer, to whom the session is shown after each event. -/
def runObserved (settings : SessionSettings) (limits : RunSettings) (source : SourceBehaviour)
    (stop : StopSchedule) : Report :=
  match source.connection with
  | .error e => ⟨[.openSource], [], .error (.source e)⟩
  | .ok metadata =>
    match Session.start settings metadata with
    | .error e => ⟨[.openSource, .closeSource], [], .error (.settings e)⟩
    | .ok session =>
      let course := Run.follow stop { limits, session } source.readings
      { calls := [.openSource, .startSink] ++ course.calls ++ [.stopSink, .closeSource]
        observed := course.observed
        result := course.ending.result course.run.session }

/-- A whole run without an observer: its calls, and the session at its end or the reason of its
failure. -/
def run (settings : SessionSettings) (limits : RunSettings) (source : SourceBehaviour)
    (stop : StopSchedule) : List Call × Except RunError Session :=
  let report := runObserved settings limits source stop
  (report.calls, report.result)

end PenTouch
