import Mathlib.Data.List.Infix
import PenTouch.Proofs.Session.History
import PenTouch.Run

/-!
# The course of a run

What a run calls is told by the readings that it takes: every reading, the session's answer to
every event, and the calls that open and close the whole.

1. `Run.Takes`: a run takes some readings, one after the other, and ends.
2. `exists_takes`, `follow_of_takes`: every run over a list of readings takes some of them, and its
   course is the one of those. It depends on nothing that the source gives later.
3. `callsFor_prefix_follow`: as long as a run goes on, its calls are those for the readings so far.
-/

namespace PenTouch

def Reading.events (readings : List Reading) : List Event := readings.filterMap Except.toOption

theorem Reading.events_append (readings rest : List Reading) :
    events (readings ++ rest) = events readings ++ events rest :=
  List.filterMap_append

def Call.reading? : Call → Option Reading
  | read result => some result
  | _ => none

/-- What the sink is given. -/
def Call.output? : Call → Option Output
  | output o => some o
  | _ => none

/-- A call that is made between the start and the stop of the sink. -/
def Call.IsInner (c : Call) : Prop := (∃ result, c = read result) ∨ ∃ o, c = output o

/-! ## Sessions -/

namespace Session

/-- The calls for readings: each reading, and after that of an event the session's answer. -/
def callsFor (s : Session) : List Reading → List Call
  | [] => []
  | .ok e :: readings =>
    .read (.ok e) :: (s.process e).2.toList.map .output ++ (s.process e).1.callsFor readings
  | .error e :: readings => .read (.error e) :: s.callsFor readings

/-- The session as it stands after each of the events. -/
def views (s : Session) (events : List Event) : List Session := events.inits.tail.map s.after

variable (s : Session)

theorem views_cons (e : Event) (events : List Event) :
    s.views (e :: events) = (s.process e).1 :: (s.process e).1.views events := by
  unfold views
  rw [List.inits_cons, List.tail_cons, List.map_map]
  cases events with
  | nil => rfl
  | cons e' events =>
    rw [List.inits_cons, List.map_cons, List.tail_cons]
    rfl

theorem callsFor_append (readings rest : List Reading) :
    s.callsFor (readings ++ rest) =
      s.callsFor readings ++ (s.after (Reading.events readings)).callsFor rest := by
  induction readings generalizing s with
  | nil => rfl
  | cons reading readings ih =>
    cases reading with
    | ok e =>
      rw [List.cons_append, callsFor, callsFor, ih, List.append_assoc]
      rfl
    | error e => exact congrArg (Call.read (.error e) :: ·) (ih s)

theorem views_append (events rest : List Event) :
    s.views (events ++ rest) = s.views events ++ (s.after events).views rest := by
  induction events generalizing s with
  | nil => rfl
  | cons e events ih => rw [List.cons_append, views_cons, views_cons, ih, after_cons]; rfl

theorem isInner_of_mem_callsFor {readings : List Reading} {c : Call}
    (h : c ∈ s.callsFor readings) : c.IsInner := by
  induction readings generalizing s with
  | nil => cases h
  | cons reading readings ih =>
    cases reading with
    | ok e =>
      rcases List.mem_cons.mp h with rfl | h
      · exact Or.inl ⟨_, rfl⟩
      · rcases List.mem_append.mp h with h | h
        · obtain ⟨o, -, rfl⟩ := List.mem_map.mp h
          exact Or.inr ⟨o, rfl⟩
        · exact ih _ h
    | error e =>
      rcases List.mem_cons.mp h with rfl | h
      · exact Or.inl ⟨_, rfl⟩
      · exact ih _ h

/-- The readings are read in order, each once. -/
theorem filterMap_reading?_callsFor (readings : List Reading) :
    (s.callsFor readings).filterMap Call.reading? = readings := by
  induction readings generalizing s with
  | nil => rfl
  | cons reading readings ih =>
    cases reading with
    | ok e =>
      have hanswer : ((s.process e).2.toList.map Call.output).filterMap Call.reading? = [] := by
        cases (s.process e).2 <;> rfl
      rw [callsFor, List.filterMap_append, ih]
      exact congrArg (Except.ok e :: · ++ readings) hanswer
    | error e => exact congrArg (Except.error e :: ·) (ih s)

theorem filterMap_output?_callsFor (readings : List Reading) :
    (s.callsFor readings).filterMap Call.output? = s.outputs (Reading.events readings) := by
  induction readings generalizing s with
  | nil => rfl
  | cons reading readings ih =>
    cases reading with
    | ok e =>
      have hanswer : ((s.process e).2.toList.map Call.output).filterMap Call.output? =
          (s.process e).2.toList := by
        cases (s.process e).2 <;> rfl
      rw [callsFor, List.filterMap_append, List.filterMap_cons_none rfl, hanswer, ih]
      rfl
    | error e => exact ih s

end Session

/-! ## Readings taken -/

namespace Run

variable {stop : StopSchedule} {r : Run} {reading : Reading} {readings taken : List Reading}
  {ending : Ending}

def next (r : Run) (reading : Reading) : Run := (r.take reading).1

/-- The reason to end a run that a reading makes. -/
def endedBy? (r : Run) (reading : Reading) : Option Ending := (r.take reading).2.2

def takeAll (r : Run) (readings : List Reading) : Run := readings.foldl next r

/-- The run takes the readings, one after the other, and then it ends. -/
inductive Takes (stop : StopSchedule) : Run → List Reading → Ending → Prop where
  | halted {r : Run} {ending : Ending} (h : r.halt? stop = some ending) : Takes stop r [] ending
  | ended {r : Run} {reading : Reading} {ending : Ending} (hgo : r.halt? stop = none)
      (h : r.endedBy? reading = some ending) : Takes stop r [reading] ending
  | step {r : Run} {reading : Reading} {readings : List Reading} {ending : Ending}
      (hgo : r.halt? stop = none) (hopen : r.endedBy? reading = none)
      (hrest : Takes stop (r.next reading) readings ending) :
      Takes stop r (reading :: readings) ending

theorem exists_takes (stop : StopSchedule) (r : Run) (readings : List Reading) :
    ∃ taken ending, taken <+: readings ++ [.error .exhausted] ∧ r.Takes stop taken ending := by
  induction readings generalizing r with
  | nil =>
    cases hgo : r.halt? stop with
    | some ending => exact ⟨[], ending, List.nil_prefix, .halted hgo⟩
    | none => exact ⟨[_], .exhausted, List.prefix_rfl, .ended hgo rfl⟩
  | cons reading readings ih =>
    cases hgo : r.halt? stop with
    | some ending => exact ⟨[], ending, List.nil_prefix, .halted hgo⟩
    | none =>
      cases h : r.endedBy? reading with
      | some ending =>
        exact ⟨[reading], ending, List.prefix_append [reading] _, .ended hgo h⟩
      | none =>
        obtain ⟨taken, ending, htaken, hrest⟩ := ih (r.next reading)
        exact ⟨reading :: taken, ending, List.cons_prefix_cons.mpr ⟨rfl, htaken⟩,
          .step hgo h hrest⟩

/-! ## Courses -/

theorem session_next (r : Run) (reading : Reading) :
    (r.next reading).session = r.session.after (Reading.events [reading]) := by
  cases reading with
  | ok e => rfl
  | error e =>
    show (r.takeFailure e).1.session = r.session
    unfold takeFailure
    split <;> rfl

theorem session_takeAll (r : Run) (readings : List Reading) :
    (r.takeAll readings).session = r.session.after (Reading.events readings) := by
  induction readings generalizing r with
  | nil => rfl
  | cons reading readings ih =>
    show ((r.next reading).takeAll readings).session = _
    rw [ih, session_next, ← Session.after_append]
    rw [← Reading.events_append, List.singleton_append]

theorem follow_halted (h : r.halt? stop = some ending) (readings : List Reading) :
    r.follow stop readings = ⟨r, [], [], ending⟩ := by
  unfold follow
  rw [h]

theorem follow_ended (hgo : r.halt? stop = none) (h : r.endedBy? reading = some ending)
    (readings : List Reading) :
    r.follow stop (reading :: readings) =
      ⟨r.next reading, r.session.callsFor [reading], r.session.views (Reading.events [reading]),
        ending⟩ := by
  unfold follow
  rw [hgo]
  cases reading with
  | ok e => cases h
  | error e =>
    have h' : (r.takeFailure e).2 = some ending := h
    dsimp only [take]
    rw [h']
    rfl

theorem follow_open (hgo : r.halt? stop = none) (h : r.endedBy? reading = none)
    (readings : List Reading) :
    r.follow stop (reading :: readings) =
      ((r.next reading).follow stop readings).after (r.session.callsFor [reading])
        (r.session.views (Reading.events [reading])) := by
  rw [follow, hgo]
  cases reading with
  | ok e =>
    have hcalls : r.session.callsFor [.ok e] =
        .read (.ok e) :: (r.session.process e).2.toList.map .output := List.append_nil _
    rw [hcalls]
    rfl
  | error e =>
    have h' : (r.takeFailure e).2 = none := h
    dsimp only [take]
    rw [h']
    rfl

/-- A source that says that it is exhausted is read no further. -/
theorem follow_append_exhausted (stop : StopSchedule) (r : Run) (readings : List Reading) :
    r.follow stop (readings ++ [.error .exhausted]) = r.follow stop readings := by
  induction readings generalizing r with
  | nil =>
    cases hgo : r.halt? stop with
    | some ending => rw [follow_halted hgo, follow_halted hgo]
    | none =>
      rw [List.nil_append, follow_ended hgo rfl, follow, hgo]
      rfl
  | cons reading readings ih =>
    rw [List.cons_append]
    cases hgo : r.halt? stop with
    | some ending => rw [follow_halted hgo, follow_halted hgo]
    | none =>
      cases h : r.endedBy? reading with
      | some ending => rw [follow_ended hgo h, follow_ended hgo h]
      | none => rw [follow_open hgo h, follow_open hgo h, ih]

/-- **Courses.** The course of a run is told by the readings that it takes, whatever the source
would give after them. -/
theorem follow_of_takes (h : r.Takes stop taken ending) (rest : List Reading) :
    r.follow stop (taken ++ rest) =
      ⟨r.takeAll taken, r.session.callsFor taken, r.session.views (Reading.events taken),
        ending⟩ := by
  induction h with
  | halted h => exact follow_halted h rest
  | ended hgo h => exact follow_ended hgo h rest
  | @step r reading readings ending hgo hopen _ ih =>
    have hcalls := r.session.callsFor_append [reading] readings
    have hviews := r.session.views_append (Reading.events [reading]) (Reading.events readings)
    rw [← session_next] at hcalls hviews
    rw [← Reading.events_append] at hviews
    rw [List.cons_append, follow_open hgo hopen, ih]
    unfold Course.after
    dsimp only
    rw [← hcalls, ← hviews]
    rfl

/-- A run over a list of readings takes some of them, at the latest that of the exhausted
source. -/
theorem follow_spec (stop : StopSchedule) (r : Run) (readings : List Reading) :
    ∃ taken ending, taken <+: readings ++ [.error .exhausted] ∧ r.Takes stop taken ending ∧
      r.follow stop readings =
        ⟨r.takeAll taken, r.session.callsFor taken, r.session.views (Reading.events taken),
          ending⟩ := by
  obtain ⟨taken, ending, ⟨rest, htaken⟩, h⟩ := exists_takes stop r readings
  refine ⟨taken, ending, ⟨rest, htaken⟩, h, ?_⟩
  rw [← follow_append_exhausted, ← htaken, follow_of_takes h]

/-- As long as a run goes on, it has made the calls for the readings so far. -/
theorem callsFor_prefix_follow {before : List Reading} (h : r.Takes stop taken ending)
    (hbefore : before <+: taken) (hne : before ≠ taken) (rest : List Reading) :
    r.session.callsFor before <+: (r.follow stop (before ++ rest)).calls := by
  induction h generalizing before with
  | halted h => exact absurd (List.prefix_nil.mp hbefore) hne
  | ended hgo h =>
    cases before with
    | nil => exact List.nil_prefix
    | cons reading' before =>
      obtain ⟨rfl, hrest⟩ := List.cons_prefix_cons.mp hbefore
      rw [List.prefix_nil.mp hrest] at hne
      exact absurd rfl hne
  | @step r reading readings ending hgo hopen _ ih =>
    cases before with
    | nil => exact List.nil_prefix
    | cons reading' before =>
      obtain ⟨rfl, hrest⟩ := List.cons_prefix_cons.mp hbefore
      have hne' : before ≠ readings := fun h => hne (congrArg (reading' :: ·) h)
      have hcalls := r.session.callsFor_append [reading'] before
      rw [← session_next, List.singleton_append] at hcalls
      rw [List.cons_append, follow_open hgo hopen, hcalls]
      exact (List.prefix_append_right_inj _).mpr (ih hrest hne')

end Run

/-! ## Whole runs -/

def Reading.upTo (reading : Nat → Reading) (n : Nat) : List Reading := (List.range n).map reading

theorem Reading.upTo_add (reading : Nat → Reading) (n k : Nat) :
    ∃ rest, upTo reading (n + k) = upTo reading n ++ rest := by
  unfold upTo
  rw [List.range_add, List.map_append]
  exact ⟨_, rfl⟩

/-- The calls of a whole run that takes the readings. -/
def Session.wholeRun (s : Session) (taken : List Reading) : List Call :=
  [.openSource, .startSink] ++ s.callsFor taken ++ [.stopSink, .closeSource]

section Whole

variable {settings : SessionSettings} (limits : RunSettings) (stop : StopSchedule)
  (metadata : Option (Metadata Float))

theorem runObserved_of_valid (h : settings.validate = .ok ()) (readings : List Reading) :
    runObserved settings limits ⟨.ok metadata, readings⟩ stop =
      let course := Run.follow stop { limits, session := .new settings metadata } readings
      { calls := [.openSource, .startSink] ++ course.calls ++ [.stopSink, .closeSource]
        observed := course.observed
        result := course.ending.result course.run.session } := by
  have hstart : Session.start settings metadata = .ok (.new settings metadata) := by
    unfold Session.start
    rw [h]
    rfl
  unfold runObserved
  dsimp only
  rw [hstart]

/-- The whole run over a list of readings that begins with those that are taken. -/
theorem runObserved_of_takes (h : settings.validate = .ok ()) {taken : List Reading}
    {ending : Ending}
    (htakes : Run.Takes stop { limits, session := .new settings metadata } taken ending)
    (rest : List Reading) :
    let start := Session.new settings metadata
    runObserved settings limits ⟨.ok metadata, taken ++ rest⟩ stop =
      { calls := start.wholeRun taken
        observed := start.views (Reading.events taken)
        result := ending.result (start.after (Reading.events taken)) } := by
  intro start
  rw [runObserved_of_valid limits stop metadata h, Run.follow_of_takes htakes]
  dsimp only
  rw [Run.session_takeAll]
  rfl

/-- Whatever a source gives, a run over it has either ended within the first readings, or has made
no more than the calls for these. -/
theorem runObserved_upTo (h : settings.validate = .ok ()) (reading : Nat → Reading) (n : Nat) :
    let start := Session.new settings metadata
    let calls (m : Nat) :=
      (runObserved settings limits ⟨.ok metadata, Reading.upTo reading m⟩ stop).calls
    (∃ taken ending, taken <+: Reading.upTo reading n ∧
        Run.Takes stop { limits, session := start } taken ending ∧
        ∀ k, calls (n + k) = start.wholeRun taken) ∨
      ∀ k, [.openSource, .startSink] ++ start.callsFor (Reading.upTo reading n) <+:
        calls (n + k) := by
  intro start calls
  obtain ⟨taken, ending, htaken, htakes⟩ :=
    Run.exists_takes stop { limits, session := start } (Reading.upTo reading n)
  rcases List.prefix_concat_iff.mp htaken with rfl | hprefix
  · right
    intro k
    obtain ⟨rest, hrest⟩ := Reading.upTo_add reading n k
    have hcalls := Run.callsFor_prefix_follow htakes (List.prefix_append _ _)
      (fun h => by simpa using congrArg List.length h) rest
    show _ <+: (runObserved settings limits ⟨_, Reading.upTo reading (n + k)⟩ stop).calls
    rw [runObserved_of_valid limits stop metadata h, hrest]
    exact ((List.prefix_append_right_inj _).mpr hcalls).trans (List.prefix_append _ _)
  · left
    refine ⟨taken, ending, hprefix, htakes, fun k => ?_⟩
    obtain ⟨late, hlate⟩ := hprefix
    obtain ⟨rest, hrest⟩ := Reading.upTo_add reading n k
    show (runObserved settings limits ⟨_, Reading.upTo reading (n + k)⟩ stop).calls = _
    rw [hrest, ← hlate, List.append_assoc, runObserved_of_takes limits stop metadata h htakes]

end Whole

/-- **Protocol.** A source that cannot be connected is not called again, and the run fails for its
reason. If the settings are refused, the source is closed and nothing else is called. Otherwise the
source is opened and the sink started; then the source is read, and the sink is given the session's
answers to the events read, nothing else; then the sink is stopped and the source closed, for
whatever reason the run has ended. The readings are those that the run takes from its start on, and
the ending is the one that it comes to behind them (`run_ends_at_first_reason` says which this is):
the session, or too many failures.

The same holds of a source that is never exhausted. Once a run has ended within its first readings,
the others do not matter; a run that has not ended by then has opened the source, started the sink
and made the calls for these readings. -/
theorem protocol_runObserved (settings : SessionSettings) (limits : RunSettings)
    (source : SourceBehaviour) (stop : StopSchedule) :
    let report := runObserved settings limits source stop
    match source.connection, settings.validate with
    | .error e, _ => report = ⟨[.openSource], [], .error (.source e)⟩
    | .ok _, .error e => report = ⟨[.openSource, .closeSource], [], .error (.settings e)⟩
    | .ok metadata, .ok () =>
      let start := Session.new settings metadata
      (∃ (taken : List Reading) (ending : Ending),
        taken <+: source.readings ++ [.error .exhausted] ∧
        Run.Takes stop { limits, session := start } taken ending ∧
        report.calls = start.wholeRun taken ∧ (∀ c ∈ start.callsFor taken, c.IsInner) ∧
        report.result = ending.result (start.after (Reading.events taken))) ∧
      ∀ (reading : Nat → Reading) (n : Nat),
        let calls (m : Nat) :=
          (runObserved settings limits ⟨.ok metadata, Reading.upTo reading m⟩ stop).calls
        (∃ taken ending, taken <+: Reading.upTo reading n ∧
            Run.Takes stop { limits, session := start } taken ending ∧
            ∀ k, calls (n + k) = start.wholeRun taken) ∨
          ∀ k, [.openSource, .startSink] ++ start.callsFor (Reading.upTo reading n) <+:
            calls (n + k) := by
  intro report
  obtain ⟨connection, readings⟩ := source
  cases connection with
  | error e => rfl
  | ok metadata =>
    cases hvalid : settings.validate with
    | error e =>
      have hstart : Session.start settings metadata = .error e := by
        unfold Session.start
        rw [hvalid]
        rfl
      show runObserved _ _ _ _ = _
      unfold runObserved
      dsimp only
      rw [hstart]
    | ok =>
      refine ⟨?_, fun reading n => runObserved_upTo limits stop metadata hvalid reading n⟩
      obtain ⟨taken, ending, htaken, htakes, hfollow⟩ :=
        Run.follow_spec stop { limits, session := .new settings metadata } readings
      refine ⟨taken, ending, htaken, htakes, ?_, fun c => Session.isInner_of_mem_callsFor _, ?_⟩
      · show (runObserved settings limits ⟨.ok metadata, readings⟩ stop).calls = _
        rw [runObserved_of_valid limits stop metadata hvalid, hfollow]
        rfl
      · show (runObserved settings limits ⟨.ok metadata, readings⟩ stop).result = _
        rw [runObserved_of_valid limits stop metadata hvalid, hfollow]
        dsimp only
        rw [Run.session_takeAll]

end PenTouch
