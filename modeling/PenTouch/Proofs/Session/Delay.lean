import PenTouch.Proofs.Session.History
import PenTouch.Proofs.Session.Steering

/-!
# Times count by their differences

A session that receives the same events later does the same, later. The only times that it keeps are
those of the origins and directions of the cones, and each use of a time compares it with one of
these.

1. `Cone.active_delay`, `Cone.updateDirection_delay`: a cone of later times, asked later, says the
   same and turns the same way.
2. `PenTable.report_delay`, `PenTable.screen_delay`: so does a table of pens.
3. `Session.process_delay`: a session of later times goes through a later event as it did before.
-/

namespace PenTouch

variable {now : Time} {span : Span}

/-! ## Cones -/

/-- The value, updated later. -/
def Stamped.delay {β : Type} (s : Stamped β) (span : Span) : Stamped β :=
  { s with time := s.time + span }

theorem Stamped.age_delay {β : Type} (s : Stamped β) :
    (s.delay span).age (now + span) = s.age now :=
  Nat.add_sub_add_right now span s.time

namespace Cone

section Lifetime

variable {α : Type} (c : Cone α)

def delay (span : Span) : Cone α :=
  { c with
    origin := c.origin.map (·.delay span)
    direction := c.direction.map (·.delay span) }

theorem alive_delay : (c.delay span).alive = c.alive := Option.isSome_map

theorem active_delay : (c.delay span).active (now + span) = c.active now := by
  unfold active delay
  rw [Option.any_map, Option.any_map]
  simp only [Stamped.age_delay]

end Lifetime

variable {α : Type} [Scalar α] (c : Cone α) (p : Point α)

theorem contains_delay : (c.delay span).contains p = c.contains p := by
  unfold contains delay
  cases c.origin with
  | none => rfl
  | some origin => cases c.direction <;> rfl

theorem blend_delay (towards : Vector2 α) :
    (c.delay span).blend towards (now + span) = c.blend towards now := by
  unfold blend delay
  cases c.direction with
  | none => rfl
  | some old =>
    simp only [Option.map_some, Stamped.age_delay]
    rfl

theorem updateDirection_delay :
    (c.delay span).updateDirection p (now + span) = (c.updateDirection p now).delay span := by
  have htowards : ((c.delay span).origin.bind fun o => (p - o.value : Vector2 α).normalized?) =
      c.origin.bind fun o => (p - o.value : Vector2 α).normalized? := Option.bind_map
  unfold updateDirection
  rw [htowards]
  cases c.origin.bind fun o => (p - o.value : Vector2 α).normalized? with
  | none => rfl
  | some towards =>
    simp only [blend_delay]
    rfl

theorem turnTo_delay (points : List (Point α)) :
    (c.delay span).turnTo points (now + span) = (c.turnTo points now).delay span :=
  List.foldl_hom (delay · span) fun c p => c.updateDirection_delay p

end Cone

/-! ## Pens -/

namespace Pen

variable (pen : Pen)

def delay (span : Span) : Pen := { pen with cone := pen.cone.delay span }

theorem turnTo_delay (points : List (Point Float)) :
    (pen.delay span).turnTo points (now + span) = (pen.turnTo points now).delay span := by
  unfold turnTo delay
  simp only [Cone.alive_delay, Cone.turnTo_delay]
  split <;> rfl

end Pen

namespace PenTable

variable (t : PenTable)

def delay (span : Span) : PenTable :=
  { t with
    pens := t.pens.map (·.delay span)
    current_lt := by rw [List.length_map]; exact t.current_lt }

theorem anyAlive_delay : (t.delay span).anyAlive = t.anyAlive := by
  unfold anyAlive delay
  rw [List.any_map]
  exact congrArg t.pens.any (funext fun pen => pen.cone.alive_delay)

theorem activeCount_delay : (t.delay span).activeCount (now + span) = t.activeCount now := by
  unfold activeCount delay
  rw [List.countP_map]
  exact congrArg (List.countP · t.pens) (funext fun pen => pen.cone.active_delay)

theorem rejects_delay (p : Point Float) :
    (t.delay span).rejects p (now + span) = t.rejects p now := by
  unfold rejects delay
  rw [List.any_map]
  refine congrArg t.pens.any (funext fun pen => ?_)
  exact congrArg₂ and pen.cone.active_delay (pen.cone.contains_delay p)

theorem turnTo_delay (points : List (Point Float)) :
    (t.delay span).turnTo points (now + span) = (t.turnTo points now).delay span := by
  refine ext_pens rfl ?_ rfl
  show (t.pens.map _).map _ = (t.pens.map _).map _
  rw [List.map_map, List.map_map]
  exact List.map_congr_left fun pen _ => pen.turnTo_delay points

/-! ### Reports -/

theorem currentPen_delay : (t.delay span).currentPen = t.currentPen.delay span :=
  List.getElem_map _

theorem modifyCurrent_delay {f g : Pen → Pen} (h : ∀ pen, g (pen.delay span) = (f pen).delay span) :
    (t.delay span).modifyCurrent g = (t.modifyCurrent f).delay span := by
  refine ext_pens rfl ?_ rfl
  show (t.pens.map _).set t.current (g (t.delay span).currentPen) = (t.pens.set _ _).map _
  rw [currentPen_delay, h, List.map_set]

theorem switch_known {serial i : Nat} (h : t.pens.findIdx? (·.serial == serial) = some i) :
    t.switch serial =
      { t with current := i, current_lt := (List.findIdx?_eq_some_iff_getElem.mp h).1 } := by
  unfold switch
  split
  · rename_i j hj
    cases hj.symm.trans h
    rfl
  · rename_i hnone
    cases hnone.symm.trans h

theorem switch_fresh {serial : Nat} (h : t.pens.findIdx? (·.serial == serial) = none) :
    t.switch serial =
      if t.currentPen.serial = 0 then t.modifyCurrent ({ · with serial })
      else
        { t with
          pens := t.pens ++ [{ serial, cone := .ofSettings t.settings }]
          current := t.pens.length
          current_lt := List.length_append ▸ Nat.lt_succ_self t.pens.length } := by
  unfold switch
  split
  · rename_i j hj
    cases hj.symm.trans h
  · rfl

theorem switch_delay (serial : Nat) :
    (t.delay span).switch serial = (t.switch serial).delay span := by
  have hfind : (t.delay span).pens.findIdx? (·.serial == serial) =
      t.pens.findIdx? (·.serial == serial) := List.findIdx?_map
  cases h : t.pens.findIdx? (·.serial == serial) with
  | some i =>
    rw [switch_known _ h, switch_known _ (hfind.trans h)]
    rfl
  | none =>
    rw [switch_fresh _ h, switch_fresh _ (hfind.trans h), currentPen_delay]
    show (if t.currentPen.serial = 0 then _ else _) = _
    split
    · exact t.modifyCurrent_delay fun pen => rfl
    · -- A new pen has a cone without times.
      refine ext_pens rfl ?_ (List.length_map _)
      show t.pens.map (·.delay span) ++ [_] = (t.pens ++ [_]).map _
      rw [List.map_append]
      rfl

theorem report_delay (sample : PenSample Float) (position : Point Float) :
    (t.delay span).report sample position (now + span) =
      (t.report sample position now).delay span := by
  unfold report
  rw [switch_delay]
  refine modifyCurrent_delay _ fun pen => ?_
  cases sample.proximity <;> rfl

end PenTable

/-! ### Screening -/

def Screening.delay (s : Screening) (span : Span) : Screening := { s with pens := s.pens.delay span }

namespace PenTable

theorem rejectsContact_delay (t : PenTable) (panel : Panel) :
    (t.delay span).rejectsContact panel (now + span) = t.rejectsContact panel now :=
  funext fun c => congrArg (c.validity != .invalid && ·) (t.rejects_delay _)

theorem screen_delay (t : PenTable) (panel : Panel) (contacts : List (Contact Float)) :
    (t.delay span).screen panel contacts (now + span) =
      (t.screen panel contacts now).delay span := by
  have hon : ((t.delay span).settings.enabled && (t.delay span).anyAlive) =
      (t.settings.enabled && t.anyAlive) := congrArg (t.settings.enabled && ·) t.anyAlive_delay
  by_cases h : (t.settings.enabled && t.anyAlive) = true
  · rw [screen_alive h, screen_alive (hon.trans h), turnTo_delay, rejectsContact_delay]
    rfl
  · have h := Bool.eq_false_iff.mpr h
    rw [screen_idle h, screen_idle (hon.trans h)]
    rfl

end PenTable

/-! ## Sessions -/

def Frame.delay (f : Frame) (span : Span) : Frame := { f with time := f.time + span }

theorem Estimator.input_delay (e : Estimator Float) (w : Window Float) :
    e.input { w with time := w.time + span } = e.input w := by
  cases h : w.kind <;> simp only [input, h] <;> rfl

namespace Session

variable (s : Session)

def delay (span : Span) : Session := { s with pens := s.pens.delay span }

theorem screening_delay (f : Frame) :
    (s.delay span).screening (f.delay span) = (s.screening f).delay span :=
  s.pens.screen_delay s.panel _

theorem touch_eq (f : Frame) :
    s.touch f = { s with
      heat := f.heat
      finder := (s.finder.find f.heat).1
      contacts := (s.screening f).contacts
      pens := (s.screening f).pens
      counters := { s.counters with
        contacts := s.counters.contacts + (s.screening f).contacts.length
        rejected := s.counters.rejected + (s.screening f).rejected
        resizes := s.counters.resizes +
          if s.heat.rows ≠ f.height ∨ s.heat.cols ≠ f.width then 1 else 0
        activeCones := (s.screening f).pens.activeCount f.time } } := rfl

theorem touch_delay (f : Frame) :
    (s.delay span).touch (f.delay span) = (s.touch f).delay span := by
  have hcount : ((s.screening f).delay span).pens.activeCount (f.delay span).time =
      (s.screening f).pens.activeCount f.time := (s.screening f).pens.activeCount_delay
  rw [touch_eq, touch_eq, screening_delay, hcount]
  rfl

theorem processSample_delay (sample : PenSample Float) (time : Time) :
    (s.delay span).processSample sample (time + span) =
      ((s.processSample sample time).1.delay span, (s.processSample sample time).2) :=
  congrArg (fun pens => ({ (s.processSample sample time).1 with pens },
    (s.processSample sample time).2)) (s.pens.report_delay sample _)

theorem processWindow_delay (w : Window Float) :
    (s.delay span).processWindow { w with time := w.time + span } =
      ((s.processWindow w).1.delay span, (s.processWindow w).2) := by
  let heard : Session := { s with
    estimator := s.estimator.input w
    counters := { s.counters with windows := s.counters.windows + 1 } }
  show Session.processSample { heard.delay span with
    estimator := s.estimator.input { w with time := w.time + span } }
      (s.estimator.input { w with time := w.time + span }).sample (w.time + span) = _
  rw [Estimator.input_delay]
  exact heard.processSample_delay heard.estimator.sample w.time

/-- **One event.** A session of later times answers a later event as it did before, and is again the
session of later times. -/
theorem process_delay (e : Event) :
    (s.delay span).process (e.delay span) = ((s.process e).1.delay span, (s.process e).2) := by
  cases e with
  | frame f =>
    show (s.delay span).process (.frame (f.delay span)) = _
    by_cases hf : f.isUsable = true
    · have hlater : (f.delay span).isUsable = true := hf
      have htouch : ((s.delay span).countFrame (f.delay span)).touch (f.delay span) =
          ((s.countFrame f).touch f).delay span := (s.countFrame f).touch_delay f
      rw [process_usable s hf, process_usable _ hlater, htouch]
      rfl
    · have hlater : ¬(f.delay span).isUsable = true := hf
      rw [process_unusable s hf, process_unusable _ hlater]
      rfl
  | pen sample time => exact s.processSample_delay sample time
  | window w => exact s.processWindow_delay w

/-- **Histories.** Events that come later are answered alike. -/
theorem after_delay (events : List Event) :
    (s.delay span).after (events.map (·.delay span)) = (s.after events).delay span ∧
      (s.delay span).outputs (events.map (·.delay span)) = s.outputs events := by
  induction events generalizing s with
  | nil => exact ⟨rfl, rfl⟩
  | cons e events ih =>
    obtain ⟨hafter, houtputs⟩ := ih (s.process e).1
    rw [List.map_cons, after_cons, outputs_cons, process_delay]
    refine ⟨hafter, ?_⟩
    rw [houtputs, outputs_cons]

theorem delay_new (settings : SessionSettings) (metadata : Option (Metadata Float)) :
    (new settings metadata).delay span = new settings metadata := rfl

end Session

/-- **Replay.** Events that come later, all by one span, have the outputs that they had, and leave
the session that they left, but for the times of the cones, which are later by the span. So the zero
of time does not matter: if two lists of events coincide when one is delayed by `a` and the other by
`b`, then the second is the first moved by `a - b`, forward or back, and so is all that follows. -/
theorem replay_delayed (settings : SessionSettings) (metadata : Option (Metadata Float)) :
    let start := Session.new settings metadata
    (∀ (span : Span) (events : List Event),
      start.outputs (events.map (·.delay span)) = start.outputs events ∧
        start.after (events.map (·.delay span)) = (start.after events).delay span) ∧
    ∀ (a b : Span) (events events' : List Event),
      events.map (·.delay a) = events'.map (·.delay b) →
        start.outputs events' = start.outputs events ∧
          (start.after events').delay b = (start.after events).delay a := by
  intro start
  have hlater : ∀ (span : Span) (events : List Event),
      start.outputs (events.map (·.delay span)) = start.outputs events ∧
        start.after (events.map (·.delay span)) = (start.after events).delay span := by
    intro span events
    have hnew : start.delay span = start := Session.delay_new settings metadata
    obtain ⟨hafter, houtputs⟩ := start.after_delay events
    rw [hnew] at hafter houtputs
    exact ⟨houtputs, hafter⟩
  refine ⟨hlater, fun a b events events' h => ?_⟩
  obtain ⟨houtputs, hafter⟩ := hlater a events
  obtain ⟨houtputs', hafter'⟩ := hlater b events'
  rw [h] at houtputs hafter
  exact ⟨houtputs'.symm.trans houtputs, hafter'.symm.trans hafter⟩

/-- A pen and then a frame of an earlier time, both moved back by three. -/
theorem replay_delayed_back :
    let start := Session.new {} none
    let sample : PenSample Float := { PenSample.outOfRange 7 with proximity := true }
    let f : Frame := ⟨#[200, 10, 200, 200], 2, 2, 10, 200, 0, 4⟩
    let events : List Event := [.pen sample 9, .frame f]
    let events' : List Event := [.pen sample 6, .frame { f with time := 1 }]
    events.map (·.delay 0) = events'.map (·.delay 3) ∧
      start.outputs events' = start.outputs events ∧
      (start.after events').delay 3 = (start.after events).delay 0 := by
  intro start sample f events events'
  have hmoved : events.map (·.delay 0) = events'.map (·.delay 3) := rfl
  exact ⟨hmoved, (replay_delayed {} none).2 0 3 events events' hmoved⟩

end PenTouch
