import Mathlib.Data.List.DropRight
import PenTouch.Proofs.Run.Course

/-!
# Where a run ends

A run ends at the first reason to do so (`Due`), and it fails just if that is too many failures in
a row. Whether there is a reason can be told from the readings taken so far, for a run keeps count
of them (`Run.Counts`).

1. `Run.Counts.due_of_ended`, `Run.Counts.next`: a reading makes a reason, or the run keeps count.
2. `Run.Takes.due`, `Run.Takes.not_due`: the readings that a run takes end at the first reason.
3. `Run.Takes.counts`: at no reading does the counter of failures overflow.
-/

namespace PenTouch

/-- The reading is a failure, and not for want of events. -/
def Reading.failed : Reading → Bool
  | .ok _ => false
  | .error e => e != .exhausted

/-- The number of failures in a row at the end of readings. -/
def Reading.failuresInRow (readings : List Reading) : Nat := (readings.rtakeWhile failed).length

theorem Reading.failuresInRow_concat (readings : List Reading) (reading : Reading) :
    failuresInRow (readings ++ [reading]) =
      if failed reading then failuresInRow readings + 1 else 0 := by
  unfold failuresInRow
  rw [List.rtakeWhile_concat]
  split
  · exact List.length_append
  · rfl

/-- The number of failures in a row that ends a run; a limit of zero counts as one. -/
def RunSettings.patience (limits : RunSettings) : Nat := max limits.maxErrors.toNat 1

/-- A reason for a run that has taken the readings to take no more. -/
inductive Due (limits : RunSettings) (stop : StopSchedule) (taken : List Reading) : Ending → Prop
  /-- It is told to stop. -/
  | stopped (h : stop ⟨taken.length, (Reading.events taken).length⟩ = true) :
    Due limits stop taken .stopped
  /-- There is a limit to the events, and it is reached. -/
  | complete (hlimit : 0 < limits.eventCount.toNat)
      (h : limits.eventCount.toNat ≤ (Reading.events taken).length) :
    Due limits stop taken .complete
  /-- The source is exhausted. -/
  | exhausted (h : taken.getLast? = some (.error .exhausted)) : Due limits stop taken .exhausted
  /-- As many readings in a row have failed as the run bears. -/
  | gaveUp {count : UInt32} {last : SourceError} (hcount : count.toNat = limits.patience)
      (h : Reading.failuresInRow taken = limits.patience)
      (hlast : taken.getLast? = some (.error last)) : Due limits stop taken (.gaveUp count last)

namespace Run

variable {limits : RunSettings} {stop : StopSchedule} {taken readings : List Reading} {r : Run}
  {reading : Reading} {ending : Ending}

/-- The run has come through the readings and keeps count of them. -/
structure Counts (limits : RunSettings) (taken : List Reading) (r : Run) : Prop where
  bounds : r.limits = limits
  progress : r.progress = ⟨taken.length, (Reading.events taken).length⟩
  failures : r.failures.toNat = Reading.failuresInRow taken
  /-- The run still bears another failure. -/
  patient : Reading.failuresInRow taken < limits.patience
  /-- The source may still give events. -/
  last : taken.getLast? ≠ some (.error .exhausted)

theorem counts_begin (limits : RunSettings) (session : Session) :
    Counts limits [] { limits, session } :=
  ⟨rfl, rfl, rfl, Nat.lt_of_lt_of_le Nat.one_pos (Nat.le_max_right _ _), nofun⟩

/-- The counter of failures does not overflow at the next of them. -/
theorem Counts.toNat_succ (h : r.Counts limits taken) :
    (r.failures + 1).toNat = Reading.failuresInRow taken + 1 := by
  have hpatient := h.patient
  have hmax := limits.maxErrors.toNat_lt
  have hfailures := h.failures
  have hone : (1 : UInt32).toNat = 1 := rfl
  unfold RunSettings.patience at hpatient
  rw [UInt32.toNat_add, hone, hfailures, Nat.mod_eq_of_lt]
  omega

/-! ## Reasons before a reading -/

theorem Counts.due_of_halt (h : r.Counts limits taken) (hhalt : r.halt? stop = some ending) :
    Due limits stop taken ending := by
  unfold halt? at hhalt
  rw [h.progress, h.bounds] at hhalt
  split at hhalt
  · rename_i hstop
    cases hhalt
    exact .stopped hstop
  · split at hhalt
    · rename_i hlimit
      cases hhalt
      exact .complete hlimit.1 hlimit.2
    · cases hhalt

theorem Counts.not_due (h : r.Counts limits taken) (hgo : r.halt? stop = none)
    (other : Ending) : ¬Due limits stop taken other := by
  intro hdue
  unfold halt? at hgo
  rw [h.progress, h.bounds] at hgo
  cases hdue with
  | stopped hstop =>
    rw [if_pos hstop] at hgo
    cases hgo
  | complete hlimit hevents =>
    split at hgo
    · cases hgo
    · rw [if_pos ⟨hlimit, hevents⟩] at hgo
      cases hgo
  | exhausted hlast => exact h.last hlast
  | gaveUp _ hrow _ => exact h.patient.ne hrow

/-! ## Reasons that a reading makes -/

theorem next_error (r : Run) {e : SourceError} (he : e ≠ .exhausted) :
    r.next (.error e) =
      { r with
        progress := ⟨r.progress.readings + 1, r.progress.events⟩
        failures := r.failures + 1 } := by
  show (r.takeFailure e).1 = _
  unfold takeFailure
  rw [if_neg he]

theorem failuresInRow_error (readings : List Reading) {e : SourceError} (he : e ≠ .exhausted) :
    Reading.failuresInRow (readings ++ [.error e]) = Reading.failuresInRow readings + 1 := by
  rw [Reading.failuresInRow_concat]
  exact if_pos (bne_iff_ne.mpr he)

theorem Counts.endedBy?_error (h : r.Counts limits taken) (e : SourceError) :
    r.endedBy? (.error e) =
      if e = .exhausted then some .exhausted
      else if Reading.failuresInRow taken + 1 = limits.patience then
        some (.gaveUp (r.failures + 1) e)
      else none := by
  have hpatience : r.limits.maxErrors ≤ r.failures + 1 ↔
      Reading.failuresInRow taken + 1 = limits.patience := by
    have hpatient := h.patient
    rw [UInt32.le_iff_toNat_le, h.toNat_succ, h.bounds]
    unfold RunSettings.patience at hpatient ⊢
    omega
  show (r.takeFailure e).2 = _
  unfold takeFailure
  simp only [← hpatience]
  split <;> rfl

/-- A reading that makes no reason to end leaves a run that keeps count. -/
theorem Counts.next (h : r.Counts limits taken) (hopen : r.endedBy? reading = none) :
    (r.next reading).Counts limits (taken ++ [reading]) := by
  cases reading with
  | ok e =>
    have hrow : Reading.failuresInRow (taken ++ [.ok e]) = 0 :=
      (Reading.failuresInRow_concat taken _).trans (if_neg Bool.false_ne_true)
    refine ⟨h.bounds, ?_, hrow.symm, hrow ▸ Nat.zero_lt_of_lt h.patient, by simp⟩
    show (⟨r.progress.readings + 1, r.progress.events + 1⟩ : Progress) = _
    rw [h.progress, Reading.events_append, List.length_append, List.length_append]
    rfl
  | error e =>
    rw [h.endedBy?_error] at hopen
    split at hopen
    · cases hopen
    · rename_i he
      split at hopen
      · cases hopen
      · rename_i hpatience
        have hpatient := h.patient
        rw [next_error r he]
        refine ⟨h.bounds, ?_, ?_, ?_, by simpa using he⟩
        · dsimp only
          rw [h.progress, Reading.events_append, List.length_append, List.length_append]
          rfl
        · rw [failuresInRow_error taken he]
          exact h.toNat_succ
        · rw [failuresInRow_error taken he]
          omega

theorem Counts.due_of_ended (h : r.Counts limits taken)
    (hended : r.endedBy? reading = some ending) : Due limits stop (taken ++ [reading]) ending := by
  cases reading with
  | ok e => cases hended
  | error e =>
    rw [h.endedBy?_error] at hended
    split at hended
    · rename_i he
      cases hended
      rw [he]
      exact .exhausted List.getLast?_concat
    · rename_i he
      split at hended
      · rename_i hpatience
        cases hended
        have hrow : Reading.failuresInRow (taken ++ [.error e]) = limits.patience :=
          (failuresInRow_error taken he).trans hpatience
        exact .gaveUp (h.toNat_succ.trans hpatience) hrow List.getLast?_concat
      · cases hended

/-- Too many failures in a row are no reason beside another one. -/
theorem Counts.eq_gaveUp (h : r.Counts limits taken) (hended : r.endedBy? reading = some ending)
    {count : UInt32} {last : SourceError}
    (hdue : Due limits stop (taken ++ [reading]) (.gaveUp count last)) :
    ending = .gaveUp count last := by
  cases reading with
  | ok e => cases hended
  | error e =>
    cases hdue with
    | gaveUp hcount hrow hlast =>
      have hpatience : 0 < limits.patience := Nat.zero_lt_of_lt h.patient
      rw [List.getLast?_concat] at hlast
      cases hlast
      rw [h.endedBy?_error] at hended
      split at hended
      · rename_i he
        rw [Reading.failuresInRow_concat, he] at hrow
        exact absurd hrow hpatience.ne
      · rename_i he
        rw [failuresInRow_error taken he] at hrow
        rw [if_pos hrow] at hended
        cases hended
        have hcount' : r.failures + 1 = count :=
          UInt32.toNat_inj.mp ((h.toNat_succ.trans hrow).trans hcount.symm)
        rw [hcount']

/-! ## Runs -/

section Takes

variable {earlier : List Reading} (htakes : r.Takes stop readings ending)
  (h : r.Counts limits taken)

include htakes h

/-- A run keeps count, and goes on, at all that it takes. -/
theorem Takes.counts (hearlier : earlier <+: readings) (hne : earlier ≠ readings) :
    (r.takeAll earlier).Counts limits (taken ++ earlier) ∧
      (r.takeAll earlier).halt? stop = none := by
  induction htakes generalizing taken earlier with
  | halted hhalt => exact absurd (List.prefix_nil.mp hearlier) hne
  | ended hgo hended =>
    cases earlier with
    | nil =>
      rw [List.append_nil]
      exact ⟨h, hgo⟩
    | cons reading' earlier =>
      obtain ⟨rfl, hrest⟩ := List.cons_prefix_cons.mp hearlier
      rw [List.prefix_nil.mp hrest] at hne
      exact absurd rfl hne
  | @step r reading readings ending hgo hopen _ ih =>
    cases earlier with
    | nil =>
      rw [List.append_nil]
      exact ⟨h, hgo⟩
    | cons reading' earlier =>
      obtain ⟨rfl, hrest⟩ := List.cons_prefix_cons.mp hearlier
      rw [List.append_cons]
      exact ih (h.next hopen) hrest fun heq => hne (congrArg (reading' :: ·) heq)

theorem Takes.not_due (hearlier : earlier <+: readings) (hne : earlier ≠ readings)
    (other : Ending) : ¬Due limits stop (taken ++ earlier) other := by
  obtain ⟨hcounts, hgo⟩ := htakes.counts h hearlier hne
  exact hcounts.not_due hgo other

theorem Takes.due : Due limits stop (taken ++ readings) ending := by
  induction htakes generalizing taken with
  | halted hhalt =>
    rw [List.append_nil]
    exact h.due_of_halt hhalt
  | ended hgo hended => exact h.due_of_ended hended
  | step hgo hopen _ ih =>
    rw [List.append_cons]
    exact ih (h.next hopen)

theorem Takes.eq_gaveUp {count : UInt32} {last : SourceError}
    (hdue : Due limits stop (taken ++ readings) (.gaveUp count last)) :
    ending = .gaveUp count last := by
  induction htakes generalizing taken with
  | halted hhalt =>
    rw [List.append_nil] at hdue
    cases hdue with
    | gaveUp _ hrow _ => exact absurd hrow h.patient.ne
  | ended hgo hended => exact h.eq_gaveUp hended hdue
  | step hgo hopen _ ih =>
    rw [List.append_cons] at hdue
    exact ih (h.next hopen) hdue

end Takes

end Run

theorem Ending.result_eq_ok {ending : Ending} (session : Session)
    (h : ∀ count last, ending ≠ .gaveUp count last) : ending.result session = .ok session := by
  cases ending with
  | gaveUp count last => exact absurd rfl (h count last)
  | stopped => rfl
  | complete => rfl
  | exhausted => rfl

/-- **Runs.** A run over a list of readings, after which the source is exhausted for ever, takes the
readings one by one up to the first reason to end: it is told to stop, has had the events asked for,
the source is exhausted, or too many readings in a row have failed. It reads these and no others,
processes each event among them once, in order, shows the session to the observer after each, and
gives the answers to the sink between its start and stop. It fails just if too many readings have
failed, with their number and the last failure, and else leaves the session that has processed those
events. The counter of failures never overflows. -/
theorem run_ends_at_first_reason (settings : SessionSettings) (limits : RunSettings)
    (metadata : Option (Metadata Float)) (readings : List Reading) (stop : StopSchedule)
    (h : settings.validate = .ok ()) :
    let start := Session.new settings metadata
    let fresh : Run := { limits, session := start }
    let report := runObserved settings limits ⟨.ok metadata, readings⟩ stop
    ∃ taken : List Reading,
      taken <+: readings ++ [.error .exhausted] ∧
      (∃ ending, Due limits stop taken ending) ∧
      (∀ earlier, earlier <+: taken → earlier ≠ taken → ∀ ending, ¬Due limits stop earlier ending) ∧
      report.calls = start.wholeRun taken ∧
      (start.callsFor taken).filterMap Call.reading? = taken ∧
      (start.callsFor taken).filterMap Call.output? = start.outputs (Reading.events taken) ∧
      report.observed = start.views (Reading.events taken) ∧
      (∀ count last, report.result = .error (.tooManyErrors count last) ↔
        Due limits stop taken (.gaveUp count last)) ∧
      ((∀ count last, ¬Due limits stop taken (.gaveUp count last)) →
        report.result = .ok (start.after (Reading.events taken))) ∧
      (fresh.follow stop readings).run = fresh.takeAll taken ∧
      ∀ earlier reading, earlier ++ [reading] <+: taken →
        let counter := (fresh.takeAll earlier).failures
        counter.toNat = Reading.failuresInRow earlier ∧
          (counter + 1).toNat = counter.toNat + 1 := by
  intro start fresh report
  obtain ⟨taken, ending, htaken, htakes, hfollow⟩ := Run.follow_spec stop fresh readings
  have hcounts : fresh.Counts limits [] := Run.counts_begin limits start
  have hdue : Due limits stop taken ending := htakes.due hcounts
  have hreport : report =
      { calls := start.wholeRun taken
        observed := start.views (Reading.events taken)
        result := ending.result (start.after (Reading.events taken)) } := by
    show runObserved _ _ _ _ = _
    rw [runObserved_of_valid limits stop metadata h, hfollow]
    dsimp only
    rw [Run.session_takeAll]
    rfl
  rw [hreport]
  refine ⟨taken, htaken, ⟨ending, hdue⟩, fun earlier => htakes.not_due hcounts, rfl,
    start.filterMap_reading?_callsFor taken, start.filterMap_output?_callsFor taken, rfl, ?_, ?_,
    congrArg Course.run hfollow, ?_⟩
  · intro count last
    constructor
    · intro hresult
      cases ending with
      | gaveUp count' last' =>
        cases hresult
        exact hdue
      | stopped => cases hresult
      | complete => cases hresult
      | exhausted => cases hresult
    · intro hgaveUp
      rw [htakes.eq_gaveUp hcounts hgaveUp]
      rfl
  · intro hnot
    exact Ending.result_eq_ok _ fun count last heq => hnot count last (heq ▸ hdue)
  · intro earlier reading hearlier
    have hne : earlier ≠ taken := by
      rintro rfl
      have hlength := hearlier.length_le
      rw [List.length_append, List.length_singleton] at hlength
      omega
    have hkept := (htakes.counts hcounts ((List.prefix_append _ _).trans hearlier) hne).1
    exact ⟨hkept.failures, hkept.toNat_succ.trans (congrArg (· + 1) hkept.failures.symm)⟩

/-- A failure, an event, and two failures more end a run that bears one. -/
theorem run_ends_at_first_reason_two_failures :
    let settings : SessionSettings := {}
    let limits : RunSettings := { maxErrors := 2 }
    let stop : StopSchedule := fun _ => false
    let readings : List Reading := [.error .notOpen, .ok (.pen (.outOfRange 7) 3),
      .error (.readFailed "short"), .error .notOpen, .ok (.pen (.outOfRange 7) 4)]
    settings.validate = .ok () ∧ ∃ taken : List Reading,
      taken <+: readings ++ [.error .exhausted] ∧ Due limits stop taken (.gaveUp 2 .notOpen) := by
  intro settings limits stop readings
  have hvalid : settings.validate = .ok () :=
    SessionSettings.validate_eq_ok.mpr (by decide +kernel)
  have hresult : (runObserved settings limits ⟨.ok none, readings⟩ stop).result =
      .error (.tooManyErrors 2 .notOpen) := by
    rw [runObserved_of_valid limits stop none hvalid]
    rfl
  obtain ⟨taken, htaken, -, -, -, -, -, -, hfailed, -⟩ :=
    run_ends_at_first_reason settings limits none readings stop hvalid
  exact ⟨hvalid, taken, htaken, (hfailed 2 .notOpen).mp hresult⟩

end PenTouch
