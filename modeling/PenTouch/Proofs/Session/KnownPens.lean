import Mathlib.Data.List.Dedup
import Mathlib.Data.List.Perm.Subperm
import PenTouch.Proofs.Pen.Life
import PenTouch.Proofs.Pen.Table
import PenTouch.Proofs.Session.Steering

/-!
# The known pens of a session

Each number that the pens of a session tell has one entry, with the latest sample of that number.

1. `Tracks`: a table has followed some samples.
2. `Tracks.report`, `Tracks.turnTo`: a report adds its sample, and a turn adds none.
3. `pens_induction`: a session moves its pens in these two ways only.
-/

namespace PenTouch

/-! ## Latest samples -/

theorem getLast?_filter_concat {β : Type} (p : β → Bool) (l : List β) (b : β) :
    ((l ++ [b]).filter p).getLast? = if p b then some b else (l.filter p).getLast? := by
  rw [List.getLast?_filter, List.getLast?_filter, List.reverse_concat, List.find?_cons]
  cases p b <;> rfl

namespace PenSample

/-- The latest of the samples of a number. -/
def latest? (samples : List (PenSample Float)) (serial : Nat) : Option (PenSample Float) :=
  (samples.filter (·.serial == serial)).getLast?

/-- The latest of the samples of a number that were taken in range. -/
def latestInRange? (samples : List (PenSample Float)) (serial : Nat) : Option (PenSample Float) :=
  (samples.filter fun s => s.serial == serial && s.proximity).getLast?

section Latest

variable {samples : List (PenSample Float)} {s : PenSample Float} {serial : Nat}

theorem latest?_concat_self : latest? (samples ++ [s]) s.serial = some s := by
  rw [latest?, getLast?_filter_concat, if_pos (beq_self_eq_true _)]

theorem latest?_of_getLast? (h : samples.getLast? = some s) :
    latest? samples s.serial = some s := by
  rw [← List.dropLast_append_getLast? s h, latest?_concat_self]

theorem latest?_concat_of_ne (h : s.serial ≠ serial) :
    latest? (samples ++ [s]) serial = latest? samples serial := by
  rw [latest?, getLast?_filter_concat, if_neg (mt beq_iff_eq.mp h)]
  rfl

theorem latestInRange?_concat_self (h : s.proximity = true) :
    latestInRange? (samples ++ [s]) s.serial = some s := by
  rw [latestInRange?, getLast?_filter_concat, if_pos (by simp [h])]

theorem latestInRange?_concat_of_not (h : s.serial ≠ serial ∨ ¬s.proximity = true) :
    latestInRange? (samples ++ [s]) serial = latestInRange? samples serial := by
  have hs : ¬(s.serial == serial && s.proximity) = true := by
    rw [Bool.and_eq_true_iff, beq_iff_eq]
    exact not_and_or.mpr h
  rw [latestInRange?, getLast?_filter_concat, if_neg hs]
  rfl

theorem latestInRange?_eq_none (h : ∀ s ∈ samples, s.serial ≠ serial) :
    latestInRange? samples serial = none := by
  rw [latestInRange?, List.getLast?_eq_none_iff, List.filter_eq_nil_iff]
  intro s hs hp
  exact h s hs (beq_iff_eq.mp (Bool.and_eq_true_iff.mp hp).1)

end Latest

end PenSample

/-! ## Turned pens -/

theorem Cone.origin_turnTo (c : Cone Float) (points : List (Point Float)) (now : Time) :
    (c.turnTo points now).origin = c.origin := by
  unfold Cone.turnTo
  induction points generalizing c with
  | nil => rfl
  | cons p points ih => exact (ih _).trans (c.origin_updateDirection p now)

namespace Pen

variable (pen : Pen) (points : List (Point Float)) (now : Time)

theorem serial_turnTo : (pen.turnTo points now).serial = pen.serial := by
  unfold Pen.turnTo
  split <;> rfl

theorem last_turnTo : (pen.turnTo points now).last = pen.last := by
  unfold Pen.turnTo
  split <;> rfl

theorem origin_turnTo : (pen.turnTo points now).cone.origin = pen.cone.origin := by
  unfold Pen.turnTo
  split
  · exact pen.cone.origin_turnTo points now
  · rfl

end Pen

namespace PenTable

/-! ## Turns -/

theorem exists_of_getElem?_turnTo {t : PenTable} {points : List (Point Float)} {now : Time}
    {i : Nat} {pen : Pen} (h : (t.turnTo points now).pens[i]? = some pen) :
    ∃ old, t.pens[i]? = some old ∧ old.turnTo points now = pen := by
  rw [turnTo, List.getElem?_map] at h
  exact Option.map_eq_some_iff.mp h

theorem currentPen_turnTo (t : PenTable) (points : List (Point Float)) (now : Time) :
    (t.turnTo points now).currentPen = t.currentPen.turnTo points now :=
  List.getElem_map _

/-! ## Following samples -/

/-- The table has followed the samples, which were taken at the places that `place` gives them. -/
structure Tracks (t : PenTable) (place : PenSample Float → Point Float)
    (samples : List (PenSample Float)) : Prop where
  distinct : t.Distinct
  current : ∀ s, samples.getLast? = some s → t.currentPen.serial = s.serial
  last : ∀ pen ∈ t.pens, pen.last = PenSample.latest? samples pen.serial
  known : ∀ s ∈ samples, s.serial ≠ 0 → ∃ pen ∈ t.pens, pen.serial = s.serial
  reported : ∀ pen ∈ t.pens, pen.serial ≠ 0 → ∃ s ∈ samples, s.serial = pen.serial
  /-- As long as every sample tells a number, no cone is taken over from a placeholder that has had
  a position. -/
  origin : (∀ s ∈ samples, s.serial ≠ 0) → ∀ pen ∈ t.pens,
    pen.cone.origin.map (·.value) = (PenSample.latestInRange? samples pen.serial).map place

section Tracks

variable {place : PenSample Float → Point Float} {t : PenTable} {samples : List (PenSample Float)}

theorem tracks_new (place : PenSample Float → Point Float) (settings : ConeSettings Float) :
    (PenTable.new settings).Tracks place [] where
  distinct := by
    intro i j a b ha hb _
    obtain ⟨hi, -⟩ := List.getElem?_eq_some_iff.mp ha
    obtain ⟨hj, -⟩ := List.getElem?_eq_some_iff.mp hb
    exact (Nat.lt_one_iff.mp hi).trans (Nat.lt_one_iff.mp hj).symm
  current := nofun
  last pen hpen := by
    rw [List.mem_singleton.mp hpen]
    rfl
  known := nofun
  reported pen hpen hzero := absurd (List.mem_singleton.mp hpen ▸ rfl) hzero
  origin _ pen hpen := by
    rw [List.mem_singleton.mp hpen]
    rfl

/-- The taker of a number that was never reported has had no position, if all samples told one. -/
theorem Tracks.origin_taker (h : t.Tracks place samples) (hsamples : ∀ s ∈ samples, s.serial ≠ 0)
    {serial i : Nat} {taker : Pen} (htaker : Taker t serial i taker) :
    taker.cone.origin.map (·.value) = (PenSample.latestInRange? samples serial).map place := by
  have hnone : (∀ pen ∈ t.pens, pen.serial ≠ serial) →
      PenSample.latestInRange? samples serial = none := by
    refine fun hfresh => PenSample.latestInRange?_eq_none fun s hs hserial' => ?_
    obtain ⟨pen, hpen, heq⟩ := h.known s hs (hsamples s hs)
    exact hfresh pen hpen (heq.trans hserial')
  cases htaker with
  | known hi hi' =>
    rw [h.origin hsamples taker (List.mem_of_getElem? hi), hi']
  | placeholder hfresh hzero =>
    rw [hnone hfresh]
    show t.currentPen.cone.origin.map (·.value) = none
    rw [h.origin hsamples _ t.currentPen_mem, hzero, PenSample.latestInRange?_eq_none hsamples]
    rfl
  | new hfresh _ =>
    rw [hnone hfresh]
    rfl

theorem Tracks.report (h : t.Tracks place samples) (s : PenSample Float) (now : Time) :
    (t.report s (place s) now).Tracks place (samples ++ [s]) where
  distinct := h.distinct.report
  current s' hs' := by
    rw [List.getLast?_concat] at hs'
    cases hs'
    exact serial_currentPen_report
  last pen hpen := by
    rcases eq_or_mem_of_mem_report h.distinct hpen with rfl | ⟨hpen, hne⟩
    · rw [serial_currentPen_report, PenSample.latest?_concat_self, last_currentPen_report]
    · rw [PenSample.latest?_concat_of_ne hne.symm, h.last pen hpen]
  known s' hs' hzero := by
    by_cases heq : s'.serial = s.serial
    · exact ⟨_, currentPen_mem _, serial_currentPen_report.trans heq.symm⟩
    · rcases List.mem_append.mp hs' with hs' | hs'
      · obtain ⟨pen, hpen, hserial⟩ := h.known s' hs' hzero
        exact ⟨pen, mem_report_of_ne (hserial ▸ hzero) hpen (hserial ▸ heq), hserial⟩
      · exact absurd (congrArg (fun s => s.serial) (List.mem_singleton.mp hs')) heq
  reported pen hpen hzero := by
    rcases eq_or_mem_of_mem_report h.distinct hpen with rfl | ⟨hpen, -⟩
    · exact ⟨s, List.mem_concat_self, serial_currentPen_report.symm⟩
    · obtain ⟨s', hs', hserial⟩ := h.reported pen hpen hzero
      exact ⟨s', List.mem_append_left _ hs', hserial⟩
  origin hsamples pen hpen := by
    have hsamples : ∀ s' ∈ samples, s'.serial ≠ 0 :=
      fun s' hs' => hsamples s' (List.mem_append_left _ hs')
    rcases eq_or_mem_of_mem_report h.distinct hpen with rfl | ⟨hpen, hne⟩
    · obtain ⟨taker, htaker, hcurrent, -⟩ := t.report_spec s (place s) now
      rw [serial_currentPen_report, hcurrent]
      unfold Pen.heard
      by_cases hrange : s.proximity = true
      · rw [PenSample.latestInRange?_concat_self hrange, if_pos hrange]
        rfl
      · rw [PenSample.latestInRange?_concat_of_not (.inr hrange), if_neg hrange]
        show taker.cone.origin.map (·.value) = _
        exact h.origin_taker hsamples htaker
    · rw [PenSample.latestInRange?_concat_of_not (.inl hne.symm), h.origin hsamples pen hpen]

theorem Tracks.turnTo (h : t.Tracks place samples) (points : List (Point Float)) (now : Time) :
    (t.turnTo points now).Tracks place samples := by
  have hmem : ∀ {pen : Pen}, pen ∈ (t.turnTo points now).pens →
      ∃ old ∈ t.pens, old.turnTo points now = pen := List.mem_map.mp
  refine ⟨?_, ?_, ?_, ?_, ?_, ?_⟩
  · intro i j a b ha hb hab
    obtain ⟨a', ha', rfl⟩ := exists_of_getElem?_turnTo ha
    obtain ⟨b', hb', rfl⟩ := exists_of_getElem?_turnTo hb
    rw [Pen.serial_turnTo, Pen.serial_turnTo] at hab
    exact h.distinct i j a' b' ha' hb' hab
  · intro s hs
    rw [currentPen_turnTo, Pen.serial_turnTo]
    exact h.current s hs
  · intro pen hpen
    obtain ⟨old, hold, rfl⟩ := hmem hpen
    rw [Pen.serial_turnTo, Pen.last_turnTo, h.last old hold]
  · intro s hs hzero
    obtain ⟨pen, hpen, hserial⟩ := h.known s hs hzero
    exact ⟨_, List.mem_map_of_mem hpen, (pen.serial_turnTo points now).trans hserial⟩
  · intro pen hpen hzero
    obtain ⟨old, hold, rfl⟩ := hmem hpen
    rw [Pen.serial_turnTo] at hzero ⊢
    exact h.reported old hold hzero
  · intro hsamples pen hpen
    obtain ⟨old, hold, rfl⟩ := hmem hpen
    rw [Pen.serial_turnTo, Pen.origin_turnTo, h.origin hsamples old hold]

/-- There are no entries but those of the numbers that were told, and perhaps a placeholder. -/
theorem Tracks.length_le (h : t.Tracks place samples) :
    t.pens.length ≤ 1 + ((samples.map (·.serial)).filter (· ≠ 0)).dedup.length := by
  have hsubset : t.pens.map (·.serial) ⊆
      0 :: ((samples.map (·.serial)).filter (· ≠ 0)).dedup := by
    intro n hn
    obtain ⟨pen, hpen, rfl⟩ := List.mem_map.mp hn
    by_cases hzero : pen.serial = 0
    · exact hzero ▸ List.mem_cons_self
    · obtain ⟨s, hs, hserial⟩ := h.reported pen hpen hzero
      simp only [List.mem_cons, List.mem_dedup, List.mem_filter, List.mem_map, decide_eq_true_eq]
      exact .inr ⟨⟨s, hs, hserial⟩, hzero⟩
  have hlength := (h.distinct.nodup.subperm hsubset).length_le
  rw [List.length_map, List.length_cons] at hlength
  omega

end Tracks

end PenTable

namespace Session

/-- The samples of a session's pens, with those that are estimated from windows. -/
def samples : Estimator Float → List Event → List (PenSample Float)
  | _, [] => []
  | estimator, .frame _ :: events => samples estimator events
  | estimator, .pen sample _ :: events => sample :: samples estimator events
  | estimator, .window w :: events =>
    (estimator.input w).sample :: samples (estimator.input w) events

/-- **Induction over a session.** What every report and every turn of a table keeps holds after all
events. -/
theorem pens_induction {P : PenTable → List (PenSample Float) → Prop} {panel : Panel}
    (report : ∀ t told sample now, P t told →
      P (t.report sample (sample.physical panel.width panel.height) now) (told ++ [sample]))
    (turn : ∀ t told points now, P t told → P (t.turnTo points now) told) {s : Session}
    (hpanel : s.panel = panel) (told : List (PenSample Float)) (h : P s.pens told)
    (events : List Event) : P (s.after events).pens (told ++ samples s.estimator events) := by
  induction events generalizing s told with
  | nil =>
    rw [samples, List.append_nil]
    exact h
  | cons e events ih =>
    rw [after_cons]
    have hnext : (s.process e).1.panel = panel := by
      rw [← hpanel, Session.panel, settings_process]
      rfl
    subst hpanel
    cases e with
    | frame f =>
      by_cases hf : f.isUsable = true
      · have hestimator : (s.process (.frame f)).1.estimator = s.estimator := by
          rw [process_usable s hf]
          rfl
        rw [samples, ← hestimator]
        refine ih hnext told ?_
        rw [pens_usable s hf, screening, PenTable.pens_screen]
        split
        · exact turn _ _ _ _ h
        · exact h
      · rw [process_unusable s hf] at hnext ⊢
        exact ih hnext told h
    | pen sample time =>
      rw [samples, List.append_cons]
      exact ih hnext _ (report _ _ sample time h)
    | window w =>
      rw [samples, List.append_cons]
      exact ih hnext _ (report _ _ (s.estimator.input w).sample w.time h)

variable {s : Session}

theorem serial_kept {i : Nat} {pen : Pen} (hpen : s.pens.pens[i]? = some pen)
    (hzero : pen.serial ≠ 0) (events : List Event) :
    ∃ later, (s.after events).pens.pens[i]? = some later ∧ later.serial = pen.serial := by
  refine pens_induction (P := fun t _ => ∃ later, t.pens[i]? = some later ∧
    later.serial = pen.serial) ?_ ?_ rfl [] ⟨pen, hpen, rfl⟩ events
  · rintro t told sample now ⟨later, hlater, hserial⟩
    obtain ⟨next, hnext, heq⟩ := PenTable.exists_getElem?_report (hserial ▸ hzero) hlater
    exact ⟨next, hnext, heq.trans hserial⟩
  · rintro t told points now ⟨later, hlater, hserial⟩
    refine ⟨later.turnTo points now, ?_, (later.serial_turnTo points now).trans hserial⟩
    rw [PenTable.turnTo, List.getElem?_map, hlater]
    rfl

theorem getElem?_pens_process {e : Event} (he : e.frame? = none) {i : Nat}
    (hi : i ≠ (s.process e).1.pens.current) :
    (s.process e).1.pens.pens[i]? = s.pens.pens[i]? := by
  cases e with
  | frame f => cases he
  | pen sample time =>
    obtain ⟨-, -, -, hothers⟩ := s.pens.report_spec sample
      (sample.physical s.settings.width s.settings.height) time
    exact hothers i hi
  | window w =>
    obtain ⟨-, -, -, hothers⟩ := s.pens.report_spec (s.estimator.input w).sample
      ((s.estimator.input w).sample.physical s.settings.width s.settings.height) w.time
    exact hothers i hi

theorem tracks_after (settings : SessionSettings) (metadata : Option (Metadata Float))
    (events : List Event) :
    let start := Session.new settings metadata
    (start.after events).pens.Tracks (fun s => s.physical settings.width settings.height)
      (samples start.estimator events) := by
  intro start
  have hpanel : start.panel = ⟨settings.width, settings.height⟩ := rfl
  refine pens_induction
    (P := fun t told => t.Tracks (·.physical settings.width settings.height) told)
    ?_ ?_ hpanel [] (PenTable.tracks_new _ settings.cone) events
  · exact fun _ _ sample now h => h.report sample now
  · exact fun _ _ points now h => h.turnTo points now

/-- **The known pens.** Whatever pens report, each number that was told keeps its own entry with its
own latest sample, and its own origin if all samples tell a number. -/
theorem pens_follow_samples (settings : SessionSettings) (metadata : Option (Metadata Float))
    (events : List Event) :
    let start := Session.new settings metadata
    let table := (start.after events).pens
    let told := samples start.estimator events
    (table.pens.map (·.serial)).Nodup ∧
      (∀ s, told.getLast? = some s →
        table.currentPen.serial = s.serial ∧ table.currentPen.last = some s) ∧
      (∀ s ∈ told, s.serial ≠ 0 → (table.pens.map (·.serial)).count s.serial = 1 ∧
        ∀ pen ∈ table.pens, pen.serial = s.serial → pen.last = PenSample.latest? told s.serial) ∧
      (∀ (i : Nat) (pen : Pen), table.pens[i]? = some pen → pen.serial ≠ 0 →
        ∀ more, ∃ later : Pen, (start.after (events ++ more)).pens.pens[i]? = some later ∧
          later.serial = pen.serial) ∧
      table.pens.length ≤ 1 + ((told.map (·.serial)).filter (· ≠ 0)).dedup.length ∧
      (∀ e : Event, e.frame? = none →
        let next := ((start.after events).process e).1.pens
        ∀ i : Nat, i ≠ next.current → next.pens[i]? = table.pens[i]?) ∧
      ((∀ s ∈ told, s.serial ≠ 0) → ∀ pen ∈ table.pens,
        pen.cone.origin.map (·.value) = (PenSample.latestInRange? told pen.serial).map
          (·.physical settings.width settings.height)) := by
  intro start table told
  have h : table.Tracks (·.physical settings.width settings.height) told :=
    tracks_after settings metadata events
  refine ⟨h.distinct.nodup, fun s hs => ⟨h.current s hs, ?_⟩, fun s hs hzero => ⟨?_, ?_⟩,
    fun i pen hpen hzero more => ?_, h.length_le, fun e he i hi => ?_, h.origin⟩
  · rw [h.last _ table.currentPen_mem, h.current s hs]
    exact PenSample.latest?_of_getLast? hs
  · obtain ⟨pen, hpen, hserial⟩ := h.known s hs hzero
    exact List.count_eq_one_of_mem h.distinct.nodup (hserial ▸ List.mem_map_of_mem hpen)
  · intro pen hpen hserial
    rw [h.last pen hpen, hserial]
  · rw [after_append]
    exact serial_kept hpen hzero more
  · exact getElem?_pens_process he hi

/-- A pen, then a window of a pen that tells no number, then a pen that takes over its entry. -/
theorem pens_follow_samples_takeover :
    let start := Session.new {} none
    let inRange (serial : Nat) : PenSample Float :=
      { PenSample.outOfRange serial with proximity := true }
    let events : List Event :=
      [.pen (inRange 5) 1, .window ⟨.pressure, [], [], 0, 0, 2⟩, .pen (inRange 7) 3]
    let table := (start.after events).pens
    let numbered := (start.after [.pen (inRange 5) 1, .pen (inRange 7) 3]).pens
    table.currentPen.serial = 7 ∧ (table.pens.map (·.serial)).count 5 = 1 ∧
      (∀ more, ∃ later : Pen, (start.after (events ++ more)).pens.pens[1]? = some later ∧
        later.serial = 7) ∧
      (((start.after events).process (.pen (inRange 5) 4)).1.pens.pens[1]? = table.pens[1]?) ∧
      ∀ pen ∈ numbered.pens, pen.serial = 5 →
        pen.cone.origin.map (·.value) = some ((inRange 5).physical 260.0 173.0) := by
  intro start inRange events table numbered
  obtain ⟨-, hcurrent, hone, hkept, -, hothers, -⟩ := pens_follow_samples {} none events
  obtain ⟨-, -, -, -, -, -, horigin⟩ :=
    pens_follow_samples {} none [.pen (inRange 5) 1, .pen (inRange 7) 3]
  have htaken : table.pens[1]?.map (·.serial) = some 7 := by decide +kernel
  have hback : 1 ≠ ((start.after events).process (.pen (inRange 5) 4)).1.pens.current := by
    decide +kernel
  obtain ⟨seven, hseven, hserial⟩ := Option.map_eq_some_iff.mp htaken
  refine ⟨(hcurrent (inRange 7) rfl).1, (hone (inRange 5) List.mem_cons_self (by decide)).1,
    fun more => ?_, hothers _ rfl 1 hback, fun pen hpen hserial => ?_⟩
  · rw [← hserial]
    exact hkept 1 seven hseven (hserial ▸ by decide) more
  · have hnumbered : ∀ s ∈ [inRange 5, inRange 7], s.serial ≠ 0 := by
      intro s hs
      rcases List.mem_pair.mp hs with rfl | rfl <;> decide
    rw [horigin hnumbered pen hpen, hserial]
    rfl

end Session

end PenTouch
