import PenTouch.Pen.Cone
import PenTouch.Scalar.Double

/-!
# The life of a cone

A cone is alive once its pen has had a position, and has a direction once a palm was seen that has a
direction from the pen's position at that time. Neither is ever lost. Times may come in any order.

1. `origin_after`, `time_direction_after`: origin and direction are those of the latest position and
   of the latest palm that turned the cone (`turns`).
2. `mem_turns_iff`: a palm turns the cone if it is `Effective` for the latest position before it.
3. `active_after`: so the cone is active as long as both are recent (`Recent`).
-/

namespace PenTouch.Cone

/-! ## State -/

section State

variable {α : Type} {c : Cone α} {now : Time}

theorem alive_iff : c.alive = true ↔ ∃ o, c.origin = some o := Option.isSome_iff_exists

theorem active_iff :
    c.active now = true ↔ (∃ o, c.origin = some o ∧ now - o.time ≤ c.timeout) ∧
      ∃ d, c.direction = some d ∧ now - d.time ≤ c.timeout := by
  unfold active
  rw [Bool.and_eq_true_iff, Option.any_eq_true, Option.any_eq_true]
  exact and_congr (exists_congr fun _ => and_congr_right fun _ => decide_eq_true_iff)
    (exists_congr fun _ => and_congr_right fun _ => decide_eq_true_iff)

/-- How recent something is depends on its time alone. -/
theorem exists_recent_congr {β γ : Type} {x : Option (Stamped β)} {y : Option (Stamped γ)}
    {timeout : Span} (h : x.map (·.time) = y.map (·.time)) :
    (∃ d, x = some d ∧ now - d.time ≤ timeout) ↔ ∃ d, y = some d ∧ now - d.time ≤ timeout := by
  cases x <;> cases y <;> simp_all

theorem alive_of_active (h : c.active now = true) : c.alive = true := by
  obtain ⟨⟨o, ho, -⟩, -⟩ := active_iff.mp h
  exact alive_iff.mpr ⟨o, ho⟩

theorem state_of_not_alive (h : ¬c.alive = true) : c.state now = .dead := by
  unfold state
  rw [Bool.eq_false_iff.mpr h]
  rfl

theorem state_of_active (h : c.active now = true) : c.state now = .active := by
  unfold state
  rw [alive_of_active h, h]
  rfl

theorem state_of_not_active (ha : c.alive = true) (h : ¬c.active now = true) :
    c.state now = .inactive := by
  unfold state
  rw [ha, Bool.eq_false_iff.mpr h]
  rfl

theorem state_iff (c : Cone α) (now : Time) :
    (c.state now = .dead ↔ ¬c.alive = true) ∧
      (c.state now = .inactive ↔ c.alive = true ∧ ¬c.active now = true) ∧
      (c.state now = .active ↔ c.active now = true) := by
  by_cases ha : c.alive = true
  · by_cases h : c.active now = true
    · simp [state_of_active h, ha, h]
    · simp [state_of_not_active ha h, ha, h]
  · have h : ¬c.active now = true := mt alive_of_active ha
    simp [state_of_not_alive ha, ha, h]

end State

variable {α : Type} [Scalar α]

/-! ## Histories -/

/-- Something that happens to a cone. -/
inductive Update (α : Type) where
  /-- The pen is at a position. -/
  | position (p : Point α) (time : Time)
  /-- A palm is seen. -/
  | palm (p : Point α) (time : Time)

def update (c : Cone α) : Update α → Cone α
  | .position p time => c.updatePosition p time
  | .palm p time => c.updateDirection p time

def after (c : Cone α) (updates : List (Update α)) : Cone α := updates.foldl update c

def Update.position? : Update α → Option (Stamped (Point α))
  | position p time => some ⟨p, time⟩
  | palm _ _ => none

def positions (updates : List (Update α)) : List (Stamped (Point α)) :=
  updates.filterMap Update.position?

/-- The palm turns a cone of the origin: there is one, and the palm lies at a finite distance from
it that is no rounding error. -/
def Effective (origin : Option (Stamped (Point α))) (palm : Point α) : Prop :=
  match origin with
  | none => False
  | some o =>
    (palm - o.value : Vector2 α).norm > Scalar.epsilon ∧
      Scalar.isFinite (palm - o.value : Vector2 α).norm = true

instance (palm : Point α) : ∀ origin, Decidable (Effective origin palm)
  | none => inferInstanceAs (Decidable False)
  | some o => inferInstanceAs (Decidable
      ((palm - o.value : Vector2 α).norm > Scalar.epsilon ∧
        Scalar.isFinite (palm - o.value : Vector2 α).norm = true))

/-- The palms that turn a cone which has the origin at first, and is moved by the positions. -/
def turns (origin : Option (Stamped (Point α))) : List (Update α) → List (Stamped (Point α))
  | [] => []
  | .position p time :: updates => turns (some ⟨p, time⟩) updates
  | .palm p time :: updates =>
    if Effective origin p then ⟨p, time⟩ :: turns origin updates else turns origin updates

/-! ## One update -/

theorem updateDirection_of_not_effective {c : Cone α} {p : Point α} (h : ¬Effective c.origin p)
    (time : Time) : c.updateDirection p time = c := by
  unfold updateDirection
  unfold Effective at h
  cases ho : c.origin with
  | none => rfl
  | some o =>
    rw [ho] at h
    rw [Option.bind_some, Vector2.normalized?, if_neg h]

theorem updateDirection_of_normalized {c : Cone α} {o : Stamped (Point α)} {p : Point α}
    {towards : Vector2 α} (ho : c.origin = some o)
    (h : (p - o.value : Vector2 α).normalized? = some towards) (time : Time) :
    c.updateDirection p time =
      { c with direction := some ⟨c.blend towards time, time⟩ } := by
  unfold updateDirection
  rw [ho, Option.bind_some, h]

theorem time_updateDirection {c : Cone α} {p : Point α} (h : Effective c.origin p) (time : Time) :
    (c.updateDirection p time).direction.map (·.time) = some time := by
  unfold updateDirection
  unfold Effective at h
  cases ho : c.origin with
  | none =>
    rw [ho] at h
    exact h.elim
  | some o =>
    rw [ho] at h
    rw [Option.bind_some, Vector2.normalized?, if_pos h]
    rfl

theorem origin_updateDirection (c : Cone α) (p : Point α) (time : Time) :
    (c.updateDirection p time).origin = c.origin := by
  unfold updateDirection
  split <;> rfl

theorem timeout_updateDirection (c : Cone α) (p : Point α) (time : Time) :
    (c.updateDirection p time).timeout = c.timeout := by
  unfold updateDirection
  split <;> rfl

/-! ## All updates -/

theorem or_getLast?_cons {β : Type} (b : β) (l : List β) (x : Option β) :
    (b :: l).getLast?.or x = l.getLast?.or (some b) := by
  rw [List.getLast?_cons]
  cases l.getLast? <;> rfl

theorem after_append (c : Cone α) (updates more : List (Update α)) :
    c.after (updates ++ more) = (c.after updates).after more := List.foldl_append

theorem timeout_after (c : Cone α) (updates : List (Update α)) :
    (c.after updates).timeout = c.timeout := by
  induction updates generalizing c with
  | nil => rfl
  | cons u updates ih =>
    cases u with
    | position p time => exact ih _
    | palm p time => exact (ih _).trans (timeout_updateDirection c p time)

/-- **Origins.** The origin is the latest position of the pen. -/
theorem origin_after (c : Cone α) (updates : List (Update α)) :
    (c.after updates).origin = (positions updates).getLast?.or c.origin := by
  induction updates generalizing c with
  | nil => rfl
  | cons u updates ih =>
    cases u with
    | position p time =>
      show ((c.updatePosition p time).after updates).origin =
        (⟨p, time⟩ :: positions updates).getLast?.or c.origin
      rw [ih, or_getLast?_cons]
      rfl
    | palm p time =>
      show ((c.updateDirection p time).after updates).origin = (positions updates).getLast?.or _
      rw [ih, origin_updateDirection]

/-- **Directions.** The direction is of the time of the latest palm that turned the cone. -/
theorem time_direction_after (c : Cone α) (updates : List (Update α)) :
    (c.after updates).direction.map (·.time) =
      ((turns c.origin updates).map (·.time)).getLast?.or (c.direction.map (·.time)) := by
  induction updates generalizing c with
  | nil => rfl
  | cons u updates ih =>
    cases u with
    | position p time => exact ih _
    | palm p time =>
      show ((c.updateDirection p time).after updates).direction.map (·.time) = _
      by_cases h : Effective c.origin p
      · rw [ih, origin_updateDirection, time_updateDirection h, turns, if_pos h, List.map_cons,
          or_getLast?_cons]
      · rw [updateDirection_of_not_effective h, ih, turns, if_neg h]

theorem turns_position (origin : Option (Stamped (Point α))) (p : Point α) (time : Time)
    (updates : List (Update α)) :
    turns origin (.position p time :: updates) = turns (some ⟨p, time⟩) updates := rfl

theorem mem_turns_palm {origin : Option (Stamped (Point α))} {p : Point α} {time : Time}
    {updates : List (Update α)} {d : Stamped (Point α)} :
    d ∈ turns origin (.palm p time :: updates) ↔
      (d = ⟨p, time⟩ ∧ Effective origin p) ∨ d ∈ turns origin updates := by
  by_cases h : Effective origin p
  · rw [turns, if_pos h, List.mem_cons]
    simp only [h, and_true]
  · rw [turns, if_neg h]
    simp only [h, and_false, false_or]

/-- A palm turns the cone if it does so where the positions before it have moved the origin. -/
theorem mem_turns_iff {origin : Option (Stamped (Point α))} {updates : List (Update α)}
    {d : Stamped (Point α)} :
    d ∈ turns origin updates ↔
      ∃ before rest, updates = before ++ .palm d.value d.time :: rest ∧
        Effective ((positions before).getLast?.or origin) d.value := by
  induction updates generalizing origin with
  | nil => simp [turns]
  | cons u updates ih =>
    cases u with
    | position p time =>
      rw [turns_position, ih]
      constructor
      · rintro ⟨before, rest, rfl, h⟩
        refine ⟨.position p time :: before, rest, rfl, ?_⟩
        rwa [← or_getLast?_cons (⟨p, time⟩ : Stamped (Point α)) (positions before) origin] at h
      · rintro ⟨before, rest, hu, h⟩
        cases before with
        | nil => cases hu
        | cons u before =>
          cases hu
          refine ⟨before, rest, rfl, ?_⟩
          rwa [← or_getLast?_cons (⟨p, time⟩ : Stamped (Point α)) (positions before) origin]
    | palm p time =>
      rw [mem_turns_palm, ih]
      constructor
      · rintro (⟨rfl, h⟩ | ⟨before, rest, rfl, h⟩)
        · exact ⟨[], updates, rfl, h⟩
        · exact ⟨.palm p time :: before, rest, rfl, h⟩
      · rintro ⟨before, rest, hu, h⟩
        cases before with
        | nil =>
          cases hu
          exact .inl ⟨rfl, h⟩
        | cons u before =>
          cases hu
          exact .inr ⟨before, rest, rfl, h⟩

/-! ## A life from its beginning -/

/-- The pen's latest position and the latest palm that turned the cone are there, and neither is
older than the timeout. -/
def Recent (timeout : Span) (now : Time) (updates : List (Update α)) : Prop :=
  (∃ o, (positions updates).getLast? = some o ∧ now - o.time ≤ timeout) ∧
    ∃ d, (turns none updates).getLast? = some d ∧ now - d.time ≤ timeout

omit [Scalar α] in
theorem exists_position_iff {updates : List (Update α)} :
    (∃ o, (positions updates).getLast? = some o) ↔
      ∃ p time, Update.position p time ∈ updates := by
  rw [← Option.isSome_iff_exists, List.getLast?_isSome]
  constructor
  · intro h
    obtain ⟨o, ho⟩ := List.exists_mem_of_ne_nil _ h
    obtain ⟨u, hu, huo⟩ := List.mem_filterMap.mp ho
    cases u with
    | position p time => exact ⟨p, time, hu⟩
    | palm p time => cases huo
  · rintro ⟨p, time, hu⟩
    exact List.ne_nil_of_mem (List.mem_filterMap.mpr ⟨_, hu, rfl⟩)

theorem exists_turn_iff {updates : List (Update α)} :
    (∃ d, (turns none updates).getLast? = some d) ↔
      ∃ before p time rest, updates = before ++ .palm p time :: rest ∧
        Effective (positions before).getLast? p := by
  rw [← Option.isSome_iff_exists, List.getLast?_isSome]
  constructor
  · intro h
    obtain ⟨d, hd⟩ := List.exists_mem_of_ne_nil _ h
    obtain ⟨before, rest, hu, hp⟩ := mem_turns_iff.mp hd
    rw [Option.or_none] at hp
    exact ⟨before, d.value, d.time, rest, hu, hp⟩
  · rintro ⟨before, p, time, rest, hu, hp⟩
    refine List.ne_nil_of_mem (mem_turns_iff.mpr ⟨before, rest, hu, ?_⟩ : ⟨p, time⟩ ∈ _)
    rwa [Option.or_none]

section Unborn

variable {c : Cone α} {updates : List (Update α)} (ho : c.origin = none)

include ho

theorem origin_of_unborn : (c.after updates).origin = (positions updates).getLast? := by
  rw [origin_after, ho, Option.or_none]

theorem alive_after : (c.after updates).alive = true ↔
    ∃ p time, Update.position p time ∈ updates := by
  rw [alive_iff, origin_of_unborn ho, exists_position_iff]

variable (hd : c.direction = none)

include hd

theorem time_direction_of_unborn : (c.after updates).direction.map (·.time) =
    (turns none updates).getLast?.map (·.time) := by
  rw [time_direction_after, ho, hd, Option.map_none, Option.or_none, List.getLast?_map]

theorem direction_after : (∃ d, (c.after updates).direction = some d) ↔
    ∃ before p time rest, updates = before ++ .palm p time :: rest ∧
      Effective (positions before).getLast? p := by
  rw [← exists_turn_iff, ← Option.isSome_iff_exists, ← Option.isSome_iff_exists,
    ← Option.isSome_map (f := (·.time)), time_direction_of_unborn ho hd, Option.isSome_map]

/-- **Activity.** The cone is active as long as both are recent. -/
theorem active_after {now : Time} :
    (c.after updates).active now = true ↔ Recent c.timeout now updates := by
  rw [active_iff, timeout_after, origin_of_unborn ho,
    exists_recent_congr (time_direction_of_unborn ho hd)]
  rfl

end Unborn

theorem contains_of_missing {c : Cone α} (h : ¬(c.alive = true ∧ c.direction.isSome = true))
    (p : Point α) : c.contains p = false := by
  unfold contains
  split
  · rename_i ho hd
    refine absurd ⟨?_, ?_⟩ h
    · rw [alive, ho]
      rfl
    · rw [hd]
      rfl
  · rfl

/-- **A cone's life.** A cone begins without origin and direction. What it has been told since then,
in whatever order of times, decides whether it is alive, has a direction and is active. -/
theorem life_told_by_updates (angleCos distance : α) (timeout halfLife : Span)
    (updates : List (Update α)) (now : Time) :
    let unborn : Cone α := { angleCos, distance, timeout, halfLife }
    let c := unborn.after updates
    let hasPosition := ∃ p time, Update.position p time ∈ updates
    let hasTurn := ∃ before p time rest, updates = before ++ .palm p time :: rest ∧
      Effective (positions before).getLast? p
    (c.alive = true ↔ hasPosition) ∧ (c.direction.isSome = true ↔ hasTurn) ∧
      (∀ more, (c.alive = true → (c.after more).alive = true) ∧
        (c.direction.isSome = true → (c.after more).direction.isSome = true)) ∧
      (c.active now = true ↔ Recent timeout now updates) ∧
      (c.state now = .dead ↔ ¬hasPosition) ∧
      (c.state now = .inactive ↔ hasPosition ∧ ¬Recent timeout now updates) ∧
      (c.state now = .active ↔ Recent timeout now updates) ∧
      (∀ p time, ¬Effective (positions updates).getLast? p → c.updateDirection p time = c) ∧
      (¬(hasPosition ∧ hasTurn) → ∀ p, c.contains p = false) := by
  intro unborn c hasPosition hasTurn
  have halive : ∀ us, (unborn.after us).alive = true ↔ ∃ p time, Update.position p time ∈ us :=
    fun us => alive_after rfl
  have hturn : ∀ us, (unborn.after us).direction.isSome = true ↔
      ∃ before p time rest, us = before ++ .palm p time :: rest ∧
        Effective (positions before).getLast? p := fun us => by
    rw [Option.isSome_iff_exists]
    exact direction_after rfl rfl
  have hactive : c.active now = true ↔ Recent timeout now updates := active_after rfl rfl
  obtain ⟨hdead, hinactive, hstate⟩ := state_iff c now
  refine ⟨halive updates, hturn updates, fun more => ⟨?_, ?_⟩, hactive,
    hdead.trans (not_congr (halive updates)),
    hinactive.trans (and_congr (halive updates) (not_congr hactive)), hstate.trans hactive, ?_, ?_⟩
  · -- Nothing is lost, since more updates only make the history longer.
    show _ → ((unborn.after updates).after more).alive = true
    rw [← after_append, halive, halive]
    rintro ⟨p, time, h⟩
    exact ⟨p, time, List.mem_append_left _ h⟩
  · show _ → ((unborn.after updates).after more).direction.isSome = true
    rw [← after_append, hturn, hturn]
    rintro ⟨before, p, time, rest, hu, h⟩
    exact ⟨before, p, time, rest ++ more, by rw [hu, List.append_assoc, List.cons_append], h⟩
  · intro p time h
    refine updateDirection_of_not_effective (fun heffective => h ?_) time
    rwa [show c.origin = _ from origin_of_unborn rfl] at heffective
  · intro h
    exact contains_of_missing (mt (And.imp (halive updates).mp (hturn updates).mp) h)

/-- A palm before any position, one at the tip, and then one that turns the cone although its time
lies before that of the position. -/
theorem life_told_by_updates_backwards :
    let unborn : Cone Float := { angleCos := 0.5, distance := 100, timeout := 4, halfLife := 1 }
    let updates : List (Update Float) :=
      [.palm ⟨10, 0⟩ 3, .position ⟨0, 0⟩ 9, .palm ⟨0, 0⟩ 12]
    let c := unborn.after updates
    let turned := unborn.after (updates ++ [.palm ⟨30, 40⟩ 5])
    c.updateDirection ⟨0, 0⟩ 12 = c ∧ (∀ p, c.contains p = false) ∧ c.state 8 = .inactive ∧
      turned.state 8 = .active ∧
      ∀ more, (turned.after more).alive = true ∧ (turned.after more).direction.isSome = true := by
  intro unborn updates c turned
  have hdead : ¬Effective none (⟨10, 0⟩ : Point Float) := not_false
  have htip : ¬Effective (some ⟨⟨0, 0⟩, 9⟩) (⟨0, 0⟩ : Point Float) := by decide +kernel
  have hbeside : Effective (some ⟨⟨0, 0⟩, 9⟩) (⟨30, 40⟩ : Point Float) := by decide +kernel
  have hturns : turns none (updates ++ [.palm ⟨30, 40⟩ 5]) = [⟨⟨30, 40⟩, 5⟩] := by
    show turns none [.palm ⟨10, 0⟩ 3, .position ⟨0, 0⟩ 9, .palm ⟨0, 0⟩ 12, .palm ⟨30, 40⟩ 5] = _
    rw [turns, if_neg hdead, turns, turns, if_neg htip, turns, if_pos hbeside, turns]
  have hrecent : Recent 4 8 (updates ++ [.palm ⟨30, 40⟩ 5]) :=
    ⟨⟨_, rfl, by decide⟩, ⟨⟨30, 40⟩, 5⟩, by rw [hturns]; rfl, by decide⟩
  obtain ⟨halive, hdirection, -, hactive, -, hinactive, -, hignored, hempty⟩ :=
    life_told_by_updates 0.5 100 4 1 updates 8
  obtain ⟨halive', hdirection', hkept, -, -, -, hactive', -, -⟩ :=
    life_told_by_updates 0.5 100 4 1 (updates ++ [.palm ⟨30, 40⟩ 5]) 8
  have hundirected : ¬c.direction.isSome = true := by decide +kernel
  refine ⟨hignored _ _ htip, hempty fun h => hundirected (hdirection.mpr h.2),
    hinactive.mpr ⟨⟨_, _, List.mem_cons_of_mem _ List.mem_cons_self⟩, fun h => ?_⟩,
    hactive'.mpr hrecent, fun more => ⟨(hkept more).1 ?_, (hkept more).2 ?_⟩⟩
  · obtain ⟨-, d, hd, -⟩ := active_iff.mp (hactive.mpr h)
    exact hundirected (Option.isSome_of_eq_some hd)
  · exact halive'.mpr ⟨_, _, List.mem_cons_of_mem _ List.mem_cons_self⟩
  · exact hdirection'.mpr ⟨updates, _, _, [], rfl, hbeside⟩

end PenTouch.Cone
