import Mathlib.Data.List.Chain
import PenTouch.Proofs.Contact.Verdict

/-!
# Stability over a chain of contacts

A track counts the frames since its size last jumped, and a contact is stable once the count has
reached the number of frames that the settings ask for.

1. `le_steadyFrames_iff`: the frames since the last jump are at least `n` just if the latest `n`
   contacts of the chain exist and follow one another steadily.
2. `Chain.streak`: the count of a track is the number of these frames along its chain (`Counts`), up
   to the largest count. `toNat_streak_advance` is the step.
3. `after_eq_past`: a reset forgets all that was before it, so a chain never leads back across one.
4. `stable_iff_steady_chain`: so a contact is stable just if its chain has been steady for as many
   frames as the settings ask for.
-/

namespace PenTouch

variable {α : Type} [Scalar α]

/-- The size changes by no more than the tolerance from the older contact to the newer one. The
change is relative to the older size, and unbounded if that is not above zero. -/
def Contact.Steady (settings : TouchSettings α) (new old : Contact α) : Prop :=
  (old.major > 0.0 ∧
    Scalar.abs (new.major - old.major) / old.major ≤ settings.sizeTolerance) ∨
  (¬old.major > 0.0 ∧ Scalar.unbounded ≤ settings.sizeTolerance)

instance (settings : TouchSettings α) (new old : Contact α) :
    Decidable (new.Steady settings old) := inferInstanceAs (Decidable (_ ∧ _ ∨ _ ∧ _))

theorem Contact.steady_iff {settings : TouchSettings α} {new old : Contact α} :
    new.Steady settings old ↔ relativeChange old.major new.major ≤ settings.sizeTolerance := by
  unfold Steady relativeChange
  rw [ite_iff_or (· ≤ settings.sizeTolerance)]

namespace Tracker

variable {settings : TouchSettings α} {candidates : List (Candidate α)}
  {frames : List (List (Candidate α))} {i : Nat} {contact : Contact α}
  {chain before : List (Contact α)}

/-! ## Steady frames -/

/-- The number of contacts of a chain, given the latest first, since the size last jumped. -/
def steadyFrames (settings : TouchSettings α) : List (Contact α) → Nat
  | [] => 0
  | [_] => 1
  | new :: old :: rest =>
    if new.Steady settings old then steadyFrames settings (old :: rest) + 1 else 1

theorem le_steadyFrames_iff {n : Nat} :
    n ≤ steadyFrames settings chain ↔
      n ≤ chain.length ∧ (chain.take n).IsChain (Contact.Steady settings) := by
  induction chain generalizing n with
  | nil => simp [steadyFrames]
  | cons new rest ih =>
    rcases n with _ | _ | n
    · simp
    · have hpos : 0 < steadyFrames settings (new :: rest) := by
        cases rest with
        | nil => exact Nat.one_pos
        | cons old rest =>
          simp only [steadyFrames]
          split_ifs <;> omega
      simp [Nat.succ_le_iff, hpos]
    cases rest with
    | nil => simp [steadyFrames]
    | cons old rest =>
      have hrest := @ih (n + 1)
      simp only [steadyFrames, List.length_cons, List.take_succ_cons, List.isChain_cons_cons]
        at hrest ⊢
      split_ifs with hsteady
      · rw [Nat.add_le_add_iff_right, hrest]
        simp [hsteady]
      · simp [hsteady]

/-! ## Counts -/

theorem toNat_streak_advance (u : Track α) (c : Candidate α) :
    (u.advance settings c).streak.toNat =
      if relativeChange u.major c.major ≤ settings.sizeTolerance then
        min (UInt32.size - 1) (u.streak.toNat + 1)
      else 1 := by
  have hlt := u.streak.toNat_lt
  unfold Track.advance
  split_ifs with hsteady hfull
  · rw [hfull]
    rfl
  · have hne : u.streak.toNat ≠ UInt32.size - 1 := fun h => hfull (UInt32.toNat_inj.mp h)
    rw [UInt32.toNat_add]
    simp only [UInt32.size, UInt32.toNat_one] at *
    omega
  · rfl

/-- A track has the size of the latest contact of a chain and counts the frames since the last jump.
The contact is stable if the count is large enough. -/
structure Counts (settings : TouchSettings α) (chain : List (Contact α)) (u : Track α) : Prop where
  streak : u.streak.toNat = min (UInt32.size - 1) (steadyFrames settings chain)
  latest : ∃ contact before, chain = contact :: before ∧ contact.major = u.major ∧
    (contact.stable = true ↔ settings.stabilityFrames ≤ u.streak)

theorem counts_start (id : Nat) (c : Candidate α) :
    Counts settings [((Track.start id c).judge settings c).2]
      ((Track.start id c).judge settings c).1 where
  streak := rfl
  latest := ⟨_, [], rfl, rfl, decide_eq_true_iff⟩

/-- **One match.** A matched track counts one frame more, or starts to count again. -/
theorem Counts.next {u : Track α} (h : Counts settings chain u) (c : Candidate α) :
    Counts settings (((u.advance settings c).judge settings c).2 :: chain)
      ((u.advance settings c).judge settings c).1 where
  streak := by
    obtain ⟨old, rest, rfl, hmajor, -⟩ := h.latest
    have hsteady : ((u.advance settings c).judge settings c).2.Steady settings old ↔
        relativeChange u.major c.major ≤ settings.sizeTolerance := by
      rw [← hmajor]
      exact Contact.steady_iff
    show (u.advance settings c).streak.toNat = _
    simp only [toNat_streak_advance, steadyFrames, hsteady, h.streak]
    split_ifs
    · omega
    · rfl
  latest := ⟨_, chain, rfl, rfl, decide_eq_true_iff⟩

/-- **Along a chain.** The track that a chain has left counts its steady frames. -/
theorem Chain.streak (h : Chain settings frames i chain) :
    ∃ u, (past settings frames).tracks[i]? = some u ∧ Counts settings chain u :=
  h.carries counts_start fun _ _ c hu => hu.next c

theorem Chain.stable_iff (h : Chain settings frames i (contact :: before)) :
    contact.stable = true ↔
      settings.stabilityFrames.toNat ≤ (contact :: before).length ∧
        ((contact :: before).take settings.stabilityFrames.toNat).IsChain
          (Contact.Steady settings) := by
  obtain ⟨u, -, hu⟩ := h.streak
  obtain ⟨_, _, hchain, -, hstable⟩ := hu.latest
  obtain ⟨rfl, rfl⟩ := List.cons.inj hchain
  -- The largest count is not below the number that is asked for, so it does not matter that
  -- counting ends there.
  have hmax := settings.stabilityFrames.toNat_lt
  rw [hstable, UInt32.le_iff_toNat_le, hu.streak, ← le_steadyFrames_iff]
  simp only [UInt32.size]
  omega

/-! ## Resets -/

/-- The action has nothing to do with other settings than these. -/
def Action.Uses (settings : TouchSettings α) : Action α → Prop
  | .update others _ => others = settings
  | .reset => True

/-- The frames of a run since its last reset, the latest first. -/
def sinceReset (actions : List (Action α)) : List (List (Candidate α)) :=
  actions.foldl (fun frames action => match action with
    | .update _ candidates => candidates :: frames
    | .reset => []) []

/-- A tracker knows only of the frames since the last reset. -/
theorem after_eq_past {actions : List (Action α)} (h : ∀ a ∈ actions, a.Uses settings) :
    after actions = past settings (sinceReset actions) := by
  induction actions using List.reverseRecOn with
  | nil => rfl
  | append_singleton actions action ih =>
    obtain ⟨hactions, haction⟩ := List.forall_mem_append.mp h
    have haction := haction action (List.mem_singleton_self action)
    unfold after sinceReset
    rw [List.foldl_append, List.foldl_append]
    cases action with
    | update others candidates =>
      obtain rfl : others = settings := haction
      show ((after actions).update others candidates).1 =
        past others (candidates :: sinceReset actions)
      rw [past_cons, ih hactions]
    | reset => rfl

/-! ## Stability -/

/-- **Stability.** However often a tracker was reset, every contact that an update reports has one
chain, which leads back through the matching over the frames since the last reset. The contact is
stable just if the chain covers as many frames as the settings ask for and the size did not jump
between any two of them. Other contacts do not matter, nor do earlier ones of the same identity, and
there is no run so long that a count runs over. -/
theorem stable_iff_steady_chain (settings : TouchSettings α) (actions : List (Action α))
    (hactions : ∀ a ∈ actions, a.Uses settings) (candidates : List (Candidate α)) (i : Nat)
    (contact : Contact α)
    (h : ((after actions).update settings candidates).2[i]? = some contact) :
    ∃ before, Chain settings (candidates :: sinceReset actions) i (contact :: before) ∧
      (∀ chain, Chain settings (candidates :: sinceReset actions) i chain →
        chain = contact :: before) ∧
      (∀ c ∈ before, c.id = contact.id) ∧
      (contact.stable = true ↔
        settings.stabilityFrames.toNat ≤ (contact :: before).length ∧
          ((contact :: before).take settings.stabilityFrames.toNat).IsChain
            (Contact.Steady settings)) := by
  rw [after_eq_past hactions] at h
  obtain ⟨before, hchain⟩ := exists_chain h
  exact ⟨before, hchain, fun chain => hchain.unique, hchain.verdict.1, hchain.stable_iff⟩

/-- A contact is stable in its second frame after a reset, if two frames are asked for; it is not if
the size jumped, nor if there was no size before. -/
theorem stable_iff_steady_chain_reset :
    let settings : TouchSettings Float := { TouchSettings.relative with stabilityFrames := 2 }
    let finger : Candidate Float :=
      { mean := ⟨0.5, 0.5⟩, major := 0.05, minor := 0.05, orientation := 0.0 }
    let large : Candidate Float := { finger with major := 0.3 }
    let flat : Candidate Float := { finger with major := 0.0 }
    let report (actions : List (Action Float)) :=
      ((after actions).update settings [finger]).2[0]?.map (·.stable)
    report [.update settings [large], .reset, .update settings [finger]] = some true ∧
      report [.update settings [large]] = some false ∧
      report [.update settings [flat]] = some false := by
  intro settings finger large flat report
  have hpair : ∀ (old : Candidate Float) (actions : List (Action Float)),
      (∀ a ∈ actions, a.Uses settings) → sinceReset actions = [[old]] →
      old.mean.distance finger.mean ≤ settings.trackingDistance →
      ∃ x y : Contact Float, x.toCandidate = old ∧ y.toCandidate = finger ∧
        report actions = some y.stable ∧ (y.stable = true ↔ y.Steady settings x) := by
    intro old actions hactions hsince hdistance
    obtain ⟨x, y, hx, hy, hchain⟩ := exists_chain_of_lone settings old finger hdistance
    have hcontact : ((after actions).update settings [finger]).2[0]? = some y := by
      rw [after_eq_past hactions, hsince]
      cases hchain with
      | next hcontact => exact hcontact
    obtain ⟨before, -, hunique, -, hstable⟩ :=
      stable_iff_steady_chain settings actions hactions [finger] 0 y hcontact
    rw [hsince] at hunique
    rw [← hunique _ hchain] at hstable
    refine ⟨x, y, hx, hy, congrArg (Option.map _) hcontact, hstable.trans ?_⟩
    rw [and_iff_right (show settings.stabilityFrames.toNat ≤ [y, x].length from Nat.le_refl 2)]
    exact List.isChain_pair
  refine ⟨?_, ?_, ?_⟩
  · obtain ⟨x, y, hx, hy, hreport, hstable⟩ := hpair finger
      [.update settings [large], .reset, .update settings [finger]] (by simp [Action.Uses]) rfl
      (by decide +kernel)
    rw [hreport, hstable.mpr]
    unfold Contact.Steady
    rw [hx, hy]
    decide +kernel
  · obtain ⟨x, y, hx, hy, hreport, hstable⟩ := hpair large
      [.update settings [large]] (by simp [Action.Uses]) rfl (by decide +kernel)
    rw [hreport, Bool.eq_false_iff.mpr (mt hstable.mp _)]
    unfold Contact.Steady
    rw [hx, hy]
    decide +kernel
  · obtain ⟨x, y, hx, hy, hreport, hstable⟩ := hpair flat
      [.update settings [flat]] (by simp [Action.Uses]) rfl (by decide +kernel)
    rw [hreport, Bool.eq_false_iff.mpr (mt hstable.mp _)]
    unfold Contact.Steady
    rw [hx, hy]
    decide +kernel

end Tracker

end PenTouch
