import Mathlib
import PenTouch.Proofs.Pen.Life
import PenTouch.Proofs.Plane.Bearing
import PenTouch.Proofs.Session.Steering

/-!
# Palms at one time

The palms of a frame turn a cone one after the other, all at one time. In exact arithmetic each of
them counts as much as all before it together, so the order in which they are told matters.

1. `turnTo_eq_turnAlong`: what counts of the palms is the unit vectors towards them.
2. `Follows.direction_turnAlong`: within a fan the cone is left at a mean of their bearings in which
   the later ones count more (`runningMean`).
3. `runningMean_swap_iff`: two bearings at the end of a running mean can be exchanged only if they
   are equal.
4. `Follows.orderFree_iff`: so of three palms or more only those of one bearing can be told in any
   order.
-/

namespace PenTouch

open scoped Exact

/-! ## Running means -/

/-- The mean of bearings in which each one counts as much as all before it together: the midpoint of
each one and the mean of those. -/
noncomputable def runningMean (k : ℝ) (bearings : List ℝ) : ℝ :=
  bearings.foldl (midpoint ℝ) k

section RunningMean

variable {k x y lo hi : ℝ} {bearings : List ℝ}

theorem runningMean_mem (hk : k ∈ Set.Icc lo hi) (hmem : ∀ θ ∈ bearings, θ ∈ Set.Icc lo hi) :
    runningMean k bearings ∈ Set.Icc lo hi := by
  induction bearings generalizing k with
  | nil => exact hk
  | cons θ bearings ih =>
    obtain ⟨hθ, hmem⟩ := List.forall_mem_cons.mp hmem
    exact ih ((convex_Icc lo hi).midpoint_mem hk hθ) hmem

theorem runningMean_append_pair :
    runningMean k (bearings ++ [x, y]) = midpoint ℝ (midpoint ℝ (runningMean k bearings) x) y :=
  List.foldl_append

theorem runningMean_swap_iff :
    runningMean k (bearings ++ [x, y]) = runningMean k (bearings ++ [y, x]) ↔ x = y := by
  simp only [runningMean_append_pair, Vector2.midpoint_eq]
  constructor
  · intro h
    linarith
  · rintro rfl
    rfl

end RunningMean

/-! ## Lists in any order -/

section Perm

variable {β γ : Type} {l : List β}

/-- What a list is mapped to can be put in any order by putting the list itself in some order. -/
theorem exists_perm_filterMap {f : β → Option γ} {m : List γ} (h : (l.filterMap f).Perm m) :
    ∃ l', l.Perm l' ∧ l'.filterMap f = m := by
  -- The wanted order is followed: what its head comes from is taken out of the list.
  induction m generalizing l with
  | nil => exact ⟨l, List.Perm.refl l, h.eq_nil⟩
  | cons b m ih =>
    obtain ⟨a, ha, hb⟩ := List.mem_filterMap.mp (h.mem_iff.mpr List.mem_cons_self)
    obtain ⟨s, t, rfl⟩ := List.append_of_mem ha
    have hfront : (s ++ a :: t).Perm (a :: (s ++ t)) := List.perm_middle
    have hrest : ((s ++ t).filterMap f).Perm m := by
      have hcons := (hfront.filterMap f).symm.trans h
      rw [List.filterMap_cons_some hb] at hcons
      exact hcons.cons_inv
    obtain ⟨l', hl', hm⟩ := ih hrest
    exact ⟨a :: l', hfront.trans (hl'.cons a), by rw [List.filterMap_cons_some hb, hm]⟩

theorem exists_perm_append_pair {x y : β} (hx : x ∈ l) (hy : y ∈ l) (hxy : x ≠ y) :
    ∃ rest, l.Perm (rest ++ [x, y]) := by
  classical
  have hy' : y ∈ l.erase x := (List.mem_erase_of_ne hxy.symm).mpr hy
  have hfront : l.Perm ([x, y] ++ (l.erase x).erase y) :=
    (List.perm_cons_erase hx).trans ((List.perm_cons_erase hy').cons x)
  exact ⟨_, hfront.trans List.perm_append_comm⟩

end Perm

namespace Cone

open Vector2 (ofAngle Fan)

/-! ## Unit vectors -/

section Units

variable {α : Type} [Scalar α] {c : Cone α} {o : Stamped (Point α)} {palms : List (Point α)}
  {now : Time}

/-- The unit vectors from a point towards palms. A palm that is too near has none. -/
def towards (o : Point α) (palms : List (Point α)) : List (Vector2 α) :=
  palms.filterMap fun p => (p - o : Vector2 α).normalized?

/-- The cone turned along a unit vector. -/
def aim (c : Cone α) (u : Vector2 α) (now : Time) : Cone α :=
  { c with direction := some ⟨c.blend u now, now⟩ }

/-- The cone turned along each of the unit vectors in turn, at one time. -/
def turnAlong (c : Cone α) (units : List (Vector2 α)) (now : Time) : Cone α :=
  units.foldl (fun c u => c.aim u now) c

/-- The palms leave the cone with one direction in whatever order it is told of them. -/
def OrderFree (c : Cone α) (palms : List (Point α)) (now : Time) : Prop :=
  ∀ palms', palms.Perm palms' → (c.turnTo palms' now).direction = (c.turnTo palms now).direction

theorem turnTo_eq_turnAlong (ho : c.origin = some o) :
    c.turnTo palms now = c.turnAlong (towards o.value palms) now := by
  induction palms generalizing c with
  | nil => rfl
  | cons p palms ih =>
    show (c.updateDirection p now).turnTo palms now = _
    cases hp : (p - o.value : Vector2 α).normalized? with
    | none =>
      have hsame : c.updateDirection p now = c := by
        unfold updateDirection
        rw [ho, Option.bind_some, hp]
      rw [hsame, towards, List.filterMap_cons, hp]
      exact ih ho
    | some u =>
      rw [updateDirection_of_normalized ho hp, towards, List.filterMap_cons, hp]
      exact ih ho

theorem orderFree_iff (ho : c.origin = some o) :
    c.OrderFree palms now ↔ ∀ units, (towards o.value palms).Perm units →
      (c.turnAlong units now).direction = (c.turnAlong (towards o.value palms) now).direction := by
  unfold OrderFree
  constructor
  · intro h units hperm
    obtain ⟨palms', hpalms, rfl⟩ := exists_perm_filterMap hperm
    have hdirection := h palms' hpalms
    rwa [turnTo_eq_turnAlong ho, turnTo_eq_turnAlong ho] at hdirection
  · intro h palms' hperm
    rw [turnTo_eq_turnAlong ho, turnTo_eq_turnAlong ho]
    exact h _ (hperm.filterMap _)

/-- Palms that all lie in one direction can be told in any order. -/
theorem orderFree_of_forall_eq (ho : c.origin = some o)
    (h : ∀ u ∈ towards o.value palms, ∀ v ∈ towards o.value palms, u = v) :
    c.OrderFree palms now := by
  refine (orderFree_iff ho).mpr fun units hperm => ?_
  generalize towards o.value palms = units' at h hperm
  cases units' with
  | nil => rw [hperm.nil_eq]
  | cons u units' =>
    have hsame : u :: units' = List.replicate (units'.length + 1) u :=
      List.eq_replicate_iff.mpr ⟨rfl, fun v hv => h v hv u List.mem_cons_self⟩
    rw [hsame] at hperm ⊢
    rw [List.replicate_perm.mp hperm]

end Units

/-! ## Weights -/

section Exact

variable {c : Cone ℝ} {o : Stamped (Point ℝ)} {d : Stamped (Vector2 ℝ)} {palms : List (Point ℝ)}
  {now : Time}

theorem seconds_nonneg (s : Span) : (0 : ℝ) ≤ s.seconds := by
  show (0 : ℝ) ≤ ((s / 1000000000 : ℕ) : ℝ) + ((s % 1000000000 : ℕ) : ℝ) / 1e9
  positivity

theorem weight_nonneg (c : Cone ℝ) (age : Span) : 0 ≤ c.weight age := by
  show (0 : ℝ) ≤ (0.5 : ℝ) ^ ((age.seconds : ℝ) / c.halfLife.seconds)
  positivity

theorem weight_le_one (c : Cone ℝ) (age : Span) : c.weight age ≤ 1 :=
  Real.rpow_le_one (by norm_num) (by norm_num)
    (div_nonneg (seconds_nonneg age) (seconds_nonneg c.halfLife))

theorem weight_zero (c : Cone ℝ) : c.weight 0 = 1 := by
  have hzero : Span.seconds 0 = (0 : ℝ) := by
    show ((0 : ℕ) : ℝ) + ((0 : ℕ) : ℝ) / 1e9 = 0
    norm_num
  show (0.5 : ℝ) ^ (Span.seconds 0 / c.halfLife.seconds : ℝ) = 1
  rw [hzero, zero_div, Real.rpow_zero]

theorem blend_at_once {v : Vector2 ℝ} (hd : c.direction = some ⟨v, now⟩) (u : Vector2 ℝ) :
    c.blend u now = (v + u).normalized?.getD u := by
  have hscale : v.scale 1 = v := by
    show (⟨v.x * 1, v.y * 1⟩ : Vector2 ℝ) = v
    rw [mul_one, mul_one]
  unfold blend
  rw [hd]
  dsimp only
  rw [Stamped.age, Nat.sub_self, weight_zero, hscale]

/-! ## Two palms -/

theorem norm_of_mem_towards {o : Point ℝ} {u : Vector2 ℝ} (hu : u ∈ towards o palms) :
    u.norm = 1 := by
  obtain ⟨p, -, hp⟩ := List.mem_filterMap.mp hu
  exact Vector2.norm_of_normalized? hp

theorem direction_turnAlong_pair (hd : c.direction = none) (u v : Vector2 ℝ) :
    (c.turnAlong [u, v] now).direction = some ⟨(u + v).normalized?.getD v, now⟩ := by
  have hfirst : (c.aim u now).direction = some ⟨u, now⟩ := by
    unfold aim blend
    rw [hd]
  show some (⟨(c.aim u now).blend v now, now⟩ : Stamped (Vector2 ℝ)) = _
  rw [blend_at_once hfirst]

theorem orderFree_pair_iff (ho : c.origin = some o) (hd : c.direction = none) {u v : Vector2 ℝ}
    (huv : towards o.value palms = [u, v]) :
    c.OrderFree palms now ↔ Scalar.epsilon < (u + v).norm := by
  have hcomm : v + u = u + v := Vector2.add_comm v u
  rw [orderFree_iff ho, huv]
  constructor
  · intro h
    by_contra hshort
    have hnone : (u + v).normalized? = none :=
      Option.eq_none_iff_forall_not_mem.mpr fun w hw =>
        hshort (Vector2.normalized?_eq_some.mp hw).1
    have hswap := h [v, u] (List.Perm.swap v u [])
    rw [direction_turnAlong_pair hd, direction_turnAlong_pair hd, hcomm, hnone] at hswap
    obtain rfl : u = v := congrArg Stamped.value (Option.some.inj hswap)
    have hu : u.norm = 1 := norm_of_mem_towards (huv ▸ List.mem_cons_self)
    rw [Vector2.add_self, Vector2.normalized?_scale hu two_pos,
      if_pos (Scalar.epsilon_lt_one.trans one_lt_two)] at hnone
    exact Option.some_ne_none _ hnone
  · intro hlong units hperm
    rcases List.pair_perm.mp hperm with rfl | rfl
    · rfl
    · obtain ⟨w, hw⟩ : ∃ w, (u + v).normalized? = some w :=
        ⟨_, Vector2.normalized?_eq_some.mpr ⟨hlong, rfl⟩⟩
      rw [direction_turnAlong_pair hd, direction_turnAlong_pair hd, hcomm, hw]
      rfl

/-! ## Fans -/

variable {lo hi : ℝ} {turned : ℝ → ℝ} {bearings bearings' : List ℝ}

/-- The direction of the cone, if it has one, has a bearing within the fan. -/
def Within (c : Cone ℝ) (lo hi : ℝ) : Prop :=
  ∀ d, c.direction = some d → ∃ m ∈ Set.Icc lo hi, d.value = ofAngle m

/-- A palm at a bearing within the fan turns the cone to another such bearing. -/
def Follows (c : Cone ℝ) (lo hi : ℝ) (now : Time) (turned : ℝ → ℝ) : Prop :=
  ∀ θ ∈ Set.Icc lo hi, turned θ ∈ Set.Icc lo hi ∧ c.blend (ofAngle θ) now = ofAngle (turned θ)

theorem exists_follows (h : Fan lo hi) (hc : c.Within lo hi) (now : Time) :
    ∃ turned, c.Follows lo hi now turned := by
  have hblend : ∀ θ ∈ Set.Icc lo hi,
      ∃ k, k ∈ Set.Icc lo hi ∧ c.blend (ofAngle θ) now = ofAngle k := by
    intro θ hθ
    unfold blend
    cases hd : c.direction with
    | none => exact ⟨θ, hθ, rfl⟩
    | some d =>
      obtain ⟨m, hm, hvalue⟩ := hc d hd
      dsimp only
      rw [hvalue]
      exact h.exists_blend hm hθ (c.weight_nonneg _) (c.weight_le_one _)
  choose! turned hturned using hblend
  exact ⟨turned, hturned⟩

theorem Follows.eq_self (hfollows : c.Follows lo hi now turned) (h : Fan lo hi)
    (hd : c.direction = none) {θ : ℝ} (hθ : θ ∈ Set.Icc lo hi) : turned θ = θ := by
  obtain ⟨hmem, hblend⟩ := hfollows θ hθ
  refine (h.ofAngle_inj hmem hθ).mp ?_
  rw [← hblend]
  unfold blend
  rw [hd]

theorem direction_turnAlong_of_now (h : Fan lo hi) {k : ℝ} (hk : k ∈ Set.Icc lo hi)
    (hmem : ∀ θ ∈ bearings, θ ∈ Set.Icc lo hi) (hd : c.direction = some ⟨ofAngle k, now⟩) :
    (c.turnAlong (bearings.map ofAngle) now).direction =
      some ⟨ofAngle (runningMean k bearings), now⟩ := by
  induction bearings generalizing c k with
  | nil => exact hd
  | cons θ bearings ih =>
    obtain ⟨hθ, hmem⟩ := List.forall_mem_cons.mp hmem
    refine ih ((convex_Icc lo hi).midpoint_mem hk hθ) hmem ?_
    show some (⟨c.blend (ofAngle θ) now, now⟩ : Stamped (Vector2 ℝ)) = _
    rw [blend_at_once hd, h.normalized?_add hk hθ, Option.getD_some]

/-- **Running means.** The first palm turns the cone, and each one after it counts as much as all
before it together. -/
theorem Follows.direction_turnAlong (hfollows : c.Follows lo hi now turned) (h : Fan lo hi) {θ : ℝ}
    (hmem : ∀ φ ∈ θ :: bearings, φ ∈ Set.Icc lo hi) :
    (c.turnAlong ((θ :: bearings).map ofAngle) now).direction =
      some ⟨ofAngle (runningMean (turned θ) bearings), now⟩ := by
  obtain ⟨hθ, hmem⟩ := List.forall_mem_cons.mp hmem
  obtain ⟨hk, hblend⟩ := hfollows θ hθ
  refine direction_turnAlong_of_now h hk hmem ?_
  show some (⟨c.blend (ofAngle θ) now, now⟩ : Stamped (Vector2 ℝ)) = _
  rw [hblend]

theorem Follows.direction_inj (hfollows : c.Follows lo hi now turned) (h : Fan lo hi) {θ φ : ℝ}
    (hmem : ∀ x ∈ θ :: bearings, x ∈ Set.Icc lo hi)
    (hmem' : ∀ x ∈ φ :: bearings', x ∈ Set.Icc lo hi) :
    (c.turnAlong ((θ :: bearings).map ofAngle) now).direction =
        (c.turnAlong ((φ :: bearings').map ofAngle) now).direction ↔
      runningMean (turned θ) bearings = runningMean (turned φ) bearings' := by
  rw [hfollows.direction_turnAlong h hmem, hfollows.direction_turnAlong h hmem']
  obtain ⟨hθ, hmem⟩ := List.forall_mem_cons.mp hmem
  obtain ⟨hφ, hmem'⟩ := List.forall_mem_cons.mp hmem'
  rw [Option.some_inj, Stamped.mk.injEq, and_iff_left rfl]
  exact h.ofAngle_inj (runningMean_mem (hfollows θ hθ).1 hmem)
    (runningMean_mem (hfollows φ hφ).1 hmem')

/-- Any two orders that begin with a palm leave one running mean. -/
theorem Follows.runningMean_eq (hfollows : c.Follows lo hi now turned) (h : Fan lo hi)
    (ho : c.origin = some o) (hmem : ∀ θ ∈ bearings, θ ∈ Set.Icc lo hi)
    (hpalms : towards o.value palms = bearings.map ofAngle) (hfree : c.OrderFree palms now)
    {θ φ : ℝ} {θs φs : List ℝ} (hθ : bearings.Perm (θ :: θs)) (hφ : bearings.Perm (φ :: φs)) :
    runningMean (turned θ) θs = runningMean (turned φ) φs := by
  have hdirection : ∀ {l}, bearings.Perm l → (c.turnAlong (l.map ofAngle) now).direction =
      (c.turnAlong (bearings.map ofAngle) now).direction := by
    intro l hl
    rw [← hpalms]
    refine (Cone.orderFree_iff ho).mp hfree _ ?_
    rw [hpalms]
    exact hl.map ofAngle
  refine (hfollows.direction_inj h (fun x hx => hmem x (hθ.mem_iff.mpr hx))
    (fun x hx => hmem x (hφ.mem_iff.mpr hx))).mp ?_
  rw [hdirection hθ, hdirection hφ]

theorem Follows.orderFree_pair (hfollows : c.Follows lo hi now turned) (h : Fan lo hi)
    (ho : c.origin = some o) {x y : ℝ} (hmem : ∀ θ ∈ [x, y], θ ∈ Set.Icc lo hi)
    (hpalms : towards o.value palms = [x, y].map ofAngle) (hxy : turned x - x = turned y - y) :
    c.OrderFree palms now := by
  refine (Cone.orderFree_iff ho).mpr fun units hperm => ?_
  rw [hpalms] at hperm ⊢
  rcases List.pair_perm.mp hperm with rfl | rfl
  · rfl
  · have hmem' : ∀ θ ∈ [y, x], θ ∈ Set.Icc lo hi :=
      fun θ hθ => hmem θ ((List.Perm.swap x y []).mem_iff.mp hθ)
    exact (hfollows.direction_inj h hmem' hmem).mpr (Vector2.midpoint_swap_iff.mpr hxy.symm)

/-- **Order.** Palms within a fan can be told in any order if they have one bearing, or if they are
two that the direction of the cone draws back equally far. No others can. -/
theorem Follows.orderFree_iff (hfollows : c.Follows lo hi now turned) (h : Fan lo hi)
    (ho : c.origin = some o) (hmem : ∀ θ ∈ bearings, θ ∈ Set.Icc lo hi)
    (hpalms : towards o.value palms = bearings.map ofAngle) :
    c.OrderFree palms now ↔ (∀ x ∈ bearings, ∀ y ∈ bearings, x = y) ∨
      bearings.length = 2 ∧ ∀ x ∈ bearings, ∀ y ∈ bearings, turned x - x = turned y - y := by
  constructor
  · intro hfree
    refine or_iff_not_imp_left.mpr fun hdiffer => ?_
    push Not at hdiffer
    obtain ⟨x, hx, y, hy, hxy⟩ := hdiffer
    obtain ⟨rest, hrest⟩ := exists_perm_append_pair hx hy hxy
    have hswap : bearings.Perm (rest ++ [y, x]) :=
      hrest.trans ((List.Perm.swap y x []).append_left rest)
    cases rest with
    | nil =>
      have hturned : turned x - x = turned y - y :=
        Vector2.midpoint_swap_iff.mp (hfollows.runningMean_eq h ho hmem hpalms hfree hrest hswap)
      have hpair : ∀ a ∈ bearings, turned a - a = turned x - x := by
        intro a ha
        rcases List.mem_pair.mp (hrest.mem_iff.mp ha) with rfl | rfl
        · rfl
        · exact hturned.symm
      exact ⟨hrest.length_eq, fun a ha b hb => (hpair a ha).trans (hpair b hb).symm⟩
    | cons r rest =>
      -- Another palm can go first, so that the two only differ in how late they are told.
      exact absurd (runningMean_swap_iff.mp
        (hfollows.runningMean_eq h ho hmem hpalms hfree hrest hswap)) hxy
  · rintro (hsame | ⟨hlength, hturned⟩)
    · refine orderFree_of_forall_eq ho fun u hu v hv => ?_
      rw [hpalms] at hu hv
      obtain ⟨x, hx, rfl⟩ := List.mem_map.mp hu
      obtain ⟨y, hy, rfl⟩ := List.mem_map.mp hv
      rw [hsame x hx y hy]
    · obtain ⟨x, y, rfl⟩ := List.length_eq_two.mp hlength
      exact hfollows.orderFree_pair h ho hmem hpalms
        (hturned x List.mem_cons_self y (List.mem_cons_of_mem x List.mem_cons_self))

/-- **Palms at one time.** Palms in one direction can be told in any order. Two palms turn a cone
that has no direction halfway between them, in either order unless they cancel, up to
`Scalar.epsilon`. Within a fan, which is narrower than half a turn by more than that
(`Fan.epsilon_lt`), the cone is left at the running mean, and the order is free just for palms of
one bearing and for two that its direction draws back equally far. -/
theorem simultaneous_palms_average (c : Cone ℝ) (o : Stamped (Point ℝ)) (ho : c.origin = some o)
    (palms : List (Point ℝ)) (now : Time) :
    let units := towards o.value palms
    ((∀ u ∈ units, ∀ v ∈ units, u = v) → c.OrderFree palms now) ∧
      (∀ u v, c.direction = none → units = [u, v] →
        (c.turnTo palms now).direction = some ⟨(u + v).normalized?.getD v, now⟩ ∧
          (c.OrderFree palms now ↔ Scalar.epsilon < (u + v).norm)) ∧
      ∀ lo hi bearings, Fan lo hi → c.Within lo hi → (∀ θ ∈ bearings, θ ∈ Set.Icc lo hi) →
        units = bearings.map ofAngle →
          ∃ turned, c.Follows lo hi now turned ∧
            (c.direction = none → ∀ θ ∈ bearings, turned θ = θ) ∧
            (∀ θ θs, bearings = θ :: θs → (c.turnTo palms now).direction =
              some ⟨ofAngle (runningMean (turned θ) θs), now⟩) ∧
            (c.OrderFree palms now ↔ (∀ x ∈ bearings, ∀ y ∈ bearings, x = y) ∨
              bearings.length = 2 ∧
                ∀ x ∈ bearings, ∀ y ∈ bearings, turned x - x = turned y - y) := by
  intro units
  refine ⟨orderFree_of_forall_eq ho, fun u v hd huv => ⟨?_, orderFree_pair_iff ho hd huv⟩, ?_⟩
  · rw [turnTo_eq_turnAlong ho, show towards o.value palms = [u, v] from huv]
    exact direction_turnAlong_pair hd u v
  · intro lo hi bearings h hwithin hmem hunits
    obtain ⟨turned, hfollows⟩ := exists_follows h hwithin now
    refine ⟨turned, hfollows, fun hd θ hθ => hfollows.eq_self h hd (hmem θ hθ), ?_,
      hfollows.orderFree_iff h ho hmem hunits⟩
    rintro θ θs rfl
    rw [turnTo_eq_turnAlong ho, show towards o.value palms = _ from hunits]
    exact hfollows.direction_turnAlong h hmem

/-- A palm at a bearing, at least one unit away. -/
theorem towards_cons {p : Point ℝ} {θ r : ℝ} {o : Point ℝ} (hr : 1 ≤ r)
    (hp : (p - o : Vector2 ℝ) = (ofAngle θ).scale r) :
    towards o (p :: palms) = ofAngle θ :: towards o palms := by
  refine List.filterMap_cons_some ?_
  rw [hp, Vector2.normalized?_scale (Vector2.norm_ofAngle θ) (one_pos.trans_le hr),
    if_pos (Scalar.epsilon_lt_one.trans_le hr)]

/-- Palms to the east can be told in any order, and so can two at a right angle. With a third one in
the direction of the first, the order matters. -/
theorem simultaneous_palms_average_right_angle :
    let c : Cone ℝ :=
      { angleCos := 0, distance := 50, timeout := 1000, halfLife := 1000,
        origin := some ⟨⟨0, 0⟩, 0⟩ }
    let east : Point ℝ := ⟨10, 0⟩
    let north : Point ℝ := ⟨0, 10⟩
    c.OrderFree [east, ⟨20, 0⟩, east] 5 ∧ c.OrderFree [east, north] 5 ∧
      ¬c.OrderFree [east, north, east] 5 ∧
      (c.turnTo [east, north, east] 5).direction = some ⟨ofAngle (Real.pi / 8), 5⟩ := by
  intro c east north
  have heast : ∀ x palms, 1 ≤ x →
      towards ⟨0, 0⟩ (⟨x, 0⟩ :: palms) = ofAngle 0 :: towards ⟨0, 0⟩ palms :=
    fun x palms hx => towards_cons hx (by simp [ofAngle, Vector2.scale])
  have hnorth : ∀ palms,
      towards ⟨0, 0⟩ (north :: palms) = ofAngle (Real.pi / 2) :: towards ⟨0, 0⟩ palms :=
    fun palms => towards_cons (r := 10) (by norm_num) (by simp [north, ofAngle, Vector2.scale])
  have hzero : (0 : ℝ) ∈ Set.Icc 0 (Real.pi / 2) := ⟨le_rfl, by positivity⟩
  have hright : Real.pi / 2 ∈ Set.Icc 0 (Real.pi / 2) := ⟨by positivity, le_rfl⟩
  have hfan : Fan 0 (Real.pi / 2) := by
    refine ⟨by linarith [Real.pi_pos], ?_⟩
    rw [show (Real.pi / 2 - 0) / 2 = Real.pi / 4 by ring, Real.cos_pi_div_four,
      mul_div_cancel₀ _ two_ne_zero]
    exact Scalar.epsilon_lt_one.trans Real.one_lt_sqrt_two
  have hwithin : c.Within 0 (Real.pi / 2) := nofun
  obtain ⟨hone, -, -⟩ := simultaneous_palms_average c ⟨⟨0, 0⟩, 0⟩ rfl [east, ⟨20, 0⟩, east] 5
  obtain ⟨-, htwo, -⟩ := simultaneous_palms_average c ⟨⟨0, 0⟩, 0⟩ rfl [east, north] 5
  obtain ⟨-, -, hthree⟩ := simultaneous_palms_average c ⟨⟨0, 0⟩, 0⟩ rfl [east, north, east] 5
  obtain ⟨turned, -, hturned, hmean, hfree⟩ := hthree 0 (Real.pi / 2) [0, Real.pi / 2, 0] hfan
    hwithin
    (List.forall_mem_cons.mpr ⟨hzero, List.forall_mem_cons.mpr
      ⟨hright, List.forall_mem_singleton.mpr hzero⟩⟩)
    (by rw [heast _ _ (by norm_num), hnorth, heast _ _ (by norm_num)]; rfl)
  have hpair : Scalar.epsilon < (ofAngle 0 + ofAngle (Real.pi / 2)).norm :=
    (Vector2.normalized?_eq_some.mp (hfan.normalized?_add hzero hright)).1
  refine ⟨hone ?_, (htwo _ _ rfl ?_).2.mpr hpair, ?_, ?_⟩
  · rw [heast _ _ (by norm_num), heast _ _ (by norm_num), heast _ _ (by norm_num)]
    simp [towards]
  · rw [heast _ _ (by norm_num), hnorth]
    rfl
  · rw [hfree]
    rintro (hsame | ⟨hlength, -⟩)
    · have hpi : 0 = Real.pi / 2 := hsame 0 (by simp) (Real.pi / 2) (by simp)
      exact Real.pi_div_two_pos.ne hpi
    · exact absurd hlength (by decide)
  · rw [hmean 0 [Real.pi / 2, 0] rfl, hturned rfl 0 List.mem_cons_self]
    have hmean : runningMean 0 [Real.pi / 2, 0] = Real.pi / 8 := by
      show midpoint ℝ (midpoint ℝ 0 (Real.pi / 2)) 0 = Real.pi / 8
      rw [Vector2.midpoint_eq, Vector2.midpoint_eq]
      ring
    rw [hmean]

/-- Three palms, the second one halfway between the others, whose order matters: only if it is told
last is the cone left in its direction. -/
theorem three_palms_in_two_orders :
    ¬∀ (c : Cone ℝ) (o : Stamped (Point ℝ)), c.origin = some o →
      ∀ (palms palms' : List (Point ℝ)) (now : Time), palms.Perm palms' →
        (c.turnTo palms' now).direction = (c.turnTo palms now).direction := by
  intro h
  let c : Cone ℝ :=
    { angleCos := 0, distance := 100, timeout := 1000, halfLife := 1000,
      origin := some ⟨⟨0, 0⟩, 0⟩ }
  let above : Point ℝ := ⟨3, 4⟩
  let ahead : Point ℝ := ⟨1, 0⟩
  let below : Point ℝ := ⟨3, -4⟩
  have hperm : [above, ahead, below].Perm [above, below, ahead] :=
    (List.Perm.swap below ahead []).cons above
  have hsame := h c ⟨⟨0, 0⟩, 0⟩ rfl _ _ 0 hperm
  obtain ⟨θ, hθ⟩ : ∃ θ, θ = Real.arccos (3 / 5) := ⟨_, rfl⟩
  have hpos : 0 < θ := hθ ▸ Real.arccos_pos.mpr (by norm_num)
  have hacute : θ ≤ Real.pi / 2 := hθ ▸ Real.arccos_le_pi_div_two.mpr (by norm_num)
  have hcos : Real.cos θ = 3 / 5 := hθ ▸ Real.cos_arccos (by norm_num) (by norm_num)
  have hsin : Real.sin θ = 4 / 5 := by
    rw [hθ, Real.sin_arccos, show (1 : ℝ) - (3 / 5) ^ 2 = (4 / 5) ^ 2 by norm_num,
      Real.sqrt_sq (by norm_num)]
  have habove : ∀ palms, towards ⟨0, 0⟩ (above :: palms) = ofAngle θ :: towards ⟨0, 0⟩ palms :=
    fun palms => towards_cons (r := 5) (by norm_num)
      (by simp [above, ofAngle, Vector2.scale, hcos, hsin])
  have hahead : ∀ palms, towards ⟨0, 0⟩ (ahead :: palms) = ofAngle 0 :: towards ⟨0, 0⟩ palms :=
    fun palms => towards_cons le_rfl (by simp [ahead, ofAngle, Vector2.scale])
  have hbelow : ∀ palms, towards ⟨0, 0⟩ (below :: palms) = ofAngle (-θ) :: towards ⟨0, 0⟩ palms :=
    fun palms => towards_cons (r := 5) (by norm_num)
      (by simp [below, ofAngle, Vector2.scale, hcos, hsin])
  have hfan : Fan (-θ) θ := by
    refine ⟨by linarith, ?_⟩
    rw [show (θ - -θ) / 2 = θ by ring, hcos]
    exact Scalar.epsilon_lt_one.trans (by norm_num)
  have hfollows : c.Follows (-θ) θ 0 id := fun φ hφ => ⟨hφ, rfl⟩
  have hmem : ∀ φ ∈ [θ, -θ, 0], φ ∈ Set.Icc (-θ) θ := by
    simp [hpos.le]
  have hmem' : ∀ φ ∈ [θ, 0, -θ], φ ∈ Set.Icc (-θ) θ := by
    simp [hpos.le]
  rw [turnTo_eq_turnAlong (o := ⟨⟨0, 0⟩, 0⟩) rfl, turnTo_eq_turnAlong (o := ⟨⟨0, 0⟩, 0⟩) rfl,
    habove, hbelow, hahead, habove, hahead, hbelow] at hsame
  have hmean : runningMean θ ([] ++ [-θ, 0]) = runningMean θ ([] ++ [0, -θ]) :=
    (hfollows.direction_inj hfan hmem hmem').mp hsame
  have hzero : -θ = 0 := runningMean_swap_iff.mp hmean
  linarith

end Exact

end Cone

end PenTouch
