import Mathlib
import PenTouch.Proofs.Pen.Life
import PenTouch.Proofs.Plane.Euclidean

/-!
# The sector of a cone

In exact arithmetic a cone rejects the points of a sector of the Euclidean plane (`InSector`): those
that are not at the tip, not beyond the reach, and less than the half-width away from the direction.

1. `Directed.after`: whatever a cone is told, its direction is a unit vector.
2. `lt_dot_iff`: so the product with the direction, against the length of the offset, tells the
   angle between them, for half-widths above a right angle too.
3. `after_shaped`: half-width and reach have no part in how a cone is turned.
-/

namespace PenTouch

open scoped Exact
open InnerProductGeometry (angle)

/-! ## Sectors -/

/-- The point is not at the origin, not beyond the reach, and less than the half-width, in degrees,
away from the axis. -/
def InSector (origin : Point ℝ) (axis : Vector2 ℝ) (halfWidth reach : ℝ) (p : Point ℝ) : Prop :=
  0 < origin.distance p ∧ origin.distance p ≤ reach ∧
    angle (p - origin : Vector2 ℝ).euclidean axis.euclidean < halfWidth * (Real.pi / 180)

namespace InSector

variable {origin p : Point ℝ} {axis : Vector2 ℝ} {halfWidth reach halfWidth' reach' s : ℝ}

theorem not_self : ¬InSector origin axis halfWidth reach origin := by
  rintro ⟨hpos, -, -⟩
  exact hpos.ne' origin.distance_self

theorem mono (h : InSector origin axis halfWidth reach p) (hwidth : halfWidth ≤ halfWidth')
    (hreach : reach ≤ reach') : InSector origin axis halfWidth' reach' p := by
  obtain ⟨hpos, hle, hangle⟩ := h
  refine ⟨hpos, hle.trans hreach, hangle.trans_le ?_⟩
  gcongr

/-- A point between the origin and a point of the sector lies in the same direction. -/
theorem between (h : InSector origin axis halfWidth reach p) (hs : 0 < s) (hs' : s < 1) :
    InSector origin axis halfWidth reach (origin + (p - origin : Vector2 ℝ).scale s) := by
  obtain ⟨hpos, hle, hangle⟩ := h
  have hdistance : origin.distance (origin + (p - origin : Vector2 ℝ).scale s) =
      s * origin.distance p := by
    rw [Point.distance_eq, Point.add_sub_self, Vector2.euclidean_scale, norm_smul,
      Real.norm_of_nonneg hs.le, ← Point.distance_eq]
  refine ⟨?_, ?_, ?_⟩
  · rw [hdistance]
    positivity
  · rw [hdistance]
    exact (mul_le_of_le_one_left hpos.le hs'.le).trans hle
  · rwa [Point.add_sub_self, Vector2.euclidean_scale,
      InnerProductGeometry.angle_smul_left_of_pos _ _ hs]

end InSector

/-- The cosine falls over the whole half turn, so it tells the angle for wide sectors too. -/
theorem lt_dot_iff {v d : Vector2 ℝ} (hd : d.norm = 1) {θ : ℝ} (hθ : 0 ≤ θ) (hθ' : θ ≤ Real.pi) :
    Real.cos θ * v.norm < v.dot d ↔ 0 < v.norm ∧ angle v.euclidean d.euclidean < θ := by
  have hdot : v.dot d = Real.cos (angle v.euclidean d.euclidean) * v.norm := by
    rw [Vector2.dot_eq, ← InnerProductGeometry.cos_angle_mul_norm_mul_norm, ← Vector2.norm_eq,
      ← Vector2.norm_eq, hd, mul_one]
  have hnonneg : 0 ≤ v.norm := by
    rw [Vector2.norm_eq]
    exact norm_nonneg _
  rw [hdot]
  rcases hnonneg.eq_or_lt with hzero | hpos
  · rw [← hzero, mul_zero, mul_zero]
    exact iff_of_false (lt_irrefl 0) fun h => lt_irrefl 0 h.1
  · rw [mul_lt_mul_iff_left₀ hpos, and_iff_right hpos]
    exact Real.strictAntiOn_cos.lt_iff_gt ⟨hθ, hθ'⟩
      ⟨InnerProductGeometry.angle_nonneg _ _, InnerProductGeometry.angle_le_pi _ _⟩

namespace Cone

/-! ## Half-width and reach -/

section Shape

variable {α : Type} [Scalar α]

/-- The cone with another half-width, given by its cosine, and another reach. -/
def shaped (c : Cone α) (angleCos distance : α) : Cone α := { c with angleCos, distance }

theorem update_shaped (c : Cone α) (angleCos distance : α) (u : Update α) :
    (c.shaped angleCos distance).update u = (c.update u).shaped angleCos distance := by
  cases u with
  | position p time => rfl
  | palm p time =>
    unfold update updateDirection
    dsimp only [shaped]
    split <;> rfl

theorem after_shaped (c : Cone α) (angleCos distance : α) (updates : List (Update α)) :
    (c.shaped angleCos distance).after updates = (c.after updates).shaped angleCos distance := by
  induction updates generalizing c with
  | nil => rfl
  | cons u updates ih =>
    show ((c.shaped angleCos distance).update u).after updates = _
    rw [update_shaped]
    exact ih (c.update u)

end Shape

/-! ## Unit directions -/

variable {c : Cone ℝ}

/-- The direction, if there is one, is a unit vector from an origin. -/
structure Directed (c : Cone ℝ) : Prop where
  unit : ∀ d, c.direction = some d → d.value.norm = 1
  origin : ∀ d, c.direction = some d → ∃ o, c.origin = some o

theorem directed_of_none (h : c.direction = none) : c.Directed where
  unit _ hd := nomatch h.symm.trans hd
  origin _ hd := nomatch h.symm.trans hd

theorem norm_blend {towards : Vector2 ℝ} (h : towards.norm = 1) (now : Time) :
    (c.blend towards now).norm = 1 := by
  unfold blend
  cases c.direction with
  | none => exact h
  | some old =>
    dsimp only
    cases hn : (old.value.scale (c.weight (old.age now)) + towards).normalized? with
    | none => exact h
    | some u => exact Vector2.norm_of_normalized? hn

theorem Directed.update (h : c.Directed) (u : Update ℝ) : (c.update u).Directed := by
  cases u with
  | position p time => exact ⟨h.unit, fun _ _ => ⟨_, rfl⟩⟩
  | palm p time =>
    show (c.updateDirection p time).Directed
    unfold updateDirection
    split
    · exact h
    case h_2 towards htowards =>
      obtain ⟨o, ho, hunit⟩ := Option.bind_eq_some_iff.mp htowards
      refine ⟨?_, fun _ _ => ⟨o, ho⟩⟩
      rintro d hd
      cases hd
      exact norm_blend (Vector2.norm_of_normalized? hunit) time

/-- **Unit directions.** Whatever a cone is told, its direction is a unit vector from an origin. -/
theorem Directed.after (h : c.Directed) (updates : List (Update ℝ)) : (c.after updates).Directed := by
  induction updates generalizing c with
  | nil => exact h
  | cons u updates ih => exact ih (h.update u)

/-! ## Rejection -/

theorem cos_radians (halfWidth : ℝ) :
    Scalar.cos (Scalar.radians halfWidth) = Real.cos (halfWidth * (Real.pi / 180)) := by
  show Real.cos (halfWidth * (Real.pi / 180.0)) = _
  norm_num

theorem half_width_mem {halfWidth : ℝ} (h : 0 ≤ halfWidth) (h' : halfWidth ≤ 180) :
    0 ≤ halfWidth * (Real.pi / 180) ∧ halfWidth * (Real.pi / 180) ≤ Real.pi := by
  have hpi := Real.pi_pos
  constructor
  · positivity
  · calc halfWidth * (Real.pi / 180) ≤ 180 * (Real.pi / 180) := by gcongr
      _ = Real.pi := by ring

theorem contains_iff (hc : c.Directed) {halfWidth : ℝ} (h : 0 ≤ halfWidth) (h' : halfWidth ≤ 180)
    (hcos : c.angleCos = Real.cos (halfWidth * (Real.pi / 180))) {o : Stamped (Point ℝ)}
    {d : Stamped (Vector2 ℝ)} (ho : c.origin = some o) (hd : c.direction = some d) (p : Point ℝ) :
    c.contains p = true ↔ InSector o.value d.value halfWidth c.distance p := by
  obtain ⟨hθ, hθ'⟩ := half_width_mem h h'
  unfold contains
  rw [ho, hd]
  simp only [Bool.and_eq_true, Bool.not_eq_true', decide_eq_true_eq, decide_eq_false_iff_not,
    gt_iff_lt, not_lt]
  rw [hcos, lt_dot_iff (hc.unit d hd) hθ hθ']
  exact and_left_comm

/-- A cone of a half-width in degrees and a reach, as `new` and `ofSettings` make them, after
updates. -/
noncomputable def told (halfWidth reach : ℝ) (timeout halfLife : Span)
    (updates : List (Update ℝ)) : Cone ℝ :=
  ({ new halfWidth reach with timeout, halfLife } : Cone ℝ).after updates

section Told

variable {halfWidth reach halfWidth' reach' : ℝ} {timeout halfLife : Span}
  {updates : List (Update ℝ)}

theorem told_shaped :
    (told halfWidth reach timeout halfLife updates).shaped
        (Real.cos (halfWidth' * (Real.pi / 180))) reach' =
      told halfWidth' reach' timeout halfLife updates := by
  rw [← cos_radians]
  exact (after_shaped _ _ _ updates).symm

theorem shape_told :
    (told halfWidth reach timeout halfLife updates).angleCos =
        Real.cos (halfWidth * (Real.pi / 180)) ∧
      (told halfWidth reach timeout halfLife updates).distance = reach := by
  have hshaped : (told halfWidth reach timeout halfLife updates).shaped
      (Real.cos (halfWidth * (Real.pi / 180))) reach =
      told halfWidth reach timeout halfLife updates := told_shaped
  rw [← hshaped]
  exact ⟨rfl, rfl⟩

theorem directed_told : (told halfWidth reach timeout halfLife updates).Directed :=
  Directed.after (directed_of_none rfl) updates

theorem contains_told_iff (h : 0 ≤ halfWidth) (h' : halfWidth ≤ 180) {o : Stamped (Point ℝ)}
    {d : Stamped (Vector2 ℝ)}
    (ho : (told halfWidth reach timeout halfLife updates).origin = some o)
    (hd : (told halfWidth reach timeout halfLife updates).direction = some d) (p : Point ℝ) :
    (told halfWidth reach timeout halfLife updates).contains p = true ↔
      InSector o.value d.value halfWidth reach p := by
  rw [contains_iff directed_told h h' shape_told.1 ho hd, shape_told.2]

theorem inSector_of_contains (h : 0 ≤ halfWidth) (h' : halfWidth ≤ 180) {p : Point ℝ}
    (hp : (told halfWidth reach timeout halfLife updates).contains p = true) :
    ∃ o d, (told halfWidth reach timeout halfLife updates).origin = some o ∧
      (told halfWidth reach timeout halfLife updates).direction = some d ∧
      InSector o.value d.value halfWidth reach p := by
  obtain ⟨halive, hdirection⟩ : _ ∧ _ := not_not.mp fun hmissing =>
    Bool.false_ne_true ((contains_of_missing hmissing p).symm.trans hp)
  obtain ⟨o, ho⟩ := alive_iff.mp halive
  obtain ⟨d, hd⟩ := Option.isSome_iff_exists.mp hdirection
  exact ⟨o, d, ho, hd, (contains_told_iff h h' ho hd p).mp hp⟩

end Told

/-- **Sectors.** Whatever a cone of a half-width in degrees and a reach is told, its direction is a
unit vector, and it rejects the points of the sector around it. -/
theorem rejects_sector (halfWidth reach : ℝ) (h : 0 ≤ halfWidth) (h' : halfWidth ≤ 180)
    (timeout halfLife : Span) (updates : List (Update ℝ)) :
    let c := told halfWidth reach timeout halfLife updates
    (c.direction = none → ∀ p, c.contains p = false) ∧
      (∀ d, c.direction = some d → d.value.norm = 1 ∧ ∃ o, c.origin = some o ∧
        ∀ p, c.contains p = true ↔ InSector o.value d.value halfWidth reach p) ∧
      (∀ o, c.origin = some o → c.contains o.value = false ∧
        (∀ p, reach < o.value.distance p → c.contains p = false) ∧
        ∀ p, c.contains p = true → ∀ s : ℝ, 0 < s → s < 1 →
          c.contains (o.value + (p - o.value : Vector2 ℝ).scale s) = true) ∧
      ∀ halfWidth' reach', halfWidth ≤ halfWidth' → halfWidth' ≤ 180 → reach ≤ reach' →
        ∀ p, c.contains p = true →
          (told halfWidth' reach' timeout halfLife updates).contains p = true := by
  intro c
  have hdirected : c.Directed := directed_told
  have hrejected : ∀ {o p}, c.origin = some o → c.contains p = true →
      ∃ d, c.direction = some d ∧ InSector o.value d.value halfWidth reach p := by
    intro o p ho hp
    obtain ⟨o', d, ho', hd, hsector⟩ := inSector_of_contains h h' hp
    cases ho.symm.trans ho'
    exact ⟨d, hd, hsector⟩
  refine ⟨fun hd p => ?_, fun d hd => ?_, fun o ho => ⟨?_, fun p hfar => ?_, ?_⟩, ?_⟩
  · refine contains_of_missing (fun hboth => ?_) p
    rw [hd] at hboth
    exact Bool.false_ne_true hboth.2
  · obtain ⟨o, ho⟩ := hdirected.origin d hd
    exact ⟨hdirected.unit d hd, o, ho, contains_told_iff h h' ho hd⟩
  · refine Bool.eq_false_iff.mpr fun htip => ?_
    obtain ⟨d, -, hsector⟩ := hrejected ho htip
    exact hsector.not_self
  · refine Bool.eq_false_iff.mpr fun hp => ?_
    obtain ⟨d, -, hsector⟩ := hrejected ho hp
    exact absurd hsector.2.1 (not_le.mpr hfar)
  · intro p hp s hs hs'
    obtain ⟨d, hd, hsector⟩ := hrejected ho hp
    exact (contains_told_iff h h' ho hd _).mpr (hsector.between hs hs')
  · intro halfWidth' reach' hwidth hwidth' hreach p hp
    obtain ⟨o, d, ho, hd, hsector⟩ := inSector_of_contains h h' hp
    -- The wider cone has been told the same, so it has the same origin and direction.
    have hshape : c.shaped _ reach' = told halfWidth' reach' timeout halfLife updates := told_shaped
    refine (contains_told_iff (h.trans hwidth) hwidth' ?_ ?_ p).mpr (hsector.mono hwidth hreach)
    · rw [← hshape]
      exact ho
    · rw [← hshape]
      exact hd

/-- A palm beside the tip, and a point above it: a wide cone rejects the point and the one halfway
to it, but not one beyond the reach. -/
theorem rejects_sector_beside :
    let settings : ConeSettings ℝ := ⟨true, 120, 50, 1000, 1000⟩
    let tip : Point ℝ := ⟨0, 0⟩
    let palm : Point ℝ := ⟨10, 0⟩
    let above : Point ℝ := ⟨0, 20⟩
    let c := (ofSettings settings).after [.position tip 0, .palm palm 3]
    c.contains above = true ∧ c.contains (tip + (above - tip : Vector2 ℝ).scale 0.5) = true ∧
      c.contains ⟨0, 60⟩ = false := by
  intro settings tip palm above c
  obtain ⟨-, hdirection, horigin, -⟩ := rejects_sector 120 50 (by norm_num) (by norm_num)
    (.ofMilliseconds settings.timeoutMs) (.ofMilliseconds (max settings.halfLifeMs 1))
    [.position tip 0, .palm palm 3]
  have hunit : (palm - tip : Vector2 ℝ).normalized? = some ⟨1, 0⟩ := by
    have hnorm : (palm - tip : Vector2 ℝ).norm = 10 :=
      Vector2.norm_of_sq (by norm_num) (by simp [palm, tip])
    refine Vector2.normalized?_eq_some.mpr ⟨?_, ?_⟩
    · rw [hnorm]
      exact Scalar.epsilon_lt_one.trans (by norm_num)
    · rw [hnorm]
      simp [palm, tip, Vector2.scale]
  have htold : c.direction = some ⟨⟨1, 0⟩, 3⟩ := by
    show (updateDirection _ _ _).direction = _
    rw [updateDirection_of_normalized (o := ⟨tip, 0⟩) rfl hunit]
    rfl
  have htip : c.origin = some ⟨tip, 0⟩ := origin_updateDirection _ palm 3
  obtain ⟨-, o, ho, hsector⟩ := hdirection ⟨⟨1, 0⟩, 3⟩ htold
  cases ho.symm.trans htip
  have hlength : tip.distance above = 20 := Vector2.norm_of_sq (by norm_num) (by simp [tip, above])
  have hright : angle (above - tip : Vector2 ℝ).euclidean (⟨1, 0⟩ : Vector2 ℝ).euclidean =
      Real.pi / 2 := by
    rw [← InnerProductGeometry.inner_eq_zero_iff_angle_eq_pi_div_two, ← Vector2.dot_eq]
    simp [tip, above, Vector2.dot]
  have habove : c.contains above = true := by
    refine (hsector above).mpr ⟨?_, ?_, ?_⟩
    · rw [hlength]
      norm_num
    · rw [hlength]
      norm_num
    · rw [hright]
      linarith [Real.pi_pos]
  obtain ⟨-, hfar, hbetween⟩ := horigin ⟨tip, 0⟩ htip
  refine ⟨habove, hbetween above habove 0.5 (by norm_num) (by norm_num), hfar _ ?_⟩
  rw [show tip.distance ⟨0, 60⟩ = 60 from
    Vector2.norm_of_sq (by norm_num) (by simp [tip])]
  norm_num

end Cone

end PenTouch
