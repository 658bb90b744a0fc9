import Mathlib
import PenTouch.Linear.Axes
import PenTouch.Proofs.Scalar.Angle

/-!
# The range of the orientations

The angle of a major axis is half the angle of a vector, and half a turn is added if that is
negative. The sum is rounded, and a direction that is below zero by no more than half of the
distance between the doubles next to `π` disappears in it: the angle of such an axis is `pi` and not
the zero that it is next to. The angles of all other axes are below `pi` (`Symmetric.angle_range`).
-/

namespace PenTouch.Double

open Float.Model.UnpackedFloat

/-! ## Constants -/

theorem value_pi : value pi = 7074237752028440 * 2 ^ (-51 : ℤ) := by
  have h : pi.toModel.unpack = .finite .positive 7074237752028440 (-51) (by decide) := rfl
  unfold value
  rw [h]
  norm_num [unpackedValue, Sign.apply]

theorem value_neg_epsilon : value (-Scalar.epsilon) = -2 ^ (-52 : ℤ) := by
  have h : (-Scalar.epsilon : Float).toModel.unpack =
      .finite .negative (2 ^ 52) (-104) (by decide) := rfl
  unfold value
  rw [h]
  norm_num [unpackedValue, Sign.apply]

/-! ## Half a turn more -/

/-- The middle between `pi` and the double before it is rounded to `pi`, which is the even one. -/
theorem neg_epsilon_add_pi : -Scalar.epsilon + pi = pi := by decide +kernel

section AddPi

variable {x : Float} (hx : x.isFinite = true) (hneg : value x < 0) (hlow : -2 ≤ value x)

include hx hneg hlow

theorem isFinite_add_pi : (x + pi).isFinite = true ∧ 0.0 ≤ x + pi ∧ x + pi ≤ pi := by
  have hrounds := rounds_add hx (y := pi) rfl
  have hle : x + pi ≤ pi := hrounds.le_of_le rfl (by linarith)
  have hge : 0.0 ≤ x + pi := hrounds.zero_le (by rw [value_pi]; norm_num; linarith)
  exact ⟨isFinite_of_le_of_le (x := 0.0) (y := pi) rfl rfl hge hle, hge, hle⟩

theorem add_pi_lt_iff : x + pi < pi ↔ x < -Scalar.epsilon := by
  obtain ⟨hfinite, -, hle⟩ := isFinite_add_pi hx hneg hlow
  have hsum := roundsNearest_add hx (y := pi) rfl
  constructor
  · -- From the middle on, sums are not less than the rounded middle.
    intro hlt
    rw [lt_iff_value hx rfl]
    by_contra hge
    have hmono := (roundsNearest_add (x := -Scalar.epsilon) (y := pi) rfl rfl).mono hsum rfl hfinite
      (by linarith)
    rw [neg_epsilon_add_pi] at hmono
    exact not_le_of_lt hlt hmono
  · -- Below the middle, the error is too small to reach `pi`.
    intro hlt
    rw [lt_iff_value hx rfl, value_neg_epsilon] at hlt
    have hsize : |value x + value pi| < 2 ^ 53 * 2 ^ (-51 : ℤ) := by
      rw [value_pi, abs_of_nonneg] <;> norm_num <;> linarith
    have herror := hsum.error_le hfinite (by omega) hsize
    rw [lt_iff_value hfinite rfl]
    have := (abs_le.mp herror).1
    norm_num at hlt this ⊢
    linarith

end AddPi

end PenTouch.Double

namespace PenTouch.Linear

open Double

/-! ## Directions -/

/-- The direction of the major axis, up to a quarter of a turn to either side. -/
def Symmetric.direction {α : Type} [Scalar α] (m : Symmetric α) : α :=
  0.5 * Scalar.atan2 (2.0 * m.xy) (m.xx - m.yy)

theorem Symmetric.angle_eq {α : Type} [Scalar α] (m : Symmetric α) :
    m.axes.angle = if m.direction < 0.0 then m.direction + Scalar.pi else m.direction := rfl

section Direction

variable {m : Symmetric Float} (hxx : m.xx.isFinite = true) (hxy : m.xy.isFinite = true)
  (hyy : m.yy.isFinite = true)

include hxx hxy hyy

theorem Symmetric.abs_value_direction_le :
    m.direction.isFinite = true ∧ |value m.direction| ≤ 2 := by
  obtain ⟨hfinite, hangle⟩ := abs_value_atan2_le (rounds_sub hxx hyy).number
    (rounds_mul (x := 2.0) rfl hxy).number
  have hrounds : Rounds m.direction (value 0.5 * value (atan2 (2.0 * m.xy) (m.xx - m.yy))) :=
    rounds_mul rfl hfinite
  have hbound : |value 0.5 * value (atan2 (2.0 * m.xy) (m.xx - m.yy))| ≤ 2 ^ (1 : ℤ) := by
    rw [value_half, abs_mul]
    rw [value_pi] at hangle
    norm_num at hangle ⊢
    linarith
  simpa using hrounds.abs_value_le (by omega) (by omega) hbound

/-- **Range of the orientations.** The angle of a major axis is a number from zero to `pi`. It is
below `pi` unless the direction is a residue below zero that disappears when `pi` is added. -/
theorem Symmetric.angle_range :
    0.0 ≤ m.axes.angle ∧ m.axes.angle ≤ Scalar.pi ∧
      (m.axes.angle < Scalar.pi ↔ ¬(-Scalar.epsilon ≤ m.direction ∧ m.direction < 0.0)) := by
  obtain ⟨hfinite, hbound⟩ := abs_value_direction_le hxx hxy hyy
  obtain ⟨hlow, hhigh⟩ := abs_le.mp hbound
  have hsign : m.direction < 0.0 ↔ value m.direction < 0 := lt_iff_value hfinite rfl
  rw [m.angle_eq]
  split_ifs with hneg
  · obtain ⟨-, hge, hle⟩ := isFinite_add_pi hfinite (hsign.mp hneg) hlow
    refine ⟨hge, hle, (add_pi_lt_iff hfinite (hsign.mp hneg) hlow).trans ?_⟩
    rw [and_iff_left hneg, le_iff_value rfl hfinite, lt_iff_value hfinite rfl, not_le]
  · have hpi : m.direction < Scalar.pi := by
      refine (lt_iff_value hfinite rfl).mpr (hhigh.trans_lt ?_)
      rw [show value Scalar.pi = value pi from rfl, value_pi]
      norm_num
    refine ⟨(le_iff_value rfl hfinite).mpr ?_, le_of_lt hpi, iff_of_true hpi fun h => hneg h.2⟩
    exact not_lt.mp fun h => hneg (hsign.mpr h)

end Direction

/-- An axis along the horizontal, but for a residue. -/
theorem Symmetric.angle_range_residue :
    (4.0 : Float).isFinite = true ∧ (-1e-17 : Float).isFinite = true ∧
      (1.0 : Float).isFinite = true ∧
      let m : Symmetric Float := ⟨4.0, -1e-17, 1.0⟩
      0.0 ≤ m.axes.angle ∧ m.axes.angle ≤ Scalar.pi ∧
        (m.axes.angle < Scalar.pi ↔ ¬(-Scalar.epsilon ≤ m.direction ∧ m.direction < 0.0)) :=
  ⟨rfl, rfl, rfl, Symmetric.angle_range rfl rfl rfl⟩

/-- The angles are not all below `pi`, also if no intermediate result is too large. -/
theorem Symmetric.angle_of_residue_not_below_pi :
    ¬∀ m : Symmetric Float, m.xx.isFinite = true → m.xy.isFinite = true → m.yy.isFinite = true →
      (m.xx + m.yy).isFinite = true → (m.xx - m.yy).isFinite = true →
      (2.0 * m.xy).isFinite = true → 0.0 ≤ m.axes.angle ∧ m.axes.angle < Scalar.pi := by
  intro h
  have hangle := (h ⟨4.0, -1e-17, 1.0⟩ rfl rfl rfl (by decide +kernel) (by decide +kernel)
    (by decide +kernel)).2
  exact absurd hangle (by decide +kernel)

end PenTouch.Linear
