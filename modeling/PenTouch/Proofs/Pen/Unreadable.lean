import Mathlib
import PenTouch.Proofs.Pen.Weights

/-!
# Unreadable antennas

The strongest antenna is looked for from the first one to the last, and a comparison with something
that is not a number fails. So an antenna without a readable amplitude takes the place of the
strongest one before it, and loses it to the next one: the search starts over behind it.

1. `strongest?_spec_heard`: what is found is the strongest of the antennas behind the last
   unreadable one (`heard`), or that one itself if none is behind it.
2. `ofAntennas?_eq_some_iff_loudest`: so the phase along an axis is compared with the strongest of
   those antennas. It is the strongest of all just as far as no antenna before them exceeds it, and
   `unreadable_hides_strongest` is a window in which one does.
-/

namespace PenTouch

open Double

/-! ## Readings -/

namespace Antenna

/-- The amplitude is a number. -/
def readable (a : Antenna Float) : Bool := !a.amplitude.isNaN

theorem not_readable_iff {a : Antenna Float} : ¬a.readable = true ↔ a.amplitude.isNaN = true := by
  unfold readable
  rw [Bool.not_eq_true', Bool.not_eq_false]

end Antenna

namespace AxisPeak

open Antenna

/-! ## The strongest antenna -/

/-- The antennas behind the last one that cannot be read. -/
def heard (antennas : List (Antenna Float)) : List (Antenna Float) :=
  antennas.rtakeWhile readable

/-- The antennas up to the last one that cannot be read. -/
def missed (antennas : List (Antenna Float)) : List (Antenna Float) :=
  antennas.rdropWhile readable

/-- The antenna at the place has the largest amplitude, and is the first to have it. -/
structure Loudest (antennas : List (Antenna Float)) (peak : Antenna Float) (place : Nat) :
    Prop where
  getElem? : antennas[place]? = some peak
  le : ∀ a ∈ antennas, a.amplitude ≤ peak.amplitude
  lt : ∀ i < place, ∀ a, antennas[i]? = some a → a.amplitude < peak.amplitude

section Search

variable {antennas : List (Antenna Float)} {peak a : Antenna Float} {place : Nat}

theorem missed_append_heard (antennas : List (Antenna Float)) :
    missed antennas ++ heard antennas = antennas := List.rdropWhile_append_rtakeWhile

theorem heard_eq_self_iff : heard antennas = antennas ↔ ∀ a ∈ antennas, a.readable = true :=
  List.rtakeWhile_eq_self_iff

theorem readable_iff_le : a.readable = true ↔ a.amplitude ≤ a.amplitude := by
  unfold readable
  rw [Bool.not_eq_true']
  exact ⟨le_self, isNaN_of_le⟩

theorem Loudest.mem (h : Loudest antennas peak place) : peak ∈ antennas :=
  List.mem_of_getElem? h.getElem?

theorem Loudest.concat_of_le (h : Loudest antennas peak place)
    (ha : a.amplitude ≤ peak.amplitude) : Loudest (antennas ++ [a]) peak place where
  getElem? := by
    have hlength := (List.getElem?_eq_some_iff.mp h.getElem?).1
    rw [List.getElem?_append_left hlength, h.getElem?]
  le b hb := by
    rcases List.mem_append.mp hb with hb | hb
    · exact h.le b hb
    · rwa [List.mem_singleton.mp hb]
  lt i hi b hb := by
    have hlength := (List.getElem?_eq_some_iff.mp h.getElem?).1
    rw [List.getElem?_append_left (hi.trans hlength)] at hb
    exact h.lt i hi b hb

theorem Loudest.concat_of_lt (h : Loudest antennas peak place)
    (ha : peak.amplitude < a.amplitude) : Loudest (antennas ++ [a]) a antennas.length where
  getElem? := List.getElem?_concat_length
  le b hb := by
    rcases List.mem_append.mp hb with hb | hb
    · exact le_trans (h.le b hb) (le_of_lt ha)
    · rw [List.mem_singleton.mp hb]
      exact le_self (isNaN_of_le (le_of_lt ha))
  lt i hi b hb := by
    rw [List.getElem?_append_left hi] at hb
    exact lt_of_le_of_lt (h.le b (List.mem_of_getElem? hb)) ha

theorem loudest_singleton (ha : a.readable = true) : Loudest [a] a 0 where
  getElem? := rfl
  le b hb := by
    rw [List.mem_singleton.mp hb]
    exact readable_iff_le.mp ha
  lt i hi := absurd hi i.not_lt_zero

theorem Loudest.unique {peak' : Antenna Float} {place' : Nat} (h : Loudest antennas peak place)
    (h' : Loudest antennas peak' place') : peak = peak' ∧ place = place' := by
  have hplace : place = place' := by
    rcases Nat.lt_trichotomy place place' with hlt | heq | hgt
    · exact absurd (h.le peak' h'.mem) (not_le_of_lt (h'.lt place hlt peak h.getElem?))
    · exact heq
    · exact absurd (h'.le peak h.mem) (not_le_of_lt (h.lt place' hgt peak' h'.getElem?))
  subst hplace
  exact ⟨Option.some.inj (h.getElem?.symm.trans h'.getElem?), rfl⟩

/-- What the search has found: the last antenna, if that is unreadable, or else the loudest of those
behind the last unreadable one. -/
def Found (antennas : List (Antenna Float)) (peak : Antenna Float) (place : Nat) : Prop :=
  heard antennas = [] ∧ ¬peak.readable = true ∨
    ∃ i, place = (missed antennas).length + i ∧ Loudest (heard antennas) peak i

theorem found_unreadable (antennas : List (Antenna Float)) (ha : ¬a.readable = true) (place : Nat) :
    Found (antennas ++ [a]) a place :=
  .inl ⟨List.rtakeWhile_concat_neg readable antennas a ha, ha⟩

/-- **One antenna more.** A readable one is compared with the loudest so far, or is the first to be
heard. -/
theorem Found.concat (h : Found antennas peak place) (ha : a.readable = true) :
    (peak.amplitude ≥ a.amplitude → Found (antennas ++ [a]) peak place) ∧
      (¬peak.amplitude ≥ a.amplitude → Found (antennas ++ [a]) a antennas.length) := by
  have hheard : heard (antennas ++ [a]) = heard antennas ++ [a] :=
    List.rtakeWhile_concat_pos readable antennas a ha
  have hmissed : missed (antennas ++ [a]) = missed antennas :=
    List.rdropWhile_concat_pos readable antennas a ha
  have hlength : antennas.length = (missed antennas).length + (heard antennas).length := by
    rw [← List.length_append, missed_append_heard]
  unfold Found
  rw [hheard, hmissed]
  rcases h with ⟨hnone, hpeak⟩ | ⟨i, rfl, hloudest⟩
  · have hnot : ¬peak.amplitude ≥ a.amplitude :=
      (not_le_of_isNaN (not_readable_iff.mp hpeak)).2
    refine ⟨fun hle => absurd hle hnot, fun _ => .inr ⟨0, ?_, ?_⟩⟩
    · rw [hlength, hnone, List.length_nil]
    · rw [hnone]
      exact loudest_singleton ha
  · refine ⟨fun hle => .inr ⟨i, rfl, hloudest.concat_of_le hle⟩, fun hlt => ?_⟩
    have hnumber : peak.amplitude.isNaN = false := isNaN_of_le (hloudest.le peak hloudest.mem)
    have hnumber' : a.amplitude.isNaN = false := isNaN_of_le (readable_iff_le.mp ha)
    exact .inr ⟨_, hlength, hloudest.concat_of_lt ((lt_or_le hnumber hnumber').resolve_right hlt)⟩

theorem strongest?_spec_heard (antennas : List (Antenna Float)) : antennas = [] ∨
    ∃ peak place, strongest? antennas = some (peak, place) ∧ Found antennas peak place := by
  induction antennas using List.reverseRecOn with
  | nil => exact .inl rfl
  | append_singleton antennas a ih =>
    right
    rw [strongest?_concat]
    by_cases ha : a.readable = true
    · rcases ih with rfl | ⟨peak, place, hfound, h⟩
      · refine ⟨a, 0, rfl, .inr ⟨0, ?_, ?_⟩⟩
        · rw [missed, List.nil_append, List.rdropWhile_singleton, if_pos ha]
          rfl
        · rw [heard, List.rtakeWhile_concat_pos readable [] a ha]
          exact loudest_singleton ha
      · obtain ⟨hle, hlt⟩ := h.concat ha
        rw [hfound]
        by_cases hcompare : peak.amplitude ≥ a.amplitude
        · exact ⟨peak, place, if_pos hcompare, hle hcompare⟩
        · exact ⟨a, antennas.length, if_neg hcompare, hlt hcompare⟩
    · -- No comparison with it succeeds, so it is found whatever came before.
      refine ⟨a, antennas.length, ?_, found_unreadable antennas ha _⟩
      rcases ih with rfl | ⟨peak, place, hfound, -⟩
      · rfl
      · rw [hfound]
        exact if_neg (not_le_of_isNaN (not_readable_iff.mp ha)).1

end Search

/-! ## The peak of an axis -/

section Peak

variable {antennas : List (Antenna Float)} {radius : Nat} {minAmplitude : Float}
  {p : AxisPeak Float}

/-- The antenna is strong enough to locate a pen by, and not infinitely strong. -/
def Usable (minAmplitude : Float) (peak : Antenna Float) : Prop :=
  peak.amplitude.isFinite = true ∧ ¬peak.amplitude < minAmplitude ∧ 0.0 < peak.amplitude

theorem usable_iff_not {peak : Antenna Float} :
    ¬(¬Scalar.isFinite peak.amplitude = true ∨ peak.amplitude < minAmplitude ∨
      peak.amplitude ≤ 0.0) ↔ Usable minAmplitude peak := by
  unfold Usable
  rw [not_or, not_or, not_not]
  refine and_congr_right fun hfinite => and_congr_right fun _ => ?_
  have hnumber := isNaN_of_isFinite hfinite
  exact not_le_zero_iff.trans (or_iff_left (by rw [hnumber]; exact Bool.false_ne_true))

theorem ofAntennas?_eq_some_iff_loudest :
    ofAntennas? antennas radius minAmplitude = some p ↔
      ∃ i, Loudest (heard antennas) p.peak i ∧ Usable minAmplitude p.peak ∧
        p.position =
          moment p.peak (around antennas ((missed antennas).length + i) radius) /
            total p.peak (around antennas ((missed antennas).length + i) radius) := by
  constructor
  · intro h
    obtain ⟨⟨peak, place⟩, hfound, h⟩ := Option.bind_eq_some_iff.mp h
    dsimp only at h
    split at h
    case isTrue => cases h
    case isFalse husable =>
      have husable := usable_iff_not.mp husable
      cases h
      rcases strongest?_spec_heard antennas with rfl | ⟨peak', place', hfound', hspec⟩
      · cases hfound
      cases hfound.symm.trans hfound'
      rcases hspec with ⟨-, hpeak⟩ | ⟨i, rfl, hloudest⟩
      · have hnan := not_readable_iff.mp hpeak
        rw [isNaN_of_isFinite husable.1] at hnan
        cases hnan
      · exact ⟨i, hloudest, husable, rfl⟩
  · rintro ⟨i, hloudest, husable, hposition⟩
    rcases strongest?_spec_heard antennas with rfl | ⟨peak, place, hfound, hspec⟩
    · cases hloudest.mem
    rcases hspec with ⟨hnone, -⟩ | ⟨i', rfl, hloudest'⟩
    · have hmem := hloudest.mem
      rw [hnone] at hmem
      cases hmem
    obtain ⟨rfl, rfl⟩ := hloudest.unique hloudest'
    unfold ofAntennas?
    rw [hfound, Option.bind_eq_bind, Option.bind_some]
    dsimp only
    rw [if_neg (usable_iff_not.mpr husable)]
    exact congrArg some (congrArg (AxisPeak.mk · p.peak) hposition.symm)

end Peak

/-- **The reference.** The antenna that is found along an axis is the strongest of those behind the
last unreadable one, and the first of them to be as strong; it is found if it is usable. It is a
strongest one of the whole axis just if no antenna up to the last unreadable one is stronger, and
so it is whenever every antenna can be read. -/
theorem peak_strongest_heard (antennas : List (Antenna Float)) (radius : Nat)
    (minAmplitude : Float) :
    ((ofAntennas? antennas radius minAmplitude).isSome = true ↔
        ∃ a i, Loudest (heard antennas) a i ∧ Usable minAmplitude a) ∧
      ∀ p, ofAntennas? antennas radius minAmplitude = some p →
        (∃ i, Loudest (heard antennas) p.peak i) ∧
        ((∀ a ∈ antennas, ¬p.peak.amplitude < a.amplitude) ↔
          ∀ a ∈ missed antennas, ¬p.peak.amplitude < a.amplitude) ∧
        ((∀ a ∈ antennas, a.readable = true) →
          ∀ a ∈ antennas, ¬p.peak.amplitude < a.amplitude) := by
  constructor
  · rw [Option.isSome_iff_exists]
    constructor
    · rintro ⟨p, hp⟩
      obtain ⟨i, hloudest, husable, -⟩ := ofAntennas?_eq_some_iff_loudest.mp hp
      exact ⟨p.peak, i, hloudest, husable⟩
    · rintro ⟨a, i, hloudest, husable⟩
      let near := around antennas ((missed antennas).length + i) radius
      exact ⟨⟨moment a near / total a near, a⟩,
        ofAntennas?_eq_some_iff_loudest.mpr ⟨i, hloudest, husable, rfl⟩⟩
  · intro p hp
    obtain ⟨i, hloudest, -, -⟩ := ofAntennas?_eq_some_iff_loudest.mp hp
    have hheard : ∀ a ∈ heard antennas, ¬p.peak.amplitude < a.amplitude := fun a ha hlt =>
      not_le_of_lt hlt (hloudest.le a ha)
    refine ⟨⟨i, hloudest⟩, ?_, fun hall a ha => hheard a ?_⟩
    · conv_lhs => rw [← missed_append_heard antennas]
      rw [List.forall_mem_append]
      exact and_iff_left hheard
    · rwa [heard_eq_self_iff.mpr hall]

/-- A louder antenna behind an unreadable one is the strongest of all. -/
theorem peak_strongest_heard_behind :
    let antennas : List (Antenna Float) := [⟨60.0, 0.0⟩, ⟨nan, 0.0⟩, ⟨80.0, 0.0⟩, ⟨0.0, 90.0⟩]
    ∃ p, ofAntennas? antennas 1 50.0 = some p ∧
      ∀ a ∈ antennas, ¬p.peak.amplitude < a.amplitude := by
  intro antennas
  have hfound : (ofAntennas? antennas 1 50.0).any fun p =>
      decide (∀ a ∈ missed antennas, ¬p.peak.amplitude < a.amplitude) := by decide +kernel
  obtain ⟨p, hp, hmissed⟩ := (Option.any_eq_true _ _).mp hfound
  have hreference := (peak_strongest_heard antennas 1 50.0).2 p hp
  exact ⟨p, hp, hreference.2.1.mpr (decide_eq_true_iff.mp hmissed)⟩

/-- **A hidden antenna.** The strongest antenna of a window is not found behind which one cannot be
read. -/
theorem unreadable_hides_strongest :
    ¬∀ (antennas : List (Antenna Float)) (radius : Nat) (minAmplitude : Float) (p : AxisPeak Float),
      ofAntennas? antennas radius minAmplitude = some p →
        ∀ a ∈ antennas, ¬p.peak.amplitude < a.amplitude := by
  intro h
  let antennas : List (Antenna Float) :=
    [⟨60.0, 0.0⟩, ⟨500.0, 0.0⟩, ⟨60.0, 0.0⟩, ⟨nan, 0.0⟩, ⟨100.0, 0.0⟩, ⟨60.0, 0.0⟩]
  have hfound : (ofAntennas? antennas 1 50.0).any fun p => p.peak.amplitude < 500.0 := by
    decide +kernel
  obtain ⟨p, hp, hpeak⟩ := (Option.any_eq_true _ _).mp hfound
  refine h antennas 1 50.0 p hp ⟨500.0, 0.0⟩ (by simp [antennas]) ?_
  have hamplitude : (⟨500.0, 0.0⟩ : Antenna Float).amplitude = 500.0 := by decide +kernel
  rw [hamplitude]
  exact decide_eq_true_iff.mp hpeak

end AxisPeak

end PenTouch
