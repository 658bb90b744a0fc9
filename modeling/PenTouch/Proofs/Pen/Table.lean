import PenTouch.Pen.Table

/-!
# Reports to a table of pens

A pen is known by its number, and the number `0` stands for a pen that has not told one. That entry
comes and goes: the first number that is told while it is current takes it over, and the next sample
without a number makes a new one.

1. `report_spec`: a report goes to the entry of its number, to the current placeholder or to a new
   entry (`Taker`), and leaves all others alone.
2. `Distinct.report`: each number goes on to have one entry.
3. `getElem?_report_or`: an entry with a number stays where it is.
-/

namespace PenTouch

def Pen.heard (pen : Pen) (sample : PenSample Float) (position : Point Float) (now : Time) : Pen :=
  { pen with
    last := some sample
    cone := if sample.proximity then pen.cone.updatePosition position now else pen.cone }

namespace PenTable

/-! ## Reports -/

/-- A pen that can take the report of a number, and its place: the pen of that number, or if there
is none, the current placeholder with the number, or a new pen. -/
inductive Taker (t : PenTable) (serial : Nat) : Nat → Pen → Prop
  | known {i : Nat} {pen : Pen} : t.pens[i]? = some pen → pen.serial = serial →
      Taker t serial i pen
  | placeholder : (∀ pen ∈ t.pens, pen.serial ≠ serial) → t.currentPen.serial = 0 →
      Taker t serial t.current { t.currentPen with serial }
  | new : (∀ pen ∈ t.pens, pen.serial ≠ serial) → t.currentPen.serial ≠ 0 →
      Taker t serial t.pens.length { serial, cone := .ofSettings t.settings }

theorem getElem?_current (t : PenTable) : t.pens[t.current]? = some t.currentPen :=
  List.getElem?_eq_getElem t.current_lt

theorem currentPen_mem (t : PenTable) : t.currentPen ∈ t.pens :=
  List.mem_of_getElem? t.getElem?_current

theorem currentPen_modifyCurrent (t : PenTable) (f : Pen → Pen) :
    (t.modifyCurrent f).currentPen = f t.currentPen :=
  List.getElem_set_self _

theorem getElem?_modifyCurrent (t : PenTable) (f : Pen → Pen) {k : Nat} (hk : k ≠ t.current) :
    (t.modifyCurrent f).pens[k]? = t.pens[k]? :=
  List.getElem?_set_ne hk.symm

/-- After a switch the taker is current, and all other pens are as they were. -/
theorem switch_spec (t : PenTable) (serial : Nat) :
    Taker t serial (t.switch serial).current (t.switch serial).currentPen ∧
      ∀ k, k ≠ (t.switch serial).current → (t.switch serial).pens[k]? = t.pens[k]? := by
  generalize ht : t.switch serial = t'
  unfold switch at ht
  split at ht
  · rename_i i hfind
    subst ht
    obtain ⟨hi, hserial, -⟩ := List.findIdx?_eq_some_iff_getElem.mp hfind
    exact ⟨.known (List.getElem?_eq_getElem hi) (beq_iff_eq.mp hserial), fun _ _ => rfl⟩
  · rename_i hfind
    have hfresh : ∀ pen ∈ t.pens, pen.serial ≠ serial := fun pen hpen h =>
      Bool.false_ne_true ((List.findIdx?_eq_none_iff.mp hfind pen hpen).symm.trans
        (beq_iff_eq.mpr h))
    split at ht
    · rename_i hzero
      subst ht
      rw [currentPen_modifyCurrent]
      exact ⟨.placeholder hfresh hzero, fun _ hk => t.getElem?_modifyCurrent _ hk⟩
    · rename_i hzero
      subst ht
      refine ⟨?_, fun k hk => ?_⟩
      · show Taker t serial t.pens.length (t.pens ++ [_])[t.pens.length]
        rw [List.getElem_concat_length rfl]
        exact .new hfresh hzero
      · show (t.pens ++ [_])[k]? = t.pens[k]?
        have hk : k ≠ t.pens.length := hk
        rw [List.getElem?_append]
        split
        · rfl
        · rename_i hlt
          rw [List.getElem?_eq_none (by simp; omega), List.getElem?_eq_none (by omega)]

/-- **Reports.** The taker becomes current and hears the report; all other pens stay as they are. -/
theorem report_spec (t : PenTable) (sample : PenSample Float) (position : Point Float)
    (now : Time) :
    ∃ taker, Taker t sample.serial (t.report sample position now).current taker ∧
      (t.report sample position now).currentPen = taker.heard sample position now ∧
      ∀ k, k ≠ (t.report sample position now).current →
        (t.report sample position now).pens[k]? = t.pens[k]? := by
  obtain ⟨htaker, hothers⟩ := t.switch_spec sample.serial
  refine ⟨_, htaker, currentPen_modifyCurrent _ _, fun k hk => ?_⟩
  exact ((t.switch sample.serial).getElem?_modifyCurrent _ hk).trans (hothers k hk)

theorem Taker.serial_eq {t : PenTable} {serial i : Nat} {pen : Pen} (h : Taker t serial i pen) :
    pen.serial = serial := by
  cases h with
  | known _ hserial => exact hserial
  | placeholder _ _ => rfl
  | new _ _ => rfl

/-- What stands in a taker's place is the taker itself or the placeholder. -/
theorem Taker.eq_or_zero {t : PenTable} {serial i : Nat} {taker pen : Pen}
    (h : Taker t serial i taker) (hpen : t.pens[i]? = some pen) :
    pen = taker ∨ pen.serial = 0 := by
  cases h with
  | known htaker _ => exact .inl (Option.some.inj (hpen.symm.trans htaker))
  | placeholder _ hzero =>
    rw [t.getElem?_current] at hpen
    exact .inr (Option.some.inj hpen ▸ hzero)
  | new _ _ =>
    rw [List.getElem?_eq_none (Nat.le_refl _)] at hpen
    cases hpen

/-! ## Numbers -/

/-- Each number has one entry. -/
def Distinct (t : PenTable) : Prop :=
  ∀ (i j : Nat) (a b : Pen), t.pens[i]? = some a → t.pens[j]? = some b → a.serial = b.serial → i = j

theorem Distinct.nodup {t : PenTable} (h : t.Distinct) : (t.pens.map (·.serial)).Nodup := by
  rw [List.Nodup, List.pairwise_map, List.pairwise_iff_getElem]
  intro i j hi hj hij heq
  have := h i j _ _ (List.getElem?_eq_getElem hi) (List.getElem?_eq_getElem hj) heq
  omega

theorem Distinct.eq_of_serial {t : PenTable} (h : t.Distinct) {serial i k : Nat} {taker pen : Pen}
    (htaker : Taker t serial i taker) (hpen : t.pens[k]? = some pen)
    (hserial : pen.serial = serial) : k = i := by
  cases htaker with
  | known hi hi' => exact h _ _ _ _ hpen hi (hserial.trans hi'.symm)
  | placeholder hfresh _ => exact absurd hserial (hfresh pen (List.mem_of_getElem? hpen))
  | new hfresh _ => exact absurd hserial (hfresh pen (List.mem_of_getElem? hpen))

section Report

variable {t : PenTable} {sample : PenSample Float} {position : Point Float} {now : Time} {pen : Pen}

theorem serial_currentPen_report :
    (t.report sample position now).currentPen.serial = sample.serial := by
  obtain ⟨taker, htaker, hcurrent, -⟩ := t.report_spec sample position now
  rw [hcurrent]
  exact htaker.serial_eq

theorem last_currentPen_report : (t.report sample position now).currentPen.last = some sample := by
  obtain ⟨taker, -, hcurrent, -⟩ := t.report_spec sample position now
  rw [hcurrent]
  rfl

theorem eq_current_iff (h : t.Distinct) {k : Nat}
    (hpen : (t.report sample position now).pens[k]? = some pen) :
    k = (t.report sample position now).current ↔ pen.serial = sample.serial := by
  obtain ⟨taker, htaker, -, hothers⟩ := t.report_spec sample position now
  constructor
  · rintro rfl
    rw [getElem?_current] at hpen
    exact Option.some.inj hpen ▸ serial_currentPen_report
  · intro hserial
    refine Decidable.byContradiction fun hk => ?_
    rw [hothers k hk] at hpen
    exact hk (h.eq_of_serial htaker hpen hserial)

theorem eq_or_mem_of_mem_report (h : t.Distinct)
    (hpen : pen ∈ (t.report sample position now).pens) :
    pen = (t.report sample position now).currentPen ∨
      pen ∈ t.pens ∧ pen.serial ≠ sample.serial := by
  obtain ⟨-, -, -, hothers⟩ := t.report_spec sample position now
  obtain ⟨k, hk⟩ := List.mem_iff_getElem?.mp hpen
  have hcurrent := eq_current_iff h hk
  by_cases hi : k = (t.report sample position now).current
  · rw [hi, getElem?_current] at hk
    exact .inl (Option.some.inj hk).symm
  · rw [hothers k hi] at hk
    exact .inr ⟨List.mem_of_getElem? hk, mt hcurrent.mpr hi⟩

/-- An entry that has a number stays as it is, unless it takes the report. -/
theorem getElem?_report_or (hzero : pen.serial ≠ 0) {i : Nat} (hpen : t.pens[i]? = some pen) :
    (t.report sample position now).pens[i]? = some pen ∨
      i = (t.report sample position now).current ∧ pen.serial = sample.serial := by
  obtain ⟨taker, htaker, -, hothers⟩ := t.report_spec sample position now
  by_cases hi : i = (t.report sample position now).current
  · rw [hi] at hpen
    rcases htaker.eq_or_zero hpen with rfl | hpen
    · exact .inr ⟨hi, htaker.serial_eq⟩
    · exact absurd hpen hzero
  · exact .inl ((hothers i hi).trans hpen)

theorem mem_report_of_ne (hzero : pen.serial ≠ 0) (hpen : pen ∈ t.pens)
    (hne : pen.serial ≠ sample.serial) : pen ∈ (t.report sample position now).pens := by
  obtain ⟨k, hk⟩ := List.mem_iff_getElem?.mp hpen
  rcases getElem?_report_or hzero hk with hk | ⟨-, hserial⟩
  · exact List.mem_of_getElem? hk
  · exact absurd hserial hne

theorem exists_getElem?_report (hzero : pen.serial ≠ 0) {i : Nat} (hpen : t.pens[i]? = some pen) :
    ∃ later, (t.report sample position now).pens[i]? = some later ∧
      later.serial = pen.serial := by
  rcases getElem?_report_or hzero hpen with hpen | ⟨hi, hserial⟩
  · exact ⟨pen, hpen, rfl⟩
  · rw [hi, hserial]
    exact ⟨_, getElem?_current _, serial_currentPen_report⟩

theorem Distinct.report (h : t.Distinct) : (t.report sample position now).Distinct := by
  obtain ⟨-, -, -, hothers⟩ := t.report_spec sample position now
  intro i j a b ha hb hab
  have hi := eq_current_iff h ha
  have hj := eq_current_iff h hb
  by_cases hserial : a.serial = sample.serial
  · rw [hi.mpr hserial, hj.mpr (hab.symm.trans hserial)]
  · rw [hothers i (mt hi.mp hserial)] at ha
    rw [hothers j (mt hj.mp (hab ▸ hserial))] at hb
    exact h i j a b ha hb hab

end Report

end PenTable

end PenTouch
