import Mathlib
import PenTouch.CommandLine.Program
import PenTouch.Proofs.Contact.Distribution

/-!
# What a survey records

A survey takes the stable contacts out of the calls to a sink and forgets everything else about
them: in which frames they came, in which order, with which other contacts, and what the pen did in
between. Its summary is a function of how often each size occurs (`summary?_perm`).
-/

namespace PenTouch.Survey

/-! ## Calls to a sink -/

/-- The survey of the contacts that a sink was given, frame by frame. -/
def ofCalls (diagonal : Float) (calls : List Call) : Survey :=
  (CommandLine.frames calls).foldl (·.record ·) { diagonal }

/-- The stable contacts that a sink was given. -/
def stableContacts (calls : List Call) : List (Contact Float) :=
  (CommandLine.frames calls).flatten.filter (·.stable)

/-- The major and the minor sizes of the stable contacts that a sink was given. -/
def stableSizes (calls : List Call) : List (Float × Float) :=
  (stableContacts calls).map fun c => (c.major, c.minor)

/-! ## Records -/

theorem record_shapes (s : Survey) (contacts : List (Contact Float)) :
    (s.record contacts).shapes =
      s.shapes ++ (contacts.filter (·.stable)).map (·.shape s.diagonal) := rfl

theorem foldl_record (s : Survey) (frames : List (List (Contact Float))) :
    (frames.foldl (·.record ·) s).shapes =
      s.shapes ++ (frames.flatten.filter (·.stable)).map (·.shape s.diagonal) := by
  induction frames generalizing s with
  | nil => simp
  | cons frame frames ih =>
    rw [List.foldl_cons, ih, record_shapes, List.flatten_cons, List.filter_append, List.map_append,
      List.append_assoc]
    rfl

theorem ofCalls_shapes (diagonal : Float) (calls : List Call) :
    (ofCalls diagonal calls).shapes = (stableContacts calls).map (·.shape diagonal) :=
  foldl_record { diagonal } _

/-- The shape of a contact with the two sizes. -/
def shapeOf (diagonal : Float) (size : Float × Float) : Shape where
  length := .ofOperation size.1 diagonal (size.1 * diagonal)
  aspect := .ofOperation size.1 size.2 (if size.2 > 0.0 then size.1 / size.2 else Scalar.unbounded)

theorem ofCalls_shapes_eq (diagonal : Float) (calls : List Call) :
    (ofCalls diagonal calls).shapes = (stableSizes calls).map (shapeOf diagonal) := by
  rw [ofCalls_shapes, stableSizes, List.map_map]
  rfl

/-! ## Summaries -/

theorem summary?_of_shapes_perm {s s' : Survey} (h : s.shapes.Perm s'.shapes) :
    s.summary? = s'.summary? := by
  unfold summary?
  rw [Distribution.ofMeasures?_perm (h.map _), Distribution.ofMeasures?_perm (h.map _),
    h.length_eq]

structure Summary.About (summary : Summary) (shapes : List Shape) : Prop where
  samples : summary.samples = shapes.length
  length : summary.length.Within (shapes.map (·.length))
  aspect : summary.aspect.Within (shapes.map (·.aspect))

theorem summary?_of_nil {s : Survey} (h : s.shapes = []) : s.summary? = none := by
  unfold summary?
  rw [h, List.map_nil, Distribution.ofMeasures?_nil]
  rfl

theorem exists_summary? {s : Survey} (h : s.shapes ≠ []) :
    ∃ summary, s.summary? = some summary ∧ summary.About s.shapes := by
  obtain ⟨length, hlength, hwithin⟩ := Distribution.exists_ofMeasures?
    (l := s.shapes.map (·.length)) (by simpa using h)
  obtain ⟨aspect, haspect, hwithin'⟩ := Distribution.exists_ofMeasures?
    (l := s.shapes.map (·.aspect)) (by simpa using h)
  refine ⟨⟨s.shapes.length, length, aspect⟩, ?_, rfl, hwithin, hwithin'⟩
  unfold summary?
  rw [hlength, haspect]
  rfl

theorem summary?_eq_none_iff {s : Survey} : s.summary? = none ↔ s.shapes = [] := by
  refine ⟨fun hnone => ?_, summary?_of_nil⟩
  by_contra hne
  obtain ⟨summary, hsome, -⟩ := exists_summary? hne
  rw [hnone] at hsome
  cases hsome

theorem about_of_summary? {s : Survey} {summary : Summary} (h : s.summary? = some summary) :
    summary.About s.shapes := by
  have hne : s.shapes ≠ [] := fun hnil => by
    rw [summary?_of_nil hnil] at h
    cases h
  obtain ⟨summary', hsome, habout⟩ := exists_summary? hne
  rw [h] at hsome
  exact Option.some.inj hsome ▸ habout

/-- **What a survey records.** The summary depends on how often each pair of sizes occurs among the
stable contacts, and on nothing else. There is one if there is a stable contact, and its percentiles
are recorded values in their order. -/
theorem summary?_perm {diagonal : Float} {calls calls' : List Call}
    (h : (stableSizes calls).Perm (stableSizes calls')) :
    (ofCalls diagonal calls).summary? = (ofCalls diagonal calls').summary? ∧
      ((ofCalls diagonal calls).summary? = none ↔ stableContacts calls = []) ∧
      ∀ summary, (ofCalls diagonal calls).summary? = some summary →
        summary.About ((stableContacts calls).map (·.shape diagonal)) := by
  refine ⟨?_, ?_, fun summary hsome => ?_⟩
  · apply summary?_of_shapes_perm
    rw [ofCalls_shapes_eq, ofCalls_shapes_eq]
    exact h.map _
  · rw [summary?_eq_none_iff, ofCalls_shapes, List.map_eq_nil_iff]
  · rw [← ofCalls_shapes]
    exact about_of_summary? hsome

/-- A contact in the middle of the panel. -/
def contactOf (major minor : Float) (stable : Bool) : Contact Float where
  mean := ⟨0.5, 0.5⟩
  major
  minor
  orientation := 0.0
  id := 0
  stable
  validity := .valid

/-- Two stable contacts in one frame. -/
def together : List Call :=
  [.startSink, .output (.contacts [contactOf 0.02 0.01 true, contactOf 0.03 0.02 true]), .stopSink]

/-- The same contacts in two frames, the other way round, with an unstable one and a pen. -/
def apart : List Call :=
  [.output (.contacts [contactOf 0.03 0.02 true, contactOf 0.5 0.1 false]),
    .output (.pen { PenState.outOfRange 7 with position := ⟨1.0, 2.0⟩ }), .output (.contacts []),
    .output (.contacts [contactOf 0.02 0.01 true])]

theorem summary?_together_eq_apart :
    (stableSizes together).Perm (stableSizes apart) ∧
      (ofCalls 300.0 together).summary? = (ofCalls 300.0 apart).summary? :=
  have h : (stableSizes together).Perm (stableSizes apart) :=
    List.Perm.swap (0.03, 0.02) (0.02, 0.01) []
  ⟨h, (summary?_perm h).1⟩

end PenTouch.Survey
