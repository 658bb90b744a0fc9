import PenTouch.Proofs.Contact.Identity

/-!
# What a finder remembers

A finder writes the heights, the labels, the candidates and the contacts of a frame over those of an
earlier one. None of them is read again: the heights and the labels of a frame have every cell
written before any is looked at, and the candidates and contacts are filled into emptied arrays. So
all that a finder remembers of earlier frames is its tracks.

1. `Grid.baseline_eq_map`, `findBlobs_labels`: what was in the grids before does not matter.
2. `find_eq`: a frame is one update of the tracker, with the candidates seen in that frame alone.
3. `findInto_eq`: writing over buffers gives what writing to new ones does.
4. `Alike.reports`: so finders with the same settings and tracks go on to report the same.
-/

namespace PenTouch

variable {α : Type}

/-! ## Finders that are alike -/

namespace Finder

/-- The finders have the same settings and the same tracks. Their grids may differ. -/
structure Alike (f g : Finder α) : Prop where
  settings : f.settings = g.settings
  tracker : f.tracker = g.tracker

theorem Alike.reset {f g : Finder α} (h : f.Alike g) : f.reset.Alike g.reset := ⟨h.settings, rfl⟩

theorem alike_reset (f : Finder α) : f.reset.Alike { settings := f.settings } := ⟨rfl, rfl⟩

end Finder

variable [Scalar α]

/-! ## Grids -/

theorem Grid.ext_cells {β : Type} {g h : Grid β} (hrows : g.rows = h.rows) (hcols : g.cols = h.cols)
    (hcells : g.cells = h.cells) : g = h := by
  cases g
  cases h
  cases hrows
  cases hcols
  cases hcells
  rfl

/-- The height of each cell is written, whatever was there. -/
theorem Grid.baseline_eq_map (heat : Grid α) (level : α) (out : Grid α) :
    heat.baseline level out = heat.map (heightOver level) := by
  refine ext_cells (rows_resize ..) (cols_resize ..) (Array.ext ?_ fun i h h' => ?_)
  · rw [size_cells, size_cells]
    exact congrArg₂ (· * ·) (rows_resize ..) (cols_resize ..)
  · simp [baseline, Grid.map]

/-- All cells are without a label at first, whatever their labels were. -/
theorem findBlobs_labels (heat : Grid α) (activation deactivation : α) (labels : Grid Nat) :
    findBlobs heat activation deactivation labels =
      findBlobs heat activation deactivation .empty := by
  have hclean : ∀ g : Grid Nat,
      (g.resize heat.rows heat.cols 0).1.fill 0 = .replicate heat.rows heat.cols 0 := by
    intro g
    unfold Grid.fill
    rw [Grid.rows_resize, Grid.cols_resize]
  unfold findBlobs
  rw [hclean, hclean]

namespace Finder

/-! ## One frame -/

/-- The candidates that are seen in a frame. -/
def seen (settings : TouchSettings α) (heat : Grid α) : List (Candidate α) :=
  if heat.cells.isEmpty then []
  else
    let heights := heat.map (heightOver (settings.neutral.level heat))
    candidates settings heights
      (findBlobs heights settings.activation settings.deactivation .empty)

theorem seen_of_isEmpty (settings : TouchSettings α) {heat : Grid α}
    (h : heat.cells.isEmpty = true) : seen settings heat = [] := if_pos h

/-- **One frame.** The tracker is updated with the candidates that are seen in the frame. -/
theorem find_eq (f : Finder α) (heat : Grid α) :
    (f.find heat).1.settings = f.settings ∧
      ((f.find heat).1.tracker, (f.find heat).2) =
        f.tracker.update f.settings (seen f.settings heat) := by
  unfold find seen
  split
  · exact ⟨rfl, rfl⟩
  · dsimp only
    rw [Grid.baseline_eq_map, findBlobs_labels _ _ _ f.labels]
    exact ⟨rfl, rfl⟩

/-- The update of a finder's tracker comes out in the finder and in the buffers. -/
theorem findInto_eq (f : Finder α) (heat : Grid α) (b : Buffers α) :
    f.findInto heat b =
      ((f.find heat).1,
        { candidates := (seen f.settings heat).toArray
          contacts := (f.find heat).2.toArray }) := by
  unfold findInto find seen Tracker.updateInto
  split
  · simp
  · dsimp only
    rw [Grid.baseline_eq_map, findBlobs_labels _ _ _ f.labels]
    simp

/-! ## Many frames -/

/-- The contacts of each frame of a run, when a frame may find anything in its buffers. -/
def reports : Finder α → List (Action α × Buffers α) → List (Array (Contact α))
  | _, [] => []
  | f, (.find heat, b) :: run => (f.findInto heat b).2.contacts :: (f.findInto heat b).1.reports run
  | f, (.reset, _) :: run => f.reset.reports run

variable {f g : Finder α}

theorem Alike.find (h : f.Alike g) (heat : Grid α) :
    (f.find heat).1.Alike (g.find heat).1 ∧ (f.find heat).2 = (g.find heat).2 := by
  obtain ⟨hf, hfind⟩ := f.find_eq heat
  obtain ⟨hg, hfind'⟩ := g.find_eq heat
  rw [h.settings, h.tracker, ← hfind'] at hfind
  obtain ⟨htracker, hcontacts⟩ := Prod.mk.inj hfind
  exact ⟨⟨hf.trans (h.settings.trans hg.symm), htracker⟩, hcontacts⟩

theorem Alike.findInto (h : f.Alike g) (heat : Grid α) (b c : Buffers α) :
    (f.findInto heat b).1.Alike (g.findInto heat c).1 ∧
      (f.findInto heat b).2 = (g.findInto heat c).2 := by
  obtain ⟨hnext, hcontacts⟩ := h.find heat
  rw [findInto_eq, findInto_eq, hcontacts, h.settings]
  exact ⟨hnext, rfl⟩

/-- **Runs.** Finders that are alike report the same, whatever is in their buffers. -/
theorem Alike.reports (h : f.Alike g) {run run' : List (Action α × Buffers α)}
    (hrun : run.map (·.1) = run'.map (·.1)) : f.reports run = g.reports run' := by
  induction run generalizing f g run' with
  | nil =>
    cases run' with
    | nil => rfl
    | cons call run' => cases hrun
  | cons call run ih =>
    cases run' with
    | nil => cases hrun
    | cons call' run' =>
      obtain ⟨action, b⟩ := call
      obtain ⟨action', c⟩ := call'
      obtain ⟨haction, hrest⟩ := List.cons.inj hrun
      cases haction
      cases action with
      | find heat =>
        obtain ⟨hnext, hbuffers⟩ := h.findInto heat b c
        exact congrArg₂ List.cons (congrArg (·.contacts) hbuffers) (ih hnext hrest)
      | reset => exact ih h.reset hrest

theorem alike_find_of_isEmpty (f : Finder α) {heat : Grid α} (h : heat.cells.isEmpty = true) :
    (f.find heat).1.Alike { settings := f.settings } ∧ (f.find heat).2 = [] := by
  obtain ⟨hsettings, hfind⟩ := f.find_eq heat
  rw [seen_of_isEmpty _ h] at hfind
  obtain ⟨htracker, hcontacts⟩ := Prod.mk.inj hfind
  exact ⟨⟨hsettings, htracker⟩, hcontacts⟩

/-- **What is remembered.** Of earlier frames only the tracks count. Two finders with the same
settings and tracks find the same candidates and contacts in a frame, and have the same tracks after
it, whatever is in their grids and in the buffers that they write to; so they report the same for
any further frames and resets. A finder that has been reset or has seen a frame without cells,
whatever it did before, goes on to report what a new one with its settings does. -/
theorem tracks_alone_remembered :
    (∀ f g : Finder α, f.settings = g.settings → f.tracker.tracks = g.tracker.tracks →
      (∀ (heat : Grid α) (b c : Buffers α),
        (f.findInto heat b).2 = (g.findInto heat c).2 ∧
          (f.findInto heat b).2.contacts = (g.find heat).2.toArray ∧
          (f.findInto heat b).1.tracker.tracks = (g.findInto heat c).1.tracker.tracks) ∧
      ∀ run run' : List (Action α × Buffers α), run.map (·.1) = run'.map (·.1) →
        f.reports run = g.reports run') ∧
    ∀ (f : Finder α) (run run' : List (Action α × Buffers α)), run.map (·.1) = run'.map (·.1) →
      let new : Finder α := { settings := f.settings }
      f.reset.reports run = new.reports run' ∧
        ∀ (heat : Grid α) (b : Buffers α), heat.cells.isEmpty = true →
          (f.findInto heat b).2.contacts = #[] ∧
            (f.findInto heat b).1.reports run = new.reports run' := by
  constructor
  · intro f g hsettings htracks
    have h : f.Alike g := ⟨hsettings, congrArg Tracker.mk htracks⟩
    refine ⟨fun heat b c => ?_, fun run run' => h.reports⟩
    obtain ⟨hnext, hbuffers⟩ := h.findInto heat b c
    refine ⟨hbuffers, ?_, congrArg (·.tracks) hnext.tracker⟩
    rw [hbuffers, findInto_eq]
  · intro f run run' hrun new
    refine ⟨f.alike_reset.reports hrun, fun heat b hempty => ?_⟩
    obtain ⟨hnew, hnone⟩ := f.alike_find_of_isEmpty hempty
    rw [findInto_eq, hnone]
    exact ⟨rfl, hnew.reports hrun⟩

/-- A finder with the grids of an earlier frame beside one without, and buffers that hold a contact
beside empty ones. -/
theorem tracks_alone_remembered_stale :
    let heat : Grid Float := .ofFn 2 3 fun i => if i = 4 then 1.0 else 0.0
    let track : Track Float := { id := 1, mean := ⟨0.5, 0.75⟩, major := 0.05, streak := 2, palm := true }
    let stale : Contact Float :=
      { mean := ⟨0.1, 0.1⟩, major := 0.2, minor := 0.2, orientation := 0.0, id := 3, stable := true,
        validity := .valid }
    let g : Finder Float := { settings := .relative, tracker := ⟨[track]⟩ }
    let f : Finder Float := { g with heights := heat, labels := .replicate 2 3 1 }
    let used : Buffers Float := { candidates := #[stale.toCandidate], contacts := #[stale, stale] }
    let new : Finder Float := { settings := .relative }
    (f.findInto heat used).2 = (g.findInto heat {}).2 ∧
      f.reports [(.find heat, used), (.reset, used)] = g.reports [(.find heat, {}), (.reset, {})] ∧
      f.reset.reports [(.find heat, used)] = new.reports [(.find heat, {})] ∧
      (f.findInto .empty used).2.contacts = #[] ∧
      (f.findInto .empty used).1.reports [(.find heat, used)] = new.reports [(.find heat, {})] := by
  intro heat track stale g f used new
  obtain ⟨hframe, hruns⟩ := tracks_alone_remembered.1 f g rfl rfl
  obtain ⟨hreset, hempty⟩ := tracks_alone_remembered.2 f [(.find heat, used)] [(.find heat, {})] rfl
  exact ⟨(hframe heat used {}).1, hruns _ _ rfl, hreset, hempty .empty used rfl⟩

end Finder

end PenTouch
