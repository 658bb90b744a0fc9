import Mathlib.Data.List.Forall2
import PenTouch.Session

/-!
# The touch path and the pen path

Touches and pens share a session, but neither changes what the other one does.

1. `screened_processAll`: the contacts that a session reports are those of its finder alone, some of
   them made invalid. The finder depends on the readings of the frames and on nothing else.
2. `PenAgree.purge`: the pen events that a session reports stay the same when all frames are taken
   out of its events.
-/

namespace PenTouch

/-! ## The touch path -/

def Event.frame? : Event → Option Frame
  | frame f => some f
  | pen _ _ => none
  | window _ => none

/-- The frames hold the same readings of the same panel; they need not be of the same time. -/
structure Frame.SameReading (f g : Frame) : Prop where
  cells : f.cells = g.cells
  width : f.width = g.width
  height : f.height = g.height
  zMin : f.zMin = g.zMin
  zMax : f.zMax = g.zMax

theorem Frame.SameReading.isUsable_eq {f g : Frame} (h : f.SameReading g) :
    f.isUsable = g.isUsable := by
  unfold Frame.isUsable
  rw [h.width, h.height, h.zMin, h.zMax]

theorem Frame.SameReading.heat_eq {f g : Frame} (h : f.SameReading g) :
    (f.heat : Grid Float) = g.heat := by
  unfold Frame.heat Frame.level Frame.intensity
  rw [h.cells, h.width, h.height, h.zMin, h.zMax]

def Frame.heats (frames : List Frame) : List (Grid Float) :=
  (frames.filter Frame.isUsable).map Frame.heat

theorem Frame.heats_cons (f : Frame) (frames : List Frame) :
    heats (f :: frames) = if f.isUsable then f.heat :: heats frames else heats frames := by
  unfold heats
  rw [List.filter_cons]
  split <;> rfl

theorem Frame.heats_congr {frames frames' : List Frame}
    (h : List.Forall₂ Frame.SameReading frames frames') : heats frames = heats frames' := by
  induction h with
  | nil => rfl
  | cons hfg _ ih => rw [heats_cons, heats_cons, hfg.isUsable_eq, hfg.heat_eq, ih]

/-- The contacts that a finder gives for one frame after the other. -/
def Finder.run (f : Finder Float) : List (Grid Float) → List (List (Contact Float))
  | [] => []
  | heat :: heats => (f.find heat).2 :: (f.find heat).1.run heats

/-- A reported contact is the one that was found, or that one made invalid. -/
def Contact.Screens (found reported : Contact Float) : Prop :=
  reported = found ∨ reported = { found with validity := .invalid }

theorem PenTable.screens_screen (pens : PenTable) (panel : Panel) (contacts : List (Contact Float))
    (now : Time) :
    List.Forall₂ Contact.Screens contacts (pens.screen panel contacts now).contacts := by
  unfold PenTable.screen
  split
  · refine List.forall₂_map_right_iff.mpr (List.forall₂_same.mpr fun c _ => ?_)
    split
    · exact Or.inr rfl
    · exact Or.inl rfl
  · exact List.forall₂_same.mpr fun c _ => Or.inl rfl

namespace Session

def contactLists (s : Session) (events : List Event) : List (List (Contact Float)) :=
  (s.processAll events).2.filterMap Output.contacts?

def penEvents (s : Session) (events : List Event) : List (PenEvent Float) :=
  (s.processAll events).2.filterMap Output.pen?

theorem contactLists_cons (s : Session) (e : Event) (events : List Event) :
    s.contactLists (e :: events) =
      (s.process e).2.toList.filterMap Output.contacts? ++
        (s.process e).1.contactLists events := by
  unfold contactLists
  rw [processAll, List.filterMap_append]

theorem penEvents_cons (s : Session) (e : Event) (events : List Event) :
    s.penEvents (e :: events) =
      (s.process e).2.toList.filterMap Output.pen? ++ (s.process e).1.penEvents events := by
  unfold penEvents
  rw [processAll, List.filterMap_append]

/-- Finds and screens the contacts of a usable frame. -/
def touch (s : Session) (f : Frame) : Session := s.touchWith f f.heat

/-- The intensities of earlier frames do not matter, although they are written over. -/
theorem process_usable (s : Session) {f : Frame} (hf : f.isUsable = true) :
    s.process (.frame f) = ((s.countFrame f).touch f,
      some (.contacts ((s.countFrame f).touch f).contacts)) := by
  unfold touch
  rw [← f.heatOver_eq s.heat]
  exact if_pos hf

theorem process_unusable (s : Session) {f : Frame} (hf : ¬f.isUsable = true) :
    s.process (.frame f) = ({ s.countFrame f with contacts := [] }, none) :=
  if_neg hf

/-- **The touch path.** The finder goes from usable frame to usable frame as if there were no pens,
and what it finds is reported, apart from contacts that are made invalid. -/
theorem screened_processAll (s : Session) (events : List Event) :
    List.Forall₂ (List.Forall₂ Contact.Screens)
      (s.finder.run (Frame.heats (events.filterMap Event.frame?))) (s.contactLists events) := by
  induction events generalizing s with
  | nil => exact List.Forall₂.nil
  | cons e events ih =>
    have hrest := ih (s.process e).1
    rw [contactLists_cons]
    cases e with
    | frame f =>
      show List.Forall₂ _ (s.finder.run (Frame.heats (f :: events.filterMap Event.frame?))) _
      rw [Frame.heats_cons]
      by_cases hf : f.isUsable = true
      · rw [process_usable s hf] at hrest ⊢
        rw [if_pos hf]
        exact List.Forall₂.cons (PenTable.screens_screen _ _ _ _) hrest
      · rw [process_unusable s hf] at hrest ⊢
        rw [if_neg hf]
        exact hrest
    | pen sample time => exact hrest
    | window w => exact hrest

/-! ## The pen path -/

/-- The sessions agree in all that a pen event is made of. -/
structure PenAgree (s t : Session) : Prop where
  estimator : s.estimator = t.estimator
  width : s.settings.width = t.settings.width
  height : s.settings.height = t.settings.height

theorem PenAgree.refl (s : Session) : s.PenAgree s := ⟨rfl, rfl, rfl⟩

/-- A frame changes nothing that a pen event is made of, and says nothing of a pen. -/
theorem PenAgree.frame {s t : Session} (h : s.PenAgree t) (f : Frame) :
    (s.process (.frame f)).1.PenAgree t ∧
      (s.process (.frame f)).2.toList.filterMap Output.pen? = [] := by
  by_cases hf : f.isUsable = true
  · rw [process_usable s hf]
    exact ⟨⟨h.estimator, h.width, h.height⟩, rfl⟩
  · rw [process_unusable s hf]
    exact ⟨⟨h.estimator, h.width, h.height⟩, rfl⟩

theorem answer_pen (s : Session) (sample : PenSample Float) (time : Time) :
    (s.process (.pen sample time)).2 =
      some (.pen (sample.toEvent (sample.physical s.settings.width s.settings.height))) :=
  rfl

theorem answer_window (s : Session) (w : Window Float) :
    (s.process (.window w)).2 =
      let sample := (s.estimator.input w).sample
      some (.pen (sample.toEvent (sample.physical s.settings.width s.settings.height))) :=
  rfl

/-- Sessions that agree answer a pen's event alike, and agree again. -/
theorem PenAgree.step {s t : Session} (h : s.PenAgree t) {e : Event} (he : e.frame? = none) :
    (s.process e).1.PenAgree (t.process e).1 ∧ (s.process e).2 = (t.process e).2 := by
  cases e with
  | frame f => cases he
  | pen sample time =>
    refine ⟨⟨h.estimator, h.width, h.height⟩, ?_⟩
    rw [answer_pen, answer_pen, h.width, h.height]
  | window w =>
    refine ⟨⟨congrArg (·.input w) h.estimator, h.width, h.height⟩, ?_⟩
    rw [answer_window, answer_window, h.estimator, h.width, h.height]

/-- **The pen path.** Taking out the frames changes no pen event. -/
theorem PenAgree.purge {s t : Session} (h : s.PenAgree t) (events : List Event) :
    s.penEvents events = t.penEvents (events.filter (·.frame?.isNone)) := by
  induction events generalizing s t with
  | nil => rfl
  | cons e events ih =>
    rw [penEvents_cons]
    cases he : e.frame? with
    | none =>
      obtain ⟨hagree, hanswer⟩ := h.step he
      rw [List.filter_cons_of_pos (by rw [he]; rfl), penEvents_cons, ih hagree, hanswer]
    | some f =>
      cases e with
      | frame g =>
        obtain ⟨hagree, hanswer⟩ := h.frame g
        rw [List.filter_cons_of_neg (by rw [he]; exact Bool.false_ne_true), hanswer, ih hagree]
        rfl
      | pen sample time => cases he
      | window w => cases he

end Session

/-! ## Separation -/

/-- The contacts agree in all but what their shape says about them. -/
def Contact.SameTouch (c c' : Contact Float) : Prop :=
  c.toCandidate = c'.toCandidate ∧ c.id = c'.id ∧ c.stable = c'.stable

theorem Contact.Screens.sameTouch {found c c' : Contact Float} (h : found.Screens c)
    (h' : found.Screens c') : c.SameTouch c' := by
  rcases h with rfl | rfl <;> rcases h' with rfl | rfl <;> exact ⟨rfl, rfl, rfl⟩

/-- Two lists that are related to the same list are related to each other. -/
theorem forall₂_of_common {α β : Type} {R : α → β → Prop} {S : β → β → Prop}
    (hRS : ∀ a b c, R a b → R a c → S b c) {as : List α} {bs cs : List β}
    (hb : List.Forall₂ R as bs) (hc : List.Forall₂ R as cs) : List.Forall₂ S bs cs := by
  induction hb generalizing cs with
  | nil =>
    cases hc
    exact List.Forall₂.nil
  | cons hab _ ih =>
    cases hc with
    | cons hac hrest => exact List.Forall₂.cons (hRS _ _ _ hab hac) (ih hrest)

/-- **Separation.** If two runs have panels of one size, the same touch settings, and frames with
the same readings in the same order, then they report the same contacts, frame by frame, and each
run judges a contact as its finder does or makes it invalid, whatever the pens do. If two runs have
panels of one size, the same pen settings and metadata, and the same pen samples and antenna windows
in the same order, then they report the same pen events, whatever the frames are. -/
theorem paths_separate :
    (∀ (settings settings' : SessionSettings) (metadata metadata' : Option (Metadata Float))
        (events events' : List Event),
      settings.width = settings'.width → settings.height = settings'.height →
      settings.touch = settings'.touch →
      List.Forall₂ Frame.SameReading (events.filterMap Event.frame?)
        (events'.filterMap Event.frame?) →
      let lists := (Session.new settings metadata).contactLists events
      let lists' := (Session.new settings' metadata').contactLists events'
      let found := Finder.run { settings := settings.contacts }
        (Frame.heats (events.filterMap Event.frame?))
      List.Forall₂ (List.Forall₂ Contact.SameTouch) lists lists' ∧
        List.Forall₂ (List.Forall₂ Contact.Screens) found lists ∧
        List.Forall₂ (List.Forall₂ Contact.Screens) found lists') ∧
    ∀ (settings settings' : SessionSettings) (metadata : Option (Metadata Float))
        (events events' : List Event),
      settings.width = settings'.width → settings.height = settings'.height →
      settings.pen = settings'.pen →
      events.filter (·.frame?.isNone) = events'.filter (·.frame?.isNone) →
      (Session.new settings metadata).penEvents events =
        (Session.new settings' metadata).penEvents events' := by
  constructor
  · intro settings settings' metadata metadata' events events' hwidth hheight htouch hframes
    have hsettings : settings.contacts = settings'.contacts := by
      unfold SessionSettings.contacts SessionSettings.diagonal
      rw [hwidth, hheight, htouch]
    have h := (Session.new settings metadata).screened_processAll events
    have h' := (Session.new settings' metadata').screened_processAll events'
    rw [← Frame.heats_congr hframes] at h'
    have hfinder : (Session.new settings' metadata').finder =
        { settings := settings.contacts } := by
      rw [hsettings]
      rfl
    rw [hfinder] at h'
    refine ⟨forall₂_of_common (fun _ _ _ hb hc => ?_) h h', h, h'⟩
    exact forall₂_of_common (fun _ _ _ hb hc => hb.sameTouch hc) hb hc
  · intro settings settings' metadata events events' hwidth hheight hpen hevents
    have hagree : (Session.new settings' metadata).PenAgree (Session.new settings metadata) := by
      refine ⟨?_, hwidth.symm, hheight.symm⟩
      unfold Session.new
      rw [hwidth, hheight, hpen]
    rw [(Session.PenAgree.refl _).purge events, hagree.purge events', hevents]

/-- A frame that comes later, and a pen beside it under other cone settings, change no contact; and
a frame beside a pen changes no pen event. -/
theorem paths_separate_frame_pen :
    let f : Frame := ⟨#[200, 10, 200, 200], 2, 2, 10, 200, 0, 0⟩
    let pen : Event := .pen { PenSample.outOfRange 7 with proximity := true } 3
    let s := Session.new {} none
    let s' := Session.new { cone := { ConeSettings.default with enabled := false } } none
    List.Forall₂ (List.Forall₂ Contact.SameTouch)
        (s.contactLists [pen, .frame f]) (s'.contactLists [.frame { f with time := 5 }]) ∧
      s.penEvents [pen, .frame f] = s'.penEvents [pen] := by
  intro f pen s s'
  have hframes : List.Forall₂ Frame.SameReading [f] [{ f with time := 5 }] :=
    List.Forall₂.cons ⟨rfl, rfl, rfl, rfl, rfl⟩ List.Forall₂.nil
  exact ⟨(paths_separate.1 {} _ none none [pen, .frame f] [.frame { f with time := 5 }]
    rfl rfl rfl hframes).1, paths_separate.2 {} _ none [pen, .frame f] [pen] rfl rfl rfl rfl⟩

end PenTouch
