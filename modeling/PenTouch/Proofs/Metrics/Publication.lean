import Mathlib
import PenTouch.Metrics.Monitor
import PenTouch.Proofs.Session.History

/-!
# What a monitor reports

A registry keeps the largest totals that were published, a monitor the last snapshot. The two are
the same as long as no total falls from one snapshot to the next, and none does in a session.

1. `Metric.gauge_or_counter`: a snapshot replaces the number of active cones and advances the
   totals.
2. `Monitor.Reports.publish`: one more snapshot, and by induction any list of them.
3. `Session.totalsLe_after`: a session never takes a total back, so its snapshots agree with the
   registry (`agree_of_chain`).
-/

namespace PenTouch

/-! ## Totals -/

/-- No total of the first counters is above that of the second. -/
structure Counters.TotalsLe (c d : Counters) : Prop where
  frames : c.frames ≤ d.frames
  samples : c.samples ≤ d.samples
  windows : c.windows ≤ d.windows
  contacts : c.contacts ≤ d.contacts
  rejected : c.rejected ≤ d.rejected
  malformed : c.malformed ≤ d.malformed
  resizes : c.resizes ≤ d.resizes

namespace Counters.TotalsLe

variable {c d e : Counters}

theorem refl (c : Counters) : c.TotalsLe c := by constructor <;> exact le_rfl

theorem trans (h : c.TotalsLe d) (h' : d.TotalsLe e) : c.TotalsLe e where
  frames := h.frames.trans h'.frames
  samples := h.samples.trans h'.samples
  windows := h.windows.trans h'.windows
  contacts := h.contacts.trans h'.contacts
  rejected := h.rejected.trans h'.rejected
  malformed := h.malformed.trans h'.malformed
  resizes := h.resizes.trans h'.resizes

theorem zero (c : Counters) : Counters.TotalsLe {} c := by constructor <;> exact Nat.zero_le _

end Counters.TotalsLe

namespace Metric

structure ShowsCones (metric : Metric) : Prop where
  value : ∀ r, metric.value r = r.activeCones
  counted : ∀ snapshot, metric.counted snapshot = snapshot.activeCones

/-- The metric is a total that is advanced, from zero. -/
structure ShowsTotal (metric : Metric) : Prop where
  value_zero : metric.value {} = 0
  counted_zero : metric.counted {} = 0
  update : ∀ (r : Registry) (snapshot : Counters),
    metric.value (r.update snapshot) = max (metric.value r) (metric.counted snapshot)
  mono : ∀ {c d : Counters}, c.TotalsLe d → metric.counted c ≤ metric.counted d

variable {metric : Metric} (hmem : metric ∈ all)

include hmem

theorem gauge_or_counter : metric.kind = .gauge ∧ metric.ShowsCones ∨
    metric.kind = .counter ∧ metric.ShowsTotal := by
  have hadvance : ∀ current total : ℕ,
      ((Registry.advance current total : ℕ) : ℤ) = max (current : ℤ) total := by
    intro current total
    rw [Registry.advance_eq_max]
    omega
  simp only [all, List.mem_cons, List.not_mem_nil, or_false] at hmem
  rcases hmem with rfl | rfl | rfl | rfl | rfl | rfl | rfl | rfl
  · exact Or.inr ⟨rfl, rfl, rfl, fun _ _ => hadvance _ _, Counters.TotalsLe.frames⟩
  · exact Or.inr ⟨rfl, rfl, rfl, fun _ _ => hadvance _ _, Counters.TotalsLe.samples⟩
  · exact Or.inr ⟨rfl, rfl, rfl, fun _ _ => hadvance _ _, Counters.TotalsLe.windows⟩
  · exact Or.inr ⟨rfl, rfl, rfl, fun _ _ => hadvance _ _, Counters.TotalsLe.malformed⟩
  · exact Or.inr ⟨rfl, rfl, rfl, fun _ _ => hadvance _ _, Counters.TotalsLe.resizes⟩
  · exact Or.inr ⟨rfl, rfl, rfl, fun _ _ => hadvance _ _, Counters.TotalsLe.contacts⟩
  · exact Or.inr ⟨rfl, rfl, rfl, fun _ _ => hadvance _ _, Counters.TotalsLe.rejected⟩
  · exact Or.inl ⟨rfl, fun _ => rfl, fun _ => rfl⟩

theorem showsTotal (hkind : metric.kind = .counter) : metric.ShowsTotal := by
  rcases gauge_or_counter hmem with ⟨hgauge, -⟩ | ⟨-, hspec⟩
  · rw [hkind] at hgauge
    cases hgauge
  · exact hspec

end Metric

/-- The registry shows the counters of a snapshot. -/
def Registry.Agrees (r : Registry) (c : Counters) : Prop :=
  ∀ metric ∈ Metric.all, metric.value r = metric.counted c

theorem Registry.activeCones_update {snapshot : Counters} (h : snapshot.activeCones < 2 ^ 63)
    (r : Registry) : (r.update snapshot).activeCones = snapshot.activeCones := by
  have hsize : (UInt64.size : ℤ) = 2 ^ 64 := rfl
  unfold update
  dsimp only
  rw [Int.bmod_eq_of_le (by omega) (by omega)]

theorem Registry.Agrees.update {r : Registry} {c d : Counters} (h : r.Agrees c)
    (hle : c.TotalsLe d) (hcones : d.activeCones < 2 ^ 63) : (r.update d).Agrees d := by
  intro metric hmem
  rcases Metric.gauge_or_counter hmem with ⟨-, hshows⟩ | ⟨-, hshows⟩
  · rw [hshows.value, hshows.counted, activeCones_update hcones]
  · rw [hshows.update, h metric hmem]
    exact max_eq_right (Nat.cast_le.mpr (hshows.mono hle))

/-! ## Sessions -/

namespace Session

variable (s : Session)

theorem totalsLe_process (e : Event) : s.counters.TotalsLe (s.process e).1.counters := by
  cases e with
  | frame f =>
    by_cases hf : f.isUsable = true
    · rw [s.counters_usable hf]
      constructor <;> simp
    · rw [s.process_unusable hf]
      constructor <;> simp [countFrame]
  | pen sample time => constructor <;> simp [process, processSample]
  | window w => constructor <;> simp [process, processWindow, processSample]

theorem totalsLe_after (events : List Event) :
    s.counters.TotalsLe (s.after events).counters := by
  induction events generalizing s with
  | nil => exact .refl _
  | cons e events ih => exact (s.totalsLe_process e).trans (ih _)

theorem totalsLe_of_prefix {before events : List Event} (h : before <+: events) :
    (s.after before).counters.TotalsLe (s.after events).counters := by
  obtain ⟨rest, rfl⟩ := h
  rw [after_append]
  exact totalsLe_after _ rest

end Session

/-! ## Snapshots -/

/-- The totals that were published for a metric, and the zero that it starts with. -/
def Metric.published (metric : Metric) (snapshots : List Counters) : Set ℤ :=
  {n | n = 0 ∨ ∃ snapshot ∈ snapshots, metric.counted snapshot = n}

theorem Metric.isGreatest_concat {metric : Metric} {snapshots : List Counters} {n : ℤ}
    (h : IsGreatest (metric.published snapshots) n) (snapshot : Counters) :
    IsGreatest (metric.published (snapshots ++ [snapshot])) (max n (metric.counted snapshot)) := by
  have hset : metric.published (snapshots ++ [snapshot]) =
      metric.published snapshots ∪ {(metric.counted snapshot : ℤ)} := by
    ext n
    simp only [published, List.mem_append, List.mem_singleton, Set.mem_union, Set.mem_ofPred_eq,
      Set.mem_singleton_iff]
    constructor
    · rintro (hzero | ⟨t, ht | rfl, rfl⟩)
      · exact Or.inl (Or.inl hzero)
      · exact Or.inl (Or.inr ⟨t, ht, rfl⟩)
      · exact Or.inr rfl
    · rintro ((hzero | ⟨t, ht, rfl⟩) | rfl)
      · exact Or.inl hzero
      · exact Or.inr ⟨t, Or.inl ht, rfl⟩
      · exact Or.inr ⟨snapshot, Or.inr rfl, rfl⟩
  rw [hset]
  exact h.union isGreatest_singleton

namespace Health

variable {before now : ℕ}

theorem ofFrames_eq_waiting : ofFrames before now = waiting ↔ now = 0 := by
  unfold ofFrames
  split_ifs <;> simp only [true_iff, false_iff] <;> omega

theorem ofFrames_eq_streaming : ofFrames before now = streaming ↔ before < now := by
  unfold ofFrames
  split_ifs <;> simp only [true_iff, false_iff] <;> omega

theorem ofFrames_eq_stalled : ofFrames before now = stalled ↔ 0 < now ∧ now ≤ before := by
  unfold ofFrames
  split_ifs <;> simp only [true_iff, false_iff] <;> omega

end Health

namespace Monitor

def after (snapshots : List Counters) : Monitor := snapshots.foldl publish {}

/-- The last one of a list of snapshots; before any, nothing has been counted. -/
def latest (snapshots : List Counters) : Counters := snapshots.getLast?.getD {}

theorem after_concat (snapshots : List Counters) (snapshot : Counters) :
    after (snapshots ++ [snapshot]) = (after snapshots).publish snapshot := List.foldl_concat ..

theorem latest_concat (snapshots : List Counters) (snapshot : Counters) :
    latest (snapshots ++ [snapshot]) = snapshot := by
  unfold latest
  rw [List.getLast?_concat]
  rfl

/-- What a monitor knows of the snapshots that were published. -/
structure Reports (m : Monitor) (snapshots : List Counters) : Prop where
  total : ∀ metric ∈ Metric.all, metric.kind = .counter →
    IsGreatest (metric.published snapshots) (metric.value m.registry)
  activeCones : (latest snapshots).activeCones < 2 ^ 63 →
    m.registry.activeCones = (latest snapshots).activeCones
  snapshot : m.snapshot = latest snapshots
  waiting : m.health = .waiting ↔ (latest snapshots).frames = 0
  streaming : m.health = .streaming ↔
    (latest snapshots.dropLast).frames < (latest snapshots).frames
  stalled : m.health = .stalled ↔
    0 < (latest snapshots).frames ∧ (latest snapshots).frames ≤ (latest snapshots.dropLast).frames

theorem reports_nil : Reports {} [] where
  total metric hmem hkind := by
    have hzero : metric.value ({} : Monitor).registry = 0 :=
      (Metric.showsTotal hmem hkind).value_zero
    rw [hzero]
    refine ⟨Or.inl rfl, ?_⟩
    rintro n (rfl | ⟨snapshot, hsnapshot, -⟩)
    · exact le_rfl
    · cases hsnapshot
  activeCones _ := rfl
  snapshot := rfl
  waiting := by decide
  streaming := by decide
  stalled := by decide

theorem Reports.publish {m : Monitor} {snapshots : List Counters} (h : m.Reports snapshots)
    (snapshot : Counters) : (m.publish snapshot).Reports (snapshots ++ [snapshot]) := by
  have hhealth : (m.publish snapshot).health =
      .ofFrames (latest snapshots).frames snapshot.frames := by
    rw [← h.snapshot]
    rfl
  constructor
  case total =>
    intro metric hmem hkind
    show IsGreatest _ (metric.value (m.registry.update snapshot))
    rw [(Metric.showsTotal hmem hkind).update]
    exact Metric.isGreatest_concat (h.total metric hmem hkind) snapshot
  case activeCones =>
    rw [latest_concat]
    exact fun hcones => Registry.activeCones_update hcones m.registry
  case snapshot => rw [latest_concat]; rfl
  case waiting => rw [hhealth, latest_concat, Health.ofFrames_eq_waiting]
  case streaming => rw [hhealth, latest_concat, List.dropLast_concat, Health.ofFrames_eq_streaming]
  case stalled => rw [hhealth, latest_concat, List.dropLast_concat, Health.ofFrames_eq_stalled]

theorem reports_after (snapshots : List Counters) : (after snapshots).Reports snapshots := by
  induction snapshots using List.reverseRecOn with
  | nil => exact reports_nil
  | append_singleton snapshots snapshot ih =>
    rw [after_concat]
    exact ih.publish snapshot

/-- **One session.** As long as the snapshots are taken one after the other, the registry agrees
with the last one. -/
theorem agree_of_chain (s : Session) {histories : List (List Event)}
    (h : histories.IsChain (· <+: ·))
    (hcones : ∀ events ∈ histories, (s.after events).counters.activeCones < 2 ^ 63) :
    let m := after (histories.map fun events => (s.after events).counters)
    m.registry.Agrees m.snapshot := by
  intro m
  induction histories using List.reverseRecOn with
  | nil =>
    intro metric hmem
    rcases Metric.gauge_or_counter hmem with ⟨-, hshows⟩ | ⟨-, hshows⟩
    · exact (hshows.value _).trans (congrArg Nat.cast (hshows.counted {}).symm)
    · exact hshows.value_zero.trans (congrArg Nat.cast hshows.counted_zero.symm)
  | append_singleton histories events ih =>
    obtain ⟨hchain, -, hlast⟩ := List.isChain_append.mp h
    obtain ⟨hearlier, hcones⟩ := List.forall_mem_append.mp hcones
    have hagrees := ih hchain hearlier
    unfold m
    rw [List.map_append, List.map_singleton, after_concat]
    refine hagrees.update ?_ (hcones events (List.mem_singleton_self events))
    rw [(reports_after _).snapshot]
    unfold latest
    rw [List.getLast?_map]
    cases hbefore : histories.getLast? with
    | none => exact .zero _
    | some before => exact s.totalsLe_of_prefix (hlast before hbefore events rfl)

theorem latest_mem {snapshots : List Counters} (hne : snapshots ≠ []) :
    latest snapshots ∈ snapshots := by
  unfold latest
  rw [List.getLast?_eq_some_getLast hne]
  exact List.getLast_mem hne

/-! ## Answers -/

/-- What a monitor answers, however the answers are written: the metrics with the values of the
registry, the health with the last snapshot, and the health as a code. -/
structure Answers (m : Monitor) (snapshots : List Counters) : Prop where
  metrics : ∀ (e : Encoders) (text : String),
    e.exposition (Metric.all.map fun metric => metric.family (metric.value m.registry)) = .ok text →
      (m.respond e .metrics).status = 200 ∧ (m.respond e .metrics).body = text
  status : ∀ e : Encoders, (m.respond e .status).status = 200 ∧
    (m.respond e .status).body = e.object (("health", .word m.health.name) ::
      (latest snapshots).named.map fun (name, n) => (name, .count n))
  health : ∀ e : Encoders, ((m.respond e .health).status = 200 ↔ m.health = .streaming)

theorem Reports.answers {m : Monitor} {snapshots : List Counters} (h : m.Reports snapshots) :
    m.Answers snapshots where
  metrics e text htext := by
    have htext : e.exposition m.registry.families = .ok text := htext
    unfold respond
    dsimp only
    rw [htext]
    exact ⟨rfl, rfl⟩
  status e := ⟨rfl, by rw [← h.snapshot]; rfl⟩
  health e := by
    show (if m.health = .streaming then 200 else 503) = 200 ↔ _
    split_ifs with hhealth <;> simp [hhealth]

/-- **Publication.** The totals of the registry are the largest that were published, and its number
of active cones is the latest. The status shows the last snapshot, and the health tells whether it
has more frames than the one before. As long as the snapshots are taken of one session, one after
the other, the metrics and the status show the same eight numbers. -/
theorem after_published (snapshots : List Counters)
    (hcones : ∀ snapshot ∈ snapshots, snapshot.activeCones < 2 ^ 63) :
    (after snapshots).Reports snapshots ∧
      (after snapshots).registry.activeCones = (latest snapshots).activeCones ∧
      (after snapshots).Answers snapshots ∧
      ∀ (s : Session) (histories : List (List Event)), histories.IsChain (· <+: ·) →
        snapshots = histories.map (fun events => (s.after events).counters) →
        (after snapshots).registry.Agrees (latest snapshots) := by
  have hreports := reports_after snapshots
  refine ⟨hreports, hreports.activeCones ?_, hreports.answers, fun s histories hchain heq => ?_⟩
  · rcases eq_or_ne snapshots [] with rfl | hne
    · decide
    · exact hcones _ (latest_mem hne)
  · subst heq
    rw [← hreports.snapshot]
    exact agree_of_chain s hchain fun events hmem => hcones _ (List.mem_map_of_mem hmem)

/-- A session that starts over: the totals stay, and the monitor reports that it has stalled. -/
theorem after_published_restart :
    let m := after [{ frames := 3, activeCones := 1 }, { frames := 2 }]
    m.registry.frames = 3 ∧ m.snapshot.frames = 2 ∧ m.registry.activeCones = 0 ∧
      m.health = .stalled ∧ ∀ e : Encoders, (m.respond e .health).status ≠ 200 := by
  intro m
  obtain ⟨hreports, hgauge, hanswers, -⟩ :=
    after_published [{ frames := 3, activeCones := 1 }, { frames := 2 }] (by decide)
  have hstalled : m.health = .stalled := hreports.stalled.mpr (by decide)
  refine ⟨rfl, congrArg Counters.frames hreports.snapshot, hgauge, hstalled, fun e he => ?_⟩
  have hstreaming := (hanswers.health e).mp he
  rw [hstalled] at hstreaming
  cases hstreaming

end Monitor

end PenTouch
