import Mathlib.Data.List.Induction
import PenTouch.Source.Synthetic

/-!
# The stream of the synthetic device

From each connection on, the readings are the same stream: the pen sample of tick 0, the frame of
tick 0, the sample of tick 1, and so on. What was done with the device before leaves nothing behind,
not even a frame that was taken and never given.

1. `streaming`: the state of a connected device, told from the times of its readings alone.
2. `next_streaming`: a reading takes that state to the one with its time added, and gives the event
   of its place; by induction, so do any readings (`after_readings`).
3. `isOpen_after_iff`: the device is open just as long as nothing but readings has followed a
   connection (`ReadSince`).
-/

namespace PenTouch.Synthetic

/-! ## Operations -/

inductive Operation where
  | connect
  | next (now : Time)
  | disconnect

def operate (s : Synthetic) : Operation → Synthetic
  | .connect => s.connect.2
  | .next now => (s.next now).2
  | .disconnect => s.disconnect

def after (s : Synthetic) (operations : List Operation) : Synthetic := operations.foldl operate s

/-- Since the device was last connected, it has been read at the times and nothing else was done. -/
def ReadSince (operations : List Operation) (times : List Time) : Prop :=
  ∃ before, operations = before ++ .connect :: times.map .next

variable {width height : Nat} {operations : List Operation} {times : List Time} {now : Time}

@[simp] theorem after_concat (s : Synthetic) (operations : List Operation) (op : Operation) :
    s.after (operations ++ [op]) = (s.after operations).operate op := by
  simp [after]

theorem readSince_concat {op : Operation} :
    ReadSince (operations ++ [op]) times ↔
      op = .connect ∧ times = [] ∨
        ∃ earlier now, op = .next now ∧ times = earlier ++ [now] ∧ ReadSince operations earlier := by
  constructor
  · rintro ⟨before, h⟩
    cases times using List.reverseRecOn with
    | nil => exact Or.inl ⟨by simpa using (List.append_inj' h rfl).2, rfl⟩
    | append_singleton earlier now =>
      rw [List.map_append, ← List.cons_append, ← List.append_assoc] at h
      obtain ⟨hbefore, hlast⟩ := List.append_inj' h rfl
      exact Or.inr ⟨earlier, now, by simpa using hlast, rfl, before, hbefore⟩
  · rintro (⟨rfl, rfl⟩ | ⟨earlier, now, rfl, rfl, before, rfl⟩)
    · exact ⟨operations, rfl⟩
    · exact ⟨before, by simp⟩

/-! ## The stream -/

/-- The event that a reading gives, by the times of the readings before it. They come in pairs, and
the frame of a pair was taken at the first of its two readings. -/
def event (width height : Nat) (earlier : List Time) (now : Time) : Event :=
  let tick := earlier.length / 2
  if earlier.length % 2 = 0 then .pen (sample width height tick) now
  else .frame (frame width height tick (earlier.getLastD 0))

/-- The connected device after readings at the times. -/
def streaming (width height : Nat) (times : List Time) : Synthetic where
  width
  height
  tick := times.length / 2
  pending :=
    if times.length % 2 = 0 then none
    else some (frame width height (times.length / 2) (times.getLastD 0))
  isOpen := true

theorem isValid_frame (hwidth : 0 < width) (hheight : 0 < height) (tick : Nat) (time : Time) :
    (frame width height tick time).isValid = true := by
  have hsize : (frame width height tick time).cells.size =
      (frame width height tick time).cellCount := size_cells_frame ..
  have hcount : 0 < (frame width height tick time).cellCount := Nat.mul_pos hwidth hheight
  have hrange : (frame width height tick time).zMin < (frame width height tick time).zMax := by
    show (0 : UInt8) < 255
    decide
  simp [Frame.isValid, hsize, hcount, hrange]

/-- A frame of the stream shows the panel at its own tick, whole. -/
theorem frame_of_event (hwidth : 0 < width) (hheight : 0 < height) {f : Frame}
    (h : event width height times now = .frame f) :
    f.sequence = times.length / 2 ∧ f.cells.size = width * height ∧ f.isValid = true := by
  unfold event at h
  split_ifs at h
  obtain rfl := Event.frame.inj h
  exact ⟨rfl, size_cells_frame .., isValid_frame hwidth hheight _ _⟩

/-! ## One operation -/

theorem next_closed {s : Synthetic} (h : s.isOpen = false) : s.next now = (.error .notOpen, s) := by
  simp [next, h]

theorem connect_eq {s : Synthetic} (hwidth : 0 < s.width) (hheight : 0 < s.height) :
    s.connect.2 = streaming s.width s.height [] := by
  have hsize : ¬(s.width = 0 ∨ s.height = 0) := by omega
  simp [connect, hsize, streaming]

theorem next_streaming (width height : Nat) (times : List Time) (now : Time) :
    (streaming width height times).next now =
      (.ok (event width height times now), streaming width height (times ++ [now])) := by
  rcases Nat.mod_two_eq_zero_or_one times.length with heven | hodd
  · have hnext : (times.length + 1) % 2 = 1 := by omega
    have htick : (times.length + 1) / 2 = times.length / 2 := by omega
    simp [next, streaming, event, heven, hnext, htick]
  · have hnext : (times.length + 1) % 2 = 0 := by omega
    have htick : (times.length + 1) / 2 = times.length / 2 + 1 := by omega
    simp [next, streaming, event, hodd, hnext, htick]

theorem size_operate (s : Synthetic) (op : Operation) :
    (s.operate op).width = s.width ∧ (s.operate op).height = s.height := by
  cases op with
  | connect => simp only [operate, connect]; split_ifs <;> simp
  | next now => simp only [operate, next]; split_ifs <;> [simp; split <;> simp]
  | disconnect => simp [operate, disconnect]

/-! ## Histories -/

theorem size_after (s : Synthetic) (operations : List Operation) :
    (s.after operations).width = s.width ∧ (s.after operations).height = s.height := by
  induction operations using List.reverseRecOn with
  | nil => exact ⟨rfl, rfl⟩
  | append_singleton operations op ih =>
    rw [after_concat]
    exact ⟨(size_operate _ op).1.trans ih.1, (size_operate _ op).2.trans ih.2⟩

theorem after_readings (width height : Nat) (earlier times : List Time) :
    (streaming width height earlier).after (times.map .next) =
      streaming width height (earlier ++ times) := by
  induction times using List.reverseRecOn with
  | nil => simp [after]
  | append_singleton times now ih =>
    rw [List.map_append, List.map_singleton, after_concat, ih, operate, next_streaming,
      List.append_assoc]

/-- What was done before the device was connected leaves nothing behind. -/
theorem after_eq_streaming {s : Synthetic} (hwidth : 0 < s.width) (hheight : 0 < s.height)
    (h : ReadSince operations times) :
    s.after operations = streaming s.width s.height times := by
  obtain ⟨before, rfl⟩ := h
  obtain ⟨hw, hh⟩ := s.size_after before
  have hconnect := connect_eq (s := s.after before) (by omega) (by omega)
  rw [hw, hh] at hconnect
  calc s.after (before ++ .connect :: times.map .next)
      = (s.after before).connect.2.after (times.map .next) := by simp [after, operate]
    _ = streaming s.width s.height times := by rw [hconnect, after_readings, List.nil_append]

theorem isOpen_after_iff {s : Synthetic} (hwidth : 0 < s.width) (hheight : 0 < s.height)
    (hclosed : s.isOpen = false) (operations : List Operation) :
    (s.after operations).isOpen = true ↔ ∃ times, ReadSince operations times := by
  refine ⟨?_, fun ⟨times, h⟩ => by rw [after_eq_streaming hwidth hheight h]; rfl⟩
  induction operations using List.reverseRecOn with
  | nil => intro h; exact absurd h (by simp [after, hclosed])
  | append_singleton operations op ih =>
    intro h
    rw [after_concat] at h
    cases op with
    | connect => exact ⟨[], readSince_concat.mpr (Or.inl ⟨rfl, rfl⟩)⟩
    | next now =>
      -- A device that is open after a reading was open before it.
      have hopen : (s.after operations).isOpen = true := by
        by_contra hne
        rw [operate, next_closed (by simpa using hne)] at h
        exact hne h
      obtain ⟨times, htimes⟩ := ih hopen
      exact ⟨_, readSince_concat.mpr (Or.inr ⟨times, now, rfl, rfl, htimes⟩)⟩
    | disconnect => simp [operate, disconnect] at h

/-- **The stream.** A reading fails just if the device is not open, and then it changes nothing. The
device is open as long as only readings have followed a connection, and then a reading gives the
event of its place in the stream: the places come in pairs, the sample of a tick and then a valid
frame of the same tick, and are counted from the connection on, whatever was done before it. -/
theorem readings_follow_stream (hwidth : 0 < width) (hheight : 0 < height)
    (operations : List Operation) (now : Time) :
    let s := after { width, height } operations
    ((s.next now).1 = .error .notOpen ↔ s.isOpen = false) ∧
      (s.isOpen = false → (s.next now).2 = s) ∧
      (s.isOpen = true ↔ ∃ times, ReadSince operations times) ∧
      ∀ times, ReadSince operations times →
        (s.next now).1 = .ok (event width height times now) ∧
          ∀ f, event width height times now = .frame f →
            f.sequence = times.length / 2 ∧ f.cells.size = width * height ∧ f.isValid = true := by
  intro s
  have hopen : s.isOpen = true ↔ ∃ times, ReadSince operations times :=
    isOpen_after_iff hwidth hheight rfl operations
  have hread : ∀ times, ReadSince operations times →
      (s.next now).1 = .ok (event width height times now) := fun times h => by
    rw [show s = streaming width height times from after_eq_streaming hwidth hheight h,
      next_streaming]
  refine ⟨⟨fun herror => ?_, fun hclosed => by rw [next_closed hclosed]⟩,
    fun hclosed => by rw [next_closed hclosed], hopen,
    fun times h => ⟨hread times h, fun f hf => frame_of_event hwidth hheight hf⟩⟩
  by_contra hne
  obtain ⟨times, h⟩ := hopen.mp (by simpa using hne)
  rw [hread times h] at herror
  cases herror

/-- A device that was disconnected between the sample and the frame of a tick, and connected again:
the frame that it gives is the one that was taken since. -/
theorem readings_follow_stream_again :
    let operations : List Operation :=
      [.connect, .next 2, .next 3, .next 4, .disconnect, .next 5, .connect, .next 7]
    let s := after { width := 4, height := 3 } operations
    0 < 4 ∧ 0 < 3 ∧ ReadSince operations [7] ∧ (s.next 9).1 = .ok (.frame (frame 4 3 0 7)) ∧
      (frame 4 3 0 7).isValid = true := by
  intro operations s
  have hsince : ReadSince operations [7] :=
    ⟨[.connect, .next 2, .next 3, .next 4, .disconnect, .next 5], rfl⟩
  obtain ⟨-, -, -, hread⟩ :=
    readings_follow_stream (show 0 < 4 by decide) (show 0 < 3 by decide) operations 9
  obtain ⟨hevent, hframe⟩ := hread [7] hsince
  exact ⟨by decide, by decide, hsince, hevent, (hframe _ rfl).2.2⟩

end PenTouch.Synthetic
