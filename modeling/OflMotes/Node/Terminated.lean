import OflMotes.Node.MoteTeleinfo

/-! Whether the line buffer is a terminated string when it is read. It is as long as the ring
buffer, so that the zeros behind the characters are missing once the ring buffer is full. -/
namespace OflMotes.Node
open Ascii

/-- A string ends within the buffer. -/
def Terminated (buffer : List UInt8) : Prop := ∃ i < uartBufsize, buffer[i]? = some 0

instance (buffer : List UInt8) : Decidable (Terminated buffer) :=
  inferInstanceAs (Decidable (∃ i < uartBufsize, buffer[i]? = some 0))

theorem terminated_fillBuffer_iff {line : List UInt8} (hline : 0 ∉ line) :
    Terminated (fillBuffer line) ↔ line.length < uartBufsize := by
  constructor
  · rintro ⟨i, hi, hzero⟩
    by_contra hlen
    have hmem : 0 ∈ line := by
      rw [fillBuffer, List.getElem?_append_left (by omega)] at hzero
      exact List.mem_of_getElem? hzero
    exact hline hmem
  · intro hlen
    refine ⟨line.length, hlen, ?_⟩
    rw [fillBuffer, List.getElem?_append_right le_rfl, List.getElem?_replicate, if_pos (by omega)]

theorem ne_zero_of_printable {b : UInt8} (h : byte ' ' ≤ b) : b ≠ 0 := by
  rintro rfl
  exact absurd h (by decide)

theorem zero_notMem_addOne {r : Ring UInt8 uartBufsize} (h : 0 ∉ r.data) {b : UInt8}
    (hb : byte ' ' ≤ b) : 0 ∉ (r.addOne b).data := by
  intro hmem
  rcases List.mem_append.mp ((r.addOne_suffix b).mem hmem) with hold | hnew
  · exact h hold
  · exact ne_zero_of_printable hb (List.mem_singleton.mp hnew).symm

theorem Teleinfo.zero_notMem_step {n : Teleinfo} (h : 0 ∉ n.rxBuf.data) (e : Teleinfo.Event) :
    0 ∉ (n.step e).rxBuf.data := by
  cases e with
  | enableRx c => simpa [step] using h
  | disableRx => exact h
  | rx data =>
    by_cases hstored : n.rxTeleinfo ≠ 0 ∧ data &&& 0x7F ≠ byte '\n' ∧ byte ' ' ≤ data &&& 0x7F
    · rw [step, rxCb_printable hstored.1 hstored.2.1 hstored.2.2]
      exact zero_notMem_addOne h hstored.2.2
    · obtain ⟨thread, q, hcb⟩ := rxCb_of_not_stored hstored
      rw [step, hcb]
      exact h
  | run =>
    by_cases hthread : n.thread = .handling
    · by_cases hdone : (storeLine n.results (fillBuffer n.rxBuf.data)).state = allDone
      · simp [step, run_complete hthread hdone]
      · simp [step, run_incomplete hthread hdone]
    · rw [step, run_of_ne hthread]
      exact h

theorem MoteTeleinfo.Mote.zero_notMem_step {n : MoteTeleinfo.Mote} (h : 0 ∉ n.rxBuf.data)
    (e : MoteTeleinfo.Mote.Event) : 0 ∉ (n.step e).rxBuf.data := by
  cases e with
  | main =>
    rw [step, mainStep]
    split <;> exact h
  | rx data =>
    rcases n.rxCb_eq data with ⟨hb, hcb⟩ | ⟨processor, q, hcb⟩
    · rw [step, hcb]
      exact zero_notMem_addOne h hb
    · rw [step, hcb]
      exact h
  | process =>
    by_cases hprocessor : n.processor = .handling
    · cases hdone : complete (storeLine n.results (fillBuffer n.rxBuf.data)) with
      | true => simp [step, process_complete hprocessor hdone]
      | false =>
        obtain ⟨processor, q, hinc⟩ := process_incomplete hprocessor hdone
        simp [step, hinc]
    · rw [step, process_of_ne hprocessor]
      exact h
  | notified =>
    by_cases hprocessor : n.processor = .notifying
    · obtain ⟨processor, q, hnot⟩ := notified_notifying hprocessor
      rw [step, hnot]
      exact h
    · rw [step, notified_of_ne hprocessor]
      exact h

/-- A message is handled with a condition on what the ring buffer then holds. -/
def Teleinfo.Handles (P : List UInt8 → Prop) (n : Teleinfo) : Teleinfo.Event → Prop
  | .run => n.thread = .handling → P n.rxBuf.data
  | _ => True

def MoteTeleinfo.Mote.Handles (P : List UInt8 → Prop) (n : MoteTeleinfo.Mote) :
    MoteTeleinfo.Mote.Event → Prop
  | .process => n.processor = .handling → P n.rxBuf.data
  | _ => True

instance (P : List UInt8 → Prop) [DecidablePred P] (n : Teleinfo) :
    (e : Teleinfo.Event) → Decidable (n.Handles P e)
  | .run => inferInstanceAs (Decidable (n.thread = .handling → P n.rxBuf.data))
  | .enableRx _ => isTrue trivial
  | .disableRx => isTrue trivial
  | .rx _ => isTrue trivial

instance (P : List UInt8 → Prop) [DecidablePred P] (n : MoteTeleinfo.Mote) :
    (e : MoteTeleinfo.Mote.Event) → Decidable (n.Handles P e)
  | .process => inferInstanceAs (Decidable (n.processor = .handling → P n.rxBuf.data))
  | .main => isTrue trivial
  | .rx _ => isTrue trivial
  | .notified => isTrue trivial

/-- The line buffer that a message fills is a terminated string. -/
def FillsTerminated (line : List UInt8) : Prop := Terminated (fillBuffer line)

/-- The ring buffer is not full. -/
def Room (line : List UInt8) : Prop := line.length < uartBufsize

instance : DecidablePred FillsTerminated := fun line =>
  inferInstanceAs (Decidable (Terminated (fillBuffer line)))

instance : DecidablePred Room := fun line =>
  inferInstanceAs (Decidable (line.length < uartBufsize))

/-- In both programs, and in every run, all handled messages fill a terminated line buffer exactly
if each of them finds the ring buffer not full. -/
theorem line_buffer_terminated_iff (es : List Teleinfo.Event) (fs : List MoteTeleinfo.Mote.Event) :
    (Run.Along Teleinfo.step (Teleinfo.Handles FillsTerminated) .init es ↔
      Run.Along Teleinfo.step (Teleinfo.Handles Room) .init es) ∧
    (Run.Along MoteTeleinfo.Mote.step (MoteTeleinfo.Mote.Handles FillsTerminated) .powerUp fs ↔
      Run.Along MoteTeleinfo.Mote.step (MoteTeleinfo.Mote.Handles Room) .powerUp fs) := by
  have hzero : 0 ∉ (Ring.empty : Ring UInt8 uartBufsize).data := by simp
  constructor
  · refine Run.along_congr (I := fun n => 0 ∉ n.rxBuf.data)
      (fun _ e hn => Teleinfo.zero_notMem_step hn e) (fun n e hn => ?_) hzero es
    cases e with
    | run => exact imp_congr_right fun _ => terminated_fillBuffer_iff hn
    | _ => exact Iff.rfl
  · refine Run.along_congr (I := fun n => 0 ∉ n.rxBuf.data)
      (fun _ e hn => MoteTeleinfo.Mote.zero_notMem_step hn e) (fun n e hn => ?_) hzero fs
    cases e with
    | process => exact imp_congr_right fun _ => terminated_fillBuffer_iff hn
    | _ => exact Iff.rfl

/-- Noise of 128 printable characters and then a newline. -/
def noise : List UInt8 := List.replicate uartBufsize (byte 'A') ++ [byte '\n']

/-- Such noise is read by both programs without a zero at its end. -/
theorem noise_is_not_terminated :
    ¬ Run.Along Teleinfo.step (Teleinfo.Handles FillsTerminated) .init
        (.enableRx 1 :: noise.map .rx ++ [.run]) ∧
      ¬ Run.Along MoteTeleinfo.Mote.step (MoteTeleinfo.Mote.Handles FillsTerminated) .powerUp
        (.main :: .main :: noise.map .rx ++ [.process]) := by
  constructor <;> decide +kernel

end OflMotes.Node
