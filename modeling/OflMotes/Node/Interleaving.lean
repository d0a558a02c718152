import OflMotes.Lib.Mailbox
import OflMotes.Node.Teleinfo

/-! Whether the lines of a meter reach the parser one by one, in whatever order the interrupt and
the thread take turns while reception is enabled. Newlines travel as messages and characters
through the ring buffer, which together are a mailbox without boundaries. -/
namespace OflMotes.Node.Teleinfo
open Ascii

/-- The interrupt with a byte, or the thread. -/
inductive Turn
  | byte (data : UInt8)
  | thread
  deriving DecidableEq

/-- The module with a record of the stream: the characters since the last newline, the lines
completed, and the lines that the thread took from the ring buffer to parse them. -/
structure Recorded where
  node : Teleinfo
  line : List UInt8
  completed : List (List UInt8)
  handed : List (List UInt8)

namespace Recorded

/-- Reception begins. -/
def start (n : Teleinfo) : Recorded := ⟨n, [], [], []⟩

def step (r : Recorded) : Turn → Recorded
  | .byte data =>
    let b := data &&& 0x7F
    let r' := { r with node := r.node.rxCb data }
    if b = byte '\n' then { r' with line := [], completed := r.completed ++ [r.line] }
    else if byte ' ' ≤ b then { r' with line := r.line ++ [b] }
    else r'
  | .thread => { r with
      node := r.node.run
      handed := if r.node.thread = .handling then r.handed ++ [r.node.rxBuf.data] else r.handed }

/-- The newlines whose message the thread has not handled. -/
def waiting (r : Recorded) : ℕ := (if r.node.thread = .handling then 1 else 0) + r.node.msgQueue

/-- Reception is enabled, and the thread is not behind by more than its message queue or by as
much as the ring buffer holds. -/
def KeepsUp (r : Recorded) : Prop :=
  r.node.rxTeleinfo ≠ 0 ∧ r.completed.length ≤ r.handed.length + 8 ∧
    r.node.rxBuf.data.length < uartBufsize

/-- Each completed line was handed to the parser or has its message waiting, and the lines handed,
with the one that the thread takes next, are the completed lines in their order. -/
def InStep (r : Recorded) : Prop :=
  r.completed.length = r.handed.length + r.waiting ∧ (r.step .thread).handed <+: r.completed

/-- No printable character arrives while a newline's message waits. -/
def Calm (r : Recorded) : Turn → Prop
  | .byte data => data &&& 0x7F ≠ byte '\n' → byte ' ' ≤ data &&& 0x7F → r.waiting = 0
  | .thread => True

instance : DecidablePred KeepsUp := fun _ => inferInstanceAs (Decidable (_ ∧ _))

instance : DecidablePred InStep := fun _ => inferInstanceAs (Decidable (_ ∧ _))

instance (r : Recorded) : (e : Turn) → Decidable (r.Calm e)
  | .byte _ => inferInstanceAs (Decidable (_ → _ → _))
  | .thread => isTrue trivial

/-- What a turn is to the mailbox. -/
def mail : Turn → Mailbox.Event UInt8
  | .byte data =>
    if data &&& 0x7F = byte '\n' then .signal
    else if byte ' ' ≤ data &&& 0x7F then .put (data &&& 0x7F)
    else .skip
  | .thread => .take

/-- The ring buffer and the messages are the mailbox, as long as the thread is awake. -/
structure Shows (r : Recorded) (m : Mailbox UInt8) : Prop where
  buffer : m.buffer = r.node.rxBuf.data
  pending : m.pending = r.waiting
  batch : m.batch = r.line
  completed : m.completed = r.completed
  handed : m.handed = r.handed
  count : r.completed.length = r.handed.length + r.waiting
  awake : r.node.thread = .handling ∨ r.node.thread = .receiving ∧ r.node.msgQueue = 0

section
variable {r : Recorded} {m : Mailbox UInt8}

theorem shows_start {n : Teleinfo} (hthread : n.thread = .receiving) (hqueue : n.msgQueue = 0)
    (hbuf : n.rxBuf.data = []) : Shows (start n) .empty where
  buffer := hbuf.symm
  pending := by simp [Mailbox.empty, waiting, start, hthread, hqueue]
  batch := rfl
  completed := rfl
  handed := rfl
  count := by simp [waiting, start, hthread, hqueue]
  awake := .inr ⟨hthread, hqueue⟩

/-- A newline's message is queued while the thread is not too far behind. -/
theorem shows_newline (h : Shows r m) (hkeeps : KeepsUp r) {data : UInt8}
    (hnl : data &&& 0x7F = byte '\n') (hnext : KeepsUp (r.step (.byte data))) :
    Shows (r.step (.byte data)) m.signal := by
  have hstep : r.step (.byte data) = { r with
      node := r.node.msgSend, line := [], completed := r.completed ++ [r.line] } := by
    rw [step, rxCb_newline hkeeps.1 hnl]
    simp only [if_pos hnl]
  have hroom : r.completed.length + 1 ≤ r.handed.length + 8 := by
    simpa [hstep] using hnext.2.1
  have hcount := h.count
  obtain ⟨thread, q, hsend⟩ := r.node.msgSend_eq
  have hsent : r.node.msgSend.thread = .handling ∧
      1 + r.node.msgSend.msgQueue = r.waiting + 1 := by
    rcases h.awake with hthread | ⟨hthread, hqueue⟩
    · have hlt : r.node.msgQueue < 8 := by
        rw [waiting, if_pos hthread] at hcount
        omega
      simp only [msgSend, hthread, if_pos hlt, waiting, if_true, true_and]
      omega
    · rw [msgSend, hthread]
      exact ⟨rfl, by simp [waiting, hthread, hqueue]⟩
  have hwaiting : (r.step (.byte data)).waiting = r.waiting + 1 := by
    rw [hstep, ← hsent.2, waiting, if_pos hsent.1]
  refine ⟨?_, ?_, ?_, ?_, ?_, ?_, ?_⟩
  · rw [hstep, hsend]
    exact h.buffer
  · rw [hwaiting, ← h.pending]
    rfl
  · rw [hstep]
    rfl
  · rw [hstep, Mailbox.signal, h.completed, h.batch]
  · rw [hstep]
    exact h.handed
  · rw [hwaiting, hstep]
    simp only [List.length_append, List.length_singleton]
    omega
  · rw [hstep]
    exact .inl hsent.1

/-- A character is kept while the ring buffer is not full. -/
theorem shows_printable (h : Shows r m) (hkeeps : KeepsUp r) {data : UInt8}
    (hnl : data &&& 0x7F ≠ byte '\n') (hb : byte ' ' ≤ data &&& 0x7F) :
    Shows (r.step (.byte data)) (m.put (data &&& 0x7F)) := by
  have hstep : r.step (.byte data) = { r with
      node := { r.node with rxBuf := r.node.rxBuf.addOne (data &&& 0x7F) }
      line := r.line ++ [data &&& 0x7F] } := by
    rw [step, rxCb_printable hkeeps.1 hnl hb]
    simp only [if_neg hnl, if_pos hb]
  have hdrop : r.node.rxBuf.data.length + 1 - uartBufsize = 0 := by
    have := hkeeps.2.2
    omega
  have hwaiting : (r.step (.byte data)).waiting = r.waiting := by
    rw [hstep, waiting, waiting]
  refine ⟨?_, ?_, ?_, ?_, ?_, ?_, ?_⟩
  · rw [hstep, Mailbox.put, Ring.addOne_data, hdrop, List.drop_zero, h.buffer]
  · rw [hwaiting, ← h.pending]
    rfl
  · rw [hstep, Mailbox.put, h.batch]
  · rw [hstep]
    exact h.completed
  · rw [hstep]
    exact h.handed
  · rw [hwaiting, hstep]
    exact h.count
  · rw [hstep]
    exact h.awake

/-- The thread takes the whole ring buffer for a message, unless that line ends reception. -/
theorem shows_thread (h : Shows r m) (hnext : KeepsUp (r.step .thread)) :
    Shows (r.step .thread) m.take := by
  have hcount := h.count
  rcases h.awake with hthread | ⟨hthread, hqueue⟩
  · have hwaiting : r.waiting = r.node.msgQueue + 1 := by
      rw [waiting, if_pos hthread, Nat.add_comm]
    have hdone : (storeLine r.node.results (fillBuffer r.node.rxBuf.data)).state ≠ allDone := by
      intro hdone
      apply hnext.1
      rw [step, run_complete hthread hdone]
    have hstep : r.step .thread = { r with
        node := msgReceive { r.node with
          rxBuf := .empty
          results := storeLine r.node.results (fillBuffer r.node.rxBuf.data) }
        handed := r.handed ++ [r.node.rxBuf.data] } := by
      rw [step, run_incomplete hthread hdone, if_pos hthread]
    have hreceived : (r.step .thread).waiting = r.node.msgQueue ∧
        ((r.step .thread).node.thread = .handling ∨
          (r.step .thread).node.thread = .receiving ∧ (r.step .thread).node.msgQueue = 0) := by
      rw [hstep, waiting, msgReceive]
      cases r.node.msgQueue with
      | zero => exact ⟨rfl, .inr ⟨rfl, rfl⟩⟩
      | succ k => exact ⟨Nat.add_comm 1 k, .inl rfl⟩
    rw [Mailbox.take_succ (h.pending.trans hwaiting)]
    refine ⟨?_, hreceived.1.symm, ?_, ?_, ?_, ?_, hreceived.2⟩
    · rw [hstep]
      simp
    · rw [hstep]
      exact h.batch
    · rw [hstep]
      exact h.completed
    · rw [hstep, h.handed, h.buffer]
    · rw [hreceived.1, hstep]
      simp only [List.length_append, List.length_singleton]
      omega
  · have hne : r.node.thread ≠ .handling := by simp [hthread]
    have hwaiting : r.waiting = 0 := by rw [waiting, if_neg hne, hqueue]
    have hstep : r.step .thread = r := by rw [step, run_of_ne hne, if_neg hne]
    rw [Mailbox.take_zero (h.pending.trans hwaiting), hstep]
    exact h

theorem shows_step (h : Shows r m) (hkeeps : KeepsUp r) (e : Turn)
    (hnext : KeepsUp (r.step e)) : Shows (r.step e) (m.step (mail e)) := by
  cases e with
  | byte data =>
    by_cases hnl : data &&& 0x7F = byte '\n'
    · rw [mail, if_pos hnl]
      exact shows_newline h hkeeps hnl hnext
    · by_cases hb : byte ' ' ≤ data &&& 0x7F
      · rw [mail, if_neg hnl, if_pos hb]
        exact shows_printable h hkeeps hnl hb
      · rw [mail, if_neg hnl, if_neg hb]
        have hstep : r.step (.byte data) = r := by
          rw [step, rxCb_control hnl hb]
          simp only [if_neg hnl, if_neg hb]
        rw [hstep]
        exact h
  | thread => exact shows_thread h hnext

theorem inStep_iff (h : Shows r m) : InStep r ↔ m.InStep := by
  have htake : m.take.handed = (r.step .thread).handed := by
    rcases h.awake with hthread | ⟨hthread, hqueue⟩
    · have hwaiting : r.waiting = r.node.msgQueue + 1 := by
        rw [waiting, if_pos hthread, Nat.add_comm]
      rw [Mailbox.take_succ (h.pending.trans hwaiting), step, if_pos hthread, h.handed, h.buffer]
    · have hne : r.node.thread ≠ .handling := by simp [hthread]
      have hwaiting : r.waiting = 0 := by rw [waiting, if_neg hne, hqueue]
      rw [Mailbox.take_zero (h.pending.trans hwaiting), step, if_neg hne, h.handed]
  rw [InStep, Mailbox.InStep, htake, h.completed, h.handed, h.pending]

theorem calm_iff (h : Shows r m) (e : Turn) : Calm r e ↔ m.Calm (mail e) := by
  cases e with
  | byte data =>
    rw [mail, Calm]
    split_ifs with hnl hb
    · simp [hnl, Mailbox.Calm]
    · simp [hnl, hb, Mailbox.Calm, h.pending]
    · simp [hb, Mailbox.Calm]
  | thread => exact Iff.rfl

end

/-- While reception is enabled and the thread is not too far behind, every completed line reaches
the parser once, alone, unmodified and in order exactly if no character of the next line arrives
before the newline's message is handled. -/
theorem lines_handed_iff (n : Teleinfo) (hthread : n.thread = .receiving) (hqueue : n.msgQueue = 0)
    (hbuf : n.rxBuf.data = []) (es : List Turn)
    (hkeeps : Run.Throughout step KeepsUp (start n) es) :
    Run.Throughout step InStep (start n) es ↔ Run.Along step Calm (start n) es := by
  have hstart := shows_start hthread hqueue hbuf
  have hstep (r : Recorded) (m : Mailbox UInt8) (e : Turn) :
      Shows r m → KeepsUp r → KeepsUp (r.step e) → Shows (r.step e) (m.step (mail e)) :=
    fun h hk hk' => shows_step h hk e hk'
  rw [Run.throughout_iff hstep (fun _ _ h _ => inStep_iff h) hstart hkeeps,
    Run.along_iff hstep (fun _ _ e h _ => calm_iff h e) hstart hkeeps]
  exact Mailbox.throughout_inStep_iff Mailbox.tracked_empty _

/-- Two lines and an empty one, of which the thread handles the last two late. -/
def lateTurns : List Turn :=
  (ascii "PAPP 02340 *\n").map .byte ++ .thread :: (ascii "IINST 010 X\n\n").map .byte ++
    [.thread, .thread]

theorem lines_handed_iff_late :
    Run.Throughout step InStep (start (Teleinfo.init.enableRx 1)) lateTurns ↔
      Run.Along step Calm (start (Teleinfo.init.enableRx 1)) lateTurns :=
  lines_handed_iff _ rfl rfl rfl _ (by decide +kernel)

/-- The thread handles the first line one character later. -/
def tornTurns : List Turn :=
  (ascii "IINST 010 X\nP").map .byte ++ .thread :: (ascii "APP 02340 *\n").map .byte ++ [.thread]

/-- The first line gets that character, and the second one is lost. -/
theorem lines_are_torn :
    Run.Throughout step KeepsUp (start (Teleinfo.init.enableRx 1)) tornTurns ∧
      (Run.run step (start (Teleinfo.init.enableRx 1)) tornTurns).completed =
        [ascii "IINST 010 X", ascii "PAPP 02340 *"] ∧
      (Run.run step (start (Teleinfo.init.enableRx 1)) tornTurns).handed =
        [ascii "IINST 010 XP", ascii "APP 02340 *"] ∧
      ¬ Run.Throughout step InStep (start (Teleinfo.init.enableRx 1)) tornTurns := by
  refine ⟨by decide +kernel, by decide +kernel, by decide +kernel, by decide +kernel⟩

end Recorded
end OflMotes.Node.Teleinfo
