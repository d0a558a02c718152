import OflMotes.Lib.Ring
import OflMotes.Lib.Run
import OflMotes.Node.Line

/-! `teleinfo.c` of `node-teleinfo`: the receive interrupt, the switch between the two meters, and
the thread that reads lines and reports to `main`. Of the arrays indexed by UART only the entry of
`TELEINFO_UART` is used, and every message to the thread carries its number. -/
namespace OflMotes.Node
open Ascii

/-- `results_t`: the values of a meter and the bits of the labels seen. -/
structure Results extends Meter where
  state : UInt8
  deriving DecidableEq

/-- `BASE_DONE`, `PAPP_DONE` and `IINST_DONE`. -/
def Label.done : Label → UInt8
  | .base => 1
  | .papp => 2
  | .iinst => 4

def allDone : UInt8 := Label.base.done ||| Label.papp.done ||| Label.iinst.done

/-- The done bits of the labels with the given flags. -/
def doneBits (base papp iinst : Bool) : UInt8 :=
  (if base then Label.base.done else 0) ||| (if papp then Label.papp.done else 0) |||
    (if iinst then Label.iinst.done else 0)

theorem doneBits_or (b p i : Bool) :
    doneBits b p i ||| Label.base.done = doneBits true p i ∧
      doneBits b p i ||| Label.papp.done = doneBits b true i ∧
      doneBits b p i ||| Label.iinst.done = doneBits b p true := by
  revert b p i
  decide

theorem doneBits_eq_allDone (b p i : Bool) : doneBits b p i = allDone ↔ b ∧ p ∧ i := by
  revert b p i
  decide

theorem doneBits_eq_zero (b p i : Bool) :
    doneBits b p i = 0 ↔ b = false ∧ p = false ∧ i = false := by
  revert b p i
  decide

/-- Where the thread stands: blocked in `msg_receive`, about to handle a message, or asleep after
a report. -/
inductive Thread
  | receiving
  | handling
  | sleeping
  deriving DecidableEq

/-- The module's variables, the number of messages that wait in the thread's queue, and the texts
sent to `main` so far. -/
structure Teleinfo where
  rxTeleinfo : UInt8
  powerPort1 : Bool
  powerPort2 : Bool
  rxBuf : Ring UInt8 uartBufsize
  results : Results
  thread : Thread
  msgQueue : ℕ
  outbox : List (List UInt8)

/-- The report of a meter, as both programs print it. -/
def reportText (label : UInt8) (m : Meter) : List UInt8 :=
  ascii "PAPP" ++ decimal label.toNat ++ ascii ":" ++ signed m.papp.toInt ++
    ascii ";BASE" ++ decimal label.toNat ++ ascii ":" ++ signed m.base.toInt ++
    ascii ";IINST" ++ decimal label.toNat ++ ascii ":" ++ signed m.iinst.toInt

/-- `MSG_SIZE` -/
def msgSize : ℕ := 64

/-- `snprintf` of the report into `MSG_SIZE` bytes, the last one for the NUL. -/
def report (label : UInt8) (m : Meter) : List UInt8 :=
  (reportText label m ++ ascii ";").take (msgSize - 1)

/-- What a line does to the results. -/
def storeLine (r : Results) (buffer : List UInt8) : Results :=
  match scanLine buffer with
  | some (l, v) => { toMeter := r.toMeter.store l v, state := r.state ||| l.done }
  | none => r

namespace Teleinfo

/-- After `teleinfo_init`, once the thread waits for its first message. -/
def init : Teleinfo := ⟨0, false, false, .empty, ⟨⟨0, 0, 0⟩, 0⟩, .receiving, 0, []⟩

/-- `msg_send` to the thread: handed over if it waits, else queued while one of the 8 slots is
free. -/
def msgSend (n : Teleinfo) : Teleinfo :=
  match n.thread with
  | .receiving => { n with thread := .handling }
  | _ => if n.msgQueue < 8 then { n with msgQueue := n.msgQueue + 1 } else n

/-- `msg_receive` in the thread. -/
def msgReceive (n : Teleinfo) : Teleinfo :=
  match n.msgQueue with
  | 0 => { n with thread := .receiving }
  | k + 1 => { n with thread := .handling, msgQueue := k }

/-- `teleinfo_rx_cb` -/
def rxCb (n : Teleinfo) (data : UInt8) : Teleinfo :=
  if n.rxTeleinfo ≠ 0 then
    let data := data &&& 0x7F
    if data = byte '\n' then n.msgSend
    else if byte ' ' ≤ data then { n with rxBuf := n.rxBuf.addOne data }
    else n
  else n

/-- `teleinfo_enable_rx`. A thread that wakes up goes on to `msg_receive`; `thread_wakeup` has no
effect on any other. -/
def enableRx (n : Teleinfo) (curtel : UInt8) : Teleinfo :=
  let n := { n with rxTeleinfo := curtel }
  let n :=
    if curtel = 1 then { n with powerPort2 := false, powerPort1 := true }
    else if curtel = 2 then { n with powerPort1 := false, powerPort2 := true }
    else n
  if n.thread = .sleeping then n.msgReceive else n

/-- `teleinfo_disable_rx` -/
def disableRx (n : Teleinfo) : Teleinfo :=
  { n with rxTeleinfo := 0, powerPort1 := false, powerPort2 := false }

/-- One round of the loop of `teleinfo_run`, if there is a message to handle. -/
def run (n : Teleinfo) : Teleinfo :=
  match n.thread with
  | .handling =>
    let (line, rxBuf) := n.rxBuf.get uartBufsize
    let results := storeLine n.results (fillBuffer line)
    if results.state = allDone then
      { n with
        rxTeleinfo := 0
        rxBuf := rxBuf
        results := ⟨⟨0, 0, 0⟩, 0⟩
        thread := .sleeping
        outbox := n.outbox ++ [report n.rxTeleinfo results.toMeter] }
    else msgReceive { n with rxBuf := rxBuf, results := results }
  | _ => n

/-- What can happen to the module. -/
inductive Event
  | enableRx (curtel : UInt8)
  | disableRx
  | rx (data : UInt8)
  | run
  deriving DecidableEq

def step (n : Teleinfo) : Event → Teleinfo
  | .enableRx c => n.enableRx c
  | .disableRx => n.disableRx
  | .rx b => n.rxCb b
  | .run => n.run

variable {n : Teleinfo}

theorem run_of_ne (h : n.thread ≠ .handling) : n.run = n := by
  unfold run
  split
  · contradiction
  · rfl

/-- A handled message that completes the results. -/
theorem run_complete (h : n.thread = .handling)
    (hdone : (storeLine n.results (fillBuffer n.rxBuf.data)).state = allDone) :
    n.run = { n with
      rxTeleinfo := 0
      rxBuf := .empty
      results := ⟨⟨0, 0, 0⟩, 0⟩
      thread := .sleeping
      outbox := n.outbox ++
        [report n.rxTeleinfo (storeLine n.results (fillBuffer n.rxBuf.data)).toMeter] } := by
  simp only [run, h, Ring.get_cap]
  rw [if_pos hdone]

/-- A handled message that does not. -/
theorem run_incomplete (h : n.thread = .handling)
    (hdone : (storeLine n.results (fillBuffer n.rxBuf.data)).state ≠ allDone) :
    n.run = msgReceive { n with
      rxBuf := .empty
      results := storeLine n.results (fillBuffer n.rxBuf.data) } := by
  simp only [run, h, Ring.get_cap]
  rw [if_neg hdone]

section
variable (n : Teleinfo)

@[simp] theorem msgReceive_rxTeleinfo : n.msgReceive.rxTeleinfo = n.rxTeleinfo := by
  unfold msgReceive; split <;> rfl

@[simp] theorem msgReceive_rxBuf : n.msgReceive.rxBuf = n.rxBuf := by
  unfold msgReceive; split <;> rfl

@[simp] theorem msgReceive_results : n.msgReceive.results = n.results := by
  unfold msgReceive; split <;> rfl

@[simp] theorem msgReceive_outbox : n.msgReceive.outbox = n.outbox := by
  unfold msgReceive; split <;> rfl

theorem msgReceive_thread : n.msgReceive.thread ≠ .sleeping := by
  unfold msgReceive; split <;> simp

variable (c : UInt8)

/-- `teleinfo_enable_rx` changes the selection and wakes the thread, and nothing else. -/
theorem enableRx_eq : ∃ p₁ p₂, n.enableRx c =
    if n.thread = .sleeping then
      msgReceive { n with rxTeleinfo := c, powerPort1 := p₁, powerPort2 := p₂ }
    else { n with rxTeleinfo := c, powerPort1 := p₁, powerPort2 := p₂ } := by
  unfold enableRx
  by_cases h₁ : c = 1
  · simp only [if_pos h₁]
    exact ⟨true, false, rfl⟩
  by_cases h₂ : c = 2
  · simp only [if_neg h₁, if_pos h₂]
    exact ⟨false, true, rfl⟩
  · simp only [if_neg h₁, if_neg h₂]
    exact ⟨n.powerPort1, n.powerPort2, rfl⟩

theorem enableRx_thread : (n.enableRx c).thread ≠ .sleeping := by
  obtain ⟨p₁, p₂, h⟩ := n.enableRx_eq c
  rw [h]
  split_ifs with hsleep
  · exact msgReceive_thread _
  · exact hsleep

@[simp] theorem enableRx_rxTeleinfo : (n.enableRx c).rxTeleinfo = c := by
  obtain ⟨p₁, p₂, h⟩ := n.enableRx_eq c
  rw [h]; split_ifs <;> simp

@[simp] theorem enableRx_rxBuf : (n.enableRx c).rxBuf = n.rxBuf := by
  obtain ⟨p₁, p₂, h⟩ := n.enableRx_eq c
  rw [h]; split_ifs <;> simp

@[simp] theorem enableRx_results : (n.enableRx c).results = n.results := by
  obtain ⟨p₁, p₂, h⟩ := n.enableRx_eq c
  rw [h]; split_ifs <;> simp

@[simp] theorem enableRx_outbox : (n.enableRx c).outbox = n.outbox := by
  obtain ⟨p₁, p₂, h⟩ := n.enableRx_eq c
  rw [h]; split_ifs <;> simp

end

/-! `msg_send` to the thread touches the thread and its queue only. -/

theorem msgSend_eq (n : Teleinfo) :
    ∃ thread q, n.msgSend = { n with thread := thread, msgQueue := q } := by
  unfold msgSend
  split
  · exact ⟨_, _, rfl⟩
  · split_ifs
    · exact ⟨_, _, rfl⟩
    · exact ⟨_, _, rfl⟩

section
variable {data : UInt8}

theorem rxCb_newline (hrx : n.rxTeleinfo ≠ 0) (h : data &&& 0x7F = byte '\n') :
    n.rxCb data = n.msgSend := by
  rw [rxCb, if_pos hrx]
  simp only [if_pos h]

theorem rxCb_printable (hrx : n.rxTeleinfo ≠ 0) (hn : data &&& 0x7F ≠ byte '\n')
    (h : byte ' ' ≤ data &&& 0x7F) :
    n.rxCb data = { n with rxBuf := n.rxBuf.addOne (data &&& 0x7F) } := by
  rw [rxCb, if_pos hrx]
  simp only [if_neg hn, if_pos h]

theorem rxCb_control (hn : data &&& 0x7F ≠ byte '\n') (h : ¬ byte ' ' ≤ data &&& 0x7F) :
    n.rxCb data = n := by
  unfold rxCb
  split_ifs
  · simp only [if_neg hn, if_neg h]
  · rfl

/-- A byte that does not go into the ring buffer touches the thread and its queue at most. -/
theorem rxCb_of_not_stored
    (h : ¬ (n.rxTeleinfo ≠ 0 ∧ data &&& 0x7F ≠ byte '\n' ∧ byte ' ' ≤ data &&& 0x7F)) :
    ∃ thread q, n.rxCb data = { n with thread := thread, msgQueue := q } := by
  by_cases hrx : n.rxTeleinfo = 0
  · exact ⟨n.thread, n.msgQueue, by rw [rxCb, if_neg (by simp [hrx])]⟩
  by_cases hn : data &&& 0x7F = byte '\n'
  · rw [rxCb_newline hrx hn]
    exact n.msgSend_eq
  · exact ⟨n.thread, n.msgQueue, rxCb_control hn fun hb => h ⟨hrx, hn, hb⟩⟩

/-- Reports are sent by the thread only. -/
theorem rxCb_outbox (n : Teleinfo) (data : UInt8) : (n.rxCb data).outbox = n.outbox := by
  by_cases h : n.rxTeleinfo ≠ 0 ∧ data &&& 0x7F ≠ byte '\n' ∧ byte ' ' ≤ data &&& 0x7F
  · rw [rxCb_printable h.1 h.2.1 h.2.2]
  · obtain ⟨thread, q, hcb⟩ := rxCb_of_not_stored h
    rw [hcb]

theorem rxCb_of_disabled (h : n.rxTeleinfo = 0) : n.rxCb data = n := by
  rw [rxCb, if_neg (by simp [h])]

end

theorem msgReceive_idle (h : n.msgQueue = 0) : n.msgReceive = { n with thread := .receiving } := by
  rw [msgReceive, h]

end Teleinfo

theorem signed_length_le {z : ℤ} {k : ℕ} (hk : 0 < k) (h : z.natAbs < 10 ^ k) :
    (signed z).length ≤ k + 1 := by
  have := decimal_length_le hk h
  unfold signed
  split_ifs
  · simpa using this
  · omega

theorem signed_int16_length (z : Int16) : (signed z.toInt).length ≤ 6 := by
  have := z.le_toInt
  have := z.toInt_lt
  exact signed_length_le (k := 5) (by decide) (by omega)

theorem signed_int32_length (z : Int32) : (signed z.toInt).length ≤ 11 := by
  have := z.le_toInt
  have := z.toInt_lt
  exact signed_length_le (k := 10) (by decide) (by omega)

/-- Whatever the values are, only the digits of the label matter for the length. -/
theorem reportText_length_le {label : UInt8} {k : ℕ} (hlabel : (decimal label.toNat).length ≤ k)
    (m : Meter) : (reportText label m).length ≤ 41 + 3 * k := by
  have hpapp := signed_int16_length m.papp
  have hiinst := signed_int16_length m.iinst
  have hbase := signed_int32_length m.base
  simp only [reportText, ascii, List.length_append, List.length_map]
  simp
  omega

/-- The buffer of a report is large enough for every label and all values. -/
theorem reportText_length (label : UInt8) (m : Meter) : (reportText label m).length ≤ 50 := by
  have hlabel : (decimal label.toNat).length ≤ 3 :=
    decimal_length_le (by decide) (by have := label.toNat_lt; omega)
  exact reportText_length_le hlabel m

theorem report_eq (label : UInt8) (m : Meter) : report label m = reportText label m ++ ascii ";" := by
  have := reportText_length label m
  apply List.take_of_length_le
  simp [ascii, msgSize]
  omega

end OflMotes.Node
