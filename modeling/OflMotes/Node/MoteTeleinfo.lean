import OflMotes.Node.Teleinfo

/-! `mote-teleinfo`: the older program for the same two meters. Its results carry no state; a
value that was not read yet is negative. `main` switches between the meters and powers the UART,
`processor_thread` reads lines and transmits, in steps that interleave with the interrupt. -/
namespace OflMotes.Node.MoteTeleinfo
open Ascii

/-- What a line does to the results in `processor_thread`. -/
def storeLine (m : Meter) (buffer : List UInt8) : Meter :=
  match scanLine buffer with
  | some (l, v) => m.store l v
  | none => m

/-- The test for a complete sequence. -/
def complete (m : Meter) : Bool := 0 ≤ m.papp && 0 ≤ m.iinst && 0 ≤ m.base

/-- The `sprintf` of the report. -/
def report (curPitinfo : UInt8) (m : Meter) : List UInt8 := reportText curPitinfo m

/-- The statement that `main` executes next: the initialisation of the UART, the start of
`processor_thread`, and for each meter in turn the switch, the three resets and the power. -/
inductive Statement
  | uartInit
  | threadCreate
  | curPitinfo (c : UInt8)
  | base (c : UInt8)
  | iinst (c : UInt8)
  | papp (c : UInt8)
  | poweron (c : UInt8)
  | poweroff (c : UInt8)
  deriving DecidableEq

/-- Where `processor_thread` stands: not created yet, blocked in `msg_receive`, about to handle a
message, or in the `msg_send` to the blinker behind a report. -/
inductive Processor
  | absent
  | receiving
  | handling
  | notifying
  deriving DecidableEq

/-- The variables that the threads share, and the texts transmitted so far. -/
structure Mote where
  main : Statement
  curPitinfo : UInt8
  results : Meter
  uartOn : Bool
  rxBuf : Ring UInt8 uartBufsize
  processor : Processor
  msgQueue : ℕ
  transmitted : List (List UInt8)

namespace Mote

/-- At power-up, with the static variables zero. -/
def powerUp : Mote := ⟨.uartInit, 0, ⟨0, 0, 0⟩, false, .empty, .absent, 0, []⟩

/-- `msg_send` to the thread: lost if it does not exist or all of its 8 slots are full. -/
def msgSend (n : Mote) : Mote :=
  match n.processor with
  | .absent => n
  | .receiving => { n with processor := .handling }
  | _ => if n.msgQueue < 8 then { n with msgQueue := n.msgQueue + 1 } else n

/-- `msg_receive` in the thread. -/
def msgReceive (n : Mote) : Mote :=
  match n.msgQueue with
  | 0 => { n with processor := .receiving }
  | k + 1 => { n with processor := .handling, msgQueue := k }

/-- `rx_cb`, which is only called while the UART has power. -/
def rxCb (n : Mote) (data : UInt8) : Mote :=
  if n.uartOn then
    let data := data &&& 0x7F
    if data = byte '\n' then n.msgSend
    else if byte ' ' ≤ data then { n with rxBuf := n.rxBuf.addOne data }
    else n
  else n

/-- A statement of `main`. -/
def mainStep (n : Mote) : Mote :=
  match n.main with
  | .uartInit => { n with uartOn := true, main := .threadCreate }
  | .threadCreate => { n with processor := .receiving, main := .curPitinfo 1 }
  | .curPitinfo c => { n with curPitinfo := c, main := .base c }
  | .base c => { n with results := { n.results with base := -1 }, main := .iinst c }
  | .iinst c => { n with results := { n.results with iinst := -1 }, main := .papp c }
  | .papp c => { n with results := { n.results with papp := -1 }, main := .poweron c }
  | .poweron c => { n with uartOn := true, main := .poweroff c }
  | .poweroff c => { n with uartOn := false, main := .curPitinfo (if c = 1 then 2 else 1) }

/-- A round of `processor_thread` up to the `msg_send` to the blinker, if there is a message. -/
def process (n : Mote) : Mote :=
  match n.processor with
  | .handling =>
    let (line, rxBuf) := n.rxBuf.get uartBufsize
    let results := storeLine n.results (fillBuffer line)
    if complete results then
      { n with
        rxBuf := rxBuf
        results := results
        processor := .notifying
        transmitted := n.transmitted ++ [report n.curPitinfo results] }
    else msgReceive { n with rxBuf := rxBuf, results := results }
  | _ => n

/-- The rest of the round behind a report: the reset to zero and `uart_poweroff`. -/
def notified (n : Mote) : Mote :=
  match n.processor with
  | .notifying => msgReceive { n with results := ⟨0, 0, 0⟩, uartOn := false }
  | _ => n

/-- What can happen. -/
inductive Event
  | main
  | rx (data : UInt8)
  | process
  | notified
  deriving DecidableEq

def step (n : Mote) : Event → Mote
  | .main => n.mainStep
  | .rx b => n.rxCb b
  | .process => n.process
  | .notified => n.notified

variable {n : Mote}

theorem msgSend_eq (n : Mote) :
    ∃ processor q, n.msgSend = { n with processor := processor, msgQueue := q } := by
  unfold msgSend
  split
  · exact ⟨_, _, rfl⟩
  · exact ⟨_, _, rfl⟩
  · split_ifs
    · exact ⟨_, _, rfl⟩
    · exact ⟨_, _, rfl⟩

theorem msgReceive_eq (n : Mote) :
    ∃ processor q, n.msgReceive = { n with processor := processor, msgQueue := q } := by
  unfold msgReceive
  split
  · exact ⟨_, _, rfl⟩
  · exact ⟨_, _, rfl⟩

theorem process_of_ne (h : n.processor ≠ .handling) : n.process = n := by
  unfold process
  split
  · contradiction
  · rfl

theorem process_complete (h : n.processor = .handling)
    (hdone : complete (storeLine n.results (fillBuffer n.rxBuf.data)) = true) :
    n.process = { n with
      rxBuf := .empty
      results := storeLine n.results (fillBuffer n.rxBuf.data)
      processor := .notifying
      transmitted := n.transmitted ++
        [report n.curPitinfo (storeLine n.results (fillBuffer n.rxBuf.data))] } := by
  simp only [process, h, Ring.get_cap]
  rw [if_pos hdone]

theorem process_incomplete (h : n.processor = .handling)
    (hdone : complete (storeLine n.results (fillBuffer n.rxBuf.data)) = false) :
    ∃ processor q, n.process = { n with
      rxBuf := .empty
      results := storeLine n.results (fillBuffer n.rxBuf.data)
      processor := processor
      msgQueue := q } := by
  simp only [process, h, Ring.get_cap]
  rw [if_neg (by simp [hdone])]
  exact msgReceive_eq _

theorem notified_of_ne (h : n.processor ≠ .notifying) : n.notified = n := by
  unfold notified
  split
  · contradiction
  · rfl

theorem notified_notifying (h : n.processor = .notifying) : ∃ processor q, n.notified = { n with
    results := ⟨0, 0, 0⟩, uartOn := false, processor := processor, msgQueue := q } := by
  simp only [notified, h]
  exact msgReceive_eq _

/-- A byte goes into the ring buffer, or it touches the thread and its queue at most. -/
theorem rxCb_eq (n : Mote) (data : UInt8) :
    (byte ' ' ≤ data &&& 0x7F ∧
      n.rxCb data = { n with rxBuf := n.rxBuf.addOne (data &&& 0x7F) }) ∨
    ∃ processor q, n.rxCb data = { n with processor := processor, msgQueue := q } := by
  rw [rxCb]
  by_cases hon : n.uartOn
  · by_cases hnl : data &&& 0x7F = byte '\n'
    · rw [if_pos hon, if_pos hnl]
      exact .inr n.msgSend_eq
    · by_cases hb : byte ' ' ≤ data &&& 0x7F
      · rw [if_pos hon, if_neg hnl, if_pos hb]
        exact .inl ⟨hb, rfl⟩
      · rw [if_pos hon, if_neg hnl, if_neg hb]
        exact .inr ⟨_, _, rfl⟩
  · rw [if_neg hon]
    exact .inr ⟨_, _, rfl⟩

end Mote
end OflMotes.Node.MoteTeleinfo
