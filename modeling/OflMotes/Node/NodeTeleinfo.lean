import OflMotes.Node.Messages

/-! `main` of `node-teleinfo`: two listening windows, the housekeeping frame, and the reports that
`teleinfo_run` has left in its message queue. The two threads and the interrupt interleave; each
report is a buffer that the one allocates and the other frees. -/
namespace OflMotes.Node

namespace Teleinfo

/-- The report that the next round of `teleinfo_run` sends to `main`. -/
def produces (n : Teleinfo) : Option (List UInt8) :=
  let results := storeLine n.results (fillBuffer n.rxBuf.data)
  if n.thread = .handling ∧ results.state = allDone then some (report n.rxTeleinfo results.toMeter)
  else none

variable {n : Teleinfo}

theorem run_outbox (n : Teleinfo) : n.run.outbox = n.outbox ++ n.produces.toList := by
  unfold produces
  by_cases hthread : n.thread = .handling
  · by_cases hdone : (storeLine n.results (fillBuffer n.rxBuf.data)).state = allDone
    · rw [run_complete hthread hdone, if_pos ⟨hthread, hdone⟩]
      rfl
    · rw [run_incomplete hthread hdone, if_neg fun h => hdone h.2, msgReceive_outbox]
      exact (List.append_nil _).symm
  · rw [run_of_ne hthread, if_neg fun h => hthread h.1]
    exact (List.append_nil _).symm

/-- A report is sent by a round that handles a message, and the thread sleeps behind it. -/
theorem produces_eq_some {text : List UInt8} (h : n.produces = some text) :
    n.thread = .handling ∧ n.run.thread = .sleeping := by
  obtain ⟨⟨hthread, hdone⟩, -⟩ := Option.ite_none_right_eq_some.mp h
  refine ⟨hthread, ?_⟩
  rw [run_complete hthread hdone]

end Teleinfo

namespace NodeTeleinfo

/-- The statement that `main` executes next. A message taken from the queue is a pointer. -/
inductive Statement
  | enableRx (c : UInt8)
  | disableRx (c : UInt8)
  | housekeeping
  | msgTryReceive
  | dataTx (ptr : ℕ)
  | free (ptr : ℕ)
  | hibernate
  deriving DecidableEq

/-- The calls that matter to the reports, of both threads. -/
inductive Call
  | enableRx (c : UInt8)
  | malloc (ptr : ℕ) (text : List UInt8)
  | housekeeping (text : List UInt8)
  | dataTx (ptr : ℕ) (text : Option (List UInt8))
  | free (ptr : ℕ)
  deriving DecidableEq

namespace Call

def produced : Call → Option (ℕ × List UInt8)
  | .malloc ptr text => some (ptr, text)
  | _ => none

def sent : Call → Option (ℕ × Option (List UInt8))
  | .dataTx ptr text => some (ptr, text)
  | _ => none

def freed : Call → Option ℕ
  | .free ptr => some ptr
  | _ => none

end Call

/-- Both threads: the module, the next statement of `main`, the buffers that are allocated, the
messages that wait for `main`, whether `teleinfo_run` is blocked in its `msg_send`, and the calls
so far. Buffers are numbered as they are allocated. -/
structure Program where
  teleinfo : Teleinfo
  main : Statement
  loopCntr : UInt16
  heap : ℕ → Option (List UInt8)
  allocated : ℕ
  msgQueue : List ℕ
  blocked : Bool
  calls : List Call

namespace Program

/-- `main` in front of its loop, with `teleinfo_run` waiting for its first message. -/
def start : Program := ⟨.init, .enableRx 1, 0, fun _ => none, 0, [], false, []⟩

/-- A statement of `main`, with the battery voltage that `getBat` reads. -/
def mainStep (s : Program) (bat : Int32) : Program :=
  match s.main with
  | .enableRx c => { s with
      teleinfo := s.teleinfo.enableRx c
      main := .disableRx c
      calls := s.calls ++ [.enableRx c] }
  | .disableRx c => { s with
      teleinfo := s.teleinfo.disableRx
      main := if c + 1 < 3 then .enableRx (c + 1) else .housekeeping }
  | .housekeeping => { s with
      main := .msgTryReceive
      calls := s.calls ++ [.housekeeping (housekeeping bat s.loopCntr)] }
  | .msgTryReceive =>
    match s.msgQueue with
    | [] => { s with main := .hibernate }
    | ptr :: queue => { s with main := .dataTx ptr, msgQueue := queue }
  | .dataTx ptr => { s with main := .free ptr, calls := s.calls ++ [.dataTx ptr (s.heap ptr)] }
  | .free ptr => { s with
      main := .msgTryReceive
      heap := Function.update s.heap ptr none
      calls := s.calls ++ [.free ptr] }
  | .hibernate => { s with main := .enableRx 1, loopCntr := s.loopCntr + 1 }

/-- A round of `teleinfo_run`. A report is copied into a new buffer and sent to `main`; while all
8 slots of its queue are taken the thread blocks in `msg_send`, and gets no further. -/
def teleinfoRun (s : Program) : Program :=
  if s.blocked then s
  else
    match s.teleinfo.produces with
    | none => { s with teleinfo := s.teleinfo.run }
    | some text =>
      let s' : Program := { s with
        heap := Function.update s.heap s.allocated (some text)
        allocated := s.allocated + 1
        calls := s.calls ++ [.malloc s.allocated text] }
      if s.msgQueue.length < 8 then
        { s' with teleinfo := s.teleinfo.run, msgQueue := s.msgQueue ++ [s.allocated] }
      else { s' with blocked := true }

inductive Event
  | main (bat : Int32)
  | rx (data : UInt8)
  | run
  deriving DecidableEq

def step (s : Program) : Event → Program
  | .main bat => s.mainStep bat
  | .rx data => { s with teleinfo := s.teleinfo.rxCb data }
  | .run => s.teleinfoRun

section
variable {s : Program} {c : UInt8} {ptr : ℕ} (bat : Int32)

theorem main_enableRx (h : s.main = .enableRx c) : (s.mainStep bat).main = .disableRx c := by
  simp only [mainStep, h]

theorem main_disableRx (h : s.main = .disableRx c) :
    (s.mainStep bat).main = if c + 1 < 3 then .enableRx (c + 1) else .housekeeping := by
  simp only [mainStep, h]

theorem main_housekeeping (h : s.main = .housekeeping) :
    (s.mainStep bat).main = .msgTryReceive := by
  simp only [mainStep, h]

/-- The loop ends with the queue. -/
theorem main_msgTryReceive_nil (h : s.main = .msgTryReceive) (hqueue : s.msgQueue = []) :
    (s.mainStep bat).main = .hibernate := by
  simp only [mainStep, h, hqueue]

theorem main_msgTryReceive_cons {queue : List ℕ} (h : s.main = .msgTryReceive)
    (hqueue : s.msgQueue = ptr :: queue) : (s.mainStep bat).main = .dataTx ptr := by
  simp only [mainStep, h, hqueue]

theorem main_dataTx (h : s.main = .dataTx ptr) : (s.mainStep bat).main = .free ptr := by
  simp only [mainStep, h]

theorem main_free (h : s.main = .free ptr) : (s.mainStep bat).main = .msgTryReceive := by
  simp only [mainStep, h]

theorem main_hibernate (h : s.main = .hibernate) : (s.mainStep bat).main = .enableRx 1 := by
  simp only [mainStep, h]

end

/-- A round that sends a report, while `main` has a slot for it. -/
theorem teleinfoRun_some {s : Program} {text : List UInt8} (hblocked : s.blocked = false)
    (hproduces : s.teleinfo.produces = some text) (hroom : s.msgQueue.length < 8) :
    s.teleinfoRun = { s with
      teleinfo := s.teleinfo.run
      heap := Function.update s.heap s.allocated (some text)
      allocated := s.allocated + 1
      msgQueue := s.msgQueue ++ [s.allocated]
      calls := s.calls ++ [.malloc s.allocated text] } := by
  simp only [teleinfoRun, hblocked, hproduces, Bool.false_eq_true, if_false, if_pos hroom]

/-- The reports produced, with their buffers. -/
def produced (s : Program) : List (ℕ × List UInt8) := s.calls.filterMap Call.produced

/-- The buffers passed to `data_tx`, and what it read there. -/
def sent (s : Program) : List (ℕ × Option (List UInt8)) := s.calls.filterMap Call.sent

def freed (s : Program) : List ℕ := s.calls.filterMap Call.freed

/-- The reports that are still to be sent: the one that `main` has taken, and those that wait. -/
def pending (s : Program) : List ℕ :=
  (match s.main with | .dataTx ptr => [ptr] | _ => []) ++ s.msgQueue

/-- The buffer that was sent and is still to be freed. -/
def toFree (s : Program) : List ℕ := match s.main with | .free ptr => [ptr] | _ => []

end Program
end NodeTeleinfo
end OflMotes.Node
