import OflMotes.Node.MoteDevice
import OflMotes.Node.Reader

/-! The thread of `mote-teleinfo` follows the reader of a window, when it is not overtaken. Its values
start as unread in every window, and only the unfinished line goes from one window to the next. -/
namespace OflMotes.Node.MoteTeleinfo

/-- The values of the older program, which are unread while they are negative. -/
instance : Values Meter where
  start := ⟨-1, -1, -1⟩
  reopen _ := ⟨-1, -1, -1⟩
  see m line := storeLine m (fillBuffer line)
  meter m := if complete m then some m else none
  report := report
  reopen_reopen _ := rfl

/-- In an open window that still reads, while the thread has nothing to handle. -/
structure Tracks (c : UInt8) (k : Carry Meter) (n : Mote) : Prop where
  label : n.curPitinfo = c
  on : n.uartOn = true
  thread : n.processor = .receiving
  queue : n.msgQueue = 0
  line : n.rxBuf.data = k.line.drop (k.line.length - uartBufsize)
  noNewline : Ascii.byte '\n' ∉ k.line
  results : n.results = k.latest

/-- Behind a report the UART is off until the next window. -/
structure Rests (n : Mote) : Prop where
  off : n.uartOn = false
  thread : n.processor = .receiving
  queue : n.msgQueue = 0
  ring : n.rxBuf = .empty

/-- In an open window. -/
def Follows (c : UInt8) : Reader Meter → Mote → Prop
  | .reading k, n => Tracks c k n
  | .complete _, n => Rests n

/-- Outside of the windows. -/
structure Closed (k : Carry Meter) (n : Mote) : Prop where
  waits : n.processor = .receiving ∨ n.processor = .absent
  queue : n.msgQueue = 0
  line : n.rxBuf.data = k.line.drop (k.line.length - uartBufsize)
  noNewline : Ascii.byte '\n' ∉ k.line

section
variable {n : Mote} {c : UInt8} {r : Reader Meter} {k : Carry Meter} {b : UInt8}

theorem Follows.thread (h : Follows c r n) : n.processor = .receiving := by
  cases r with
  | reading k => exact Tracks.thread h
  | complete m => exact Rests.thread h

/-- What a window leaves is its line; the values are read anew in the next. -/
theorem Closed.of_line {k' : Carry Meter} (h : Closed k n) (hline : k'.line = k.line) :
    Closed k' n :=
  ⟨h.waits, h.queue, hline ▸ h.line, hline ▸ h.noNewline⟩

theorem Follows.closed (h : Follows c r n) : Closed r.result.2 n := by
  cases r with
  | reading k =>
    exact ⟨.inl (Tracks.thread h), Tracks.queue h, Tracks.line h, Tracks.noNewline h⟩
  | complete m =>
    have hline : (Reader.complete m : Reader Meter).result.2.line = [] := rfl
    refine ⟨.inl (Rests.thread h), Rests.queue h, ?_, ?_⟩
    · rw [Rests.ring h, hline]
      rfl
    · rw [hline]
      exact List.not_mem_nil

/-- A window that is opened, with the label of its meter and values that are unread. -/
theorem Closed.tracks (h : Closed k n) (hthread : n.processor = .receiving)
    (hlabel : n.curPitinfo = c) (hresults : n.results = ⟨-1, -1, -1⟩) (main : Statement) :
    Tracks c k.reopen { n with main := main, uartOn := true } :=
  ⟨hlabel, rfl, hthread, h.queue, h.line, h.noNewline, hresults⟩

theorem msgReceive_idle (h : n.msgQueue = 0) : n.msgReceive = { n with processor := .receiving } := by
  unfold Mote.msgReceive
  split
  · rfl
  · simp_all

theorem rxCb_off (h : n.uartOn = false) (b : UInt8) : n.rxCb b = n := by
  rw [Mote.rxCb, if_neg (by rw [h]; decide)]

/-- A byte that does not finish a line. -/
theorem Follows.rxCb (h : Follows c r n) (hb : ∀ k, r = .reading k → b &&& 0x7F ≠ Ascii.byte '\n') :
    Follows c (r.byte b) (n.rxCb b) := by
  cases r with
  | complete m =>
    rw [rxCb_off (Rests.off h)]
    exact h
  | reading k =>
    have hn := hb k rfl
    have htracks : Tracks c k n := h
    have hon := htracks.on
    by_cases hp : Ascii.byte ' ' ≤ b &&& 0x7F
    · rw [Reader.byte_printable hn hp, Mote.rxCb, if_pos hon]
      dsimp only
      rw [if_neg hn, if_pos hp]
      show Tracks c ⟨k.latest, k.line ++ [b &&& 0x7F]⟩ _
      have hline : Ascii.byte '\n' ∉ k.line ++ [b &&& 0x7F] := by
        rw [List.mem_append, not_or, List.mem_singleton]
        exact ⟨htracks.noNewline, Ne.symm hn⟩
      exact ⟨htracks.label, hon, htracks.thread, htracks.queue,
        Ring.addOne_data_of_drop htracks.line _, hline, htracks.results⟩
    · rw [Reader.byte_control (by simp [hn, hp]), Mote.rxCb, if_pos hon]
      dsimp only
      rw [if_neg hn, if_neg hp]
      exact h

/-- A newline wakes the thread, and nothing else. -/
theorem Tracks.newline (h : Tracks c k n) (hb : b &&& 0x7F = Ascii.byte '\n') :
    n.rxCb b = { n with processor := .handling } := by
  rw [Mote.rxCb, if_pos h.on]
  dsimp only
  rw [if_pos hb, Mote.msgSend, h.thread]

section
variable (h : Tracks c k n) (hlen : n.rxBuf.data.length < uartBufsize)
include h hlen

theorem Tracks.stored :
    storeLine n.results (fillBuffer n.rxBuf.data) = Values.see k.latest k.line := by
  have hline : k.line.length < uartBufsize := by
    rw [h.line, List.length_drop] at hlen
    unfold uartBufsize at hlen ⊢
    omega
  rw [h.line, Nat.sub_eq_zero_of_le hline.le, List.drop_zero, h.results]
  rfl

/-- The thread transmits what the reader has completed, if it has. -/
theorem Tracks.sends (hb : b &&& 0x7F = Ascii.byte '\n') :
    (n.rxCb b).sends = ((Reader.reading k).byte b).result.1.map (report c) := by
  have hstored := h.stored hlen
  have hmeter : Values.meter (Values.see k.latest k.line) =
      if complete (Values.see k.latest k.line) then some (Values.see k.latest k.line) else none := rfl
  rw [h.newline hb, sends_handling rfl, Reader.byte_newline hb, hmeter]
  dsimp only
  rw [hstored, h.label]
  split_ifs <;> rfl

/-- A line that does not complete the values. -/
theorem Tracks.process_none (hb : b &&& 0x7F = Ascii.byte '\n')
    (hnone : ((Reader.reading k).byte b).result.1 = none) :
    Follows c ((Reader.reading k).byte b) (n.rxCb b).process := by
  have hstored := h.stored hlen
  have hmeter : Values.meter (Values.see k.latest k.line) =
      if complete (Values.see k.latest k.line) then some (Values.see k.latest k.line) else none := rfl
  rw [Reader.byte_newline hb, hmeter] at hnone ⊢
  by_cases hdone : complete (Values.see k.latest k.line) = true
  · rw [if_pos hdone] at hnone
    contradiction
  · rw [if_neg hdone, h.newline hb]
    simp only [Mote.process, Ring.get_cap]
    rw [hstored, if_neg hdone, msgReceive_idle (by exact h.queue)]
    exact ⟨h.label, h.on, rfl, h.queue, List.drop_nil.symm, List.not_mem_nil, rfl⟩

/-- A line that completes them: the UART is off behind the report. -/
theorem Tracks.process_some (hb : b &&& 0x7F = Ascii.byte '\n')
    (hsome : ((Reader.reading k).byte b).result.1 ≠ none) :
    (n.rxCb b).process.processor = .notifying ∧
      Follows c ((Reader.reading k).byte b) (n.rxCb b).process.notified := by
  have hstored := h.stored hlen
  have hmeter : Values.meter (Values.see k.latest k.line) =
      if complete (Values.see k.latest k.line) then some (Values.see k.latest k.line) else none := rfl
  rw [Reader.byte_newline hb, hmeter] at hsome ⊢
  by_cases hdone : complete (Values.see k.latest k.line) = true
  · have hprocess := Mote.process_complete (n := n.rxCb b) (by rw [h.newline hb])
      (by rw [h.newline hb]; exact hstored ▸ hdone)
    rw [if_pos hdone, hprocess]
    refine ⟨rfl, ?_⟩
    rw [h.newline hb]
    simp only [Mote.notified]
    rw [msgReceive_idle (by exact h.queue)]
    exact ⟨rfl, rfl, h.queue, rfl⟩
  · rw [if_neg hdone] at hsome
    contradiction

end

/-- The thread goes on behind a newline, to its next message. -/
theorem Tracks.round (h : Tracks c k n) (hlen : n.rxBuf.data.length < uartBufsize)
    (hb : b &&& 0x7F = Ascii.byte '\n') :
    Follows c ((Reader.reading k).byte b) (n.rxCb b).process.notified := by
  cases hresult : ((Reader.reading k).byte b).result.1 with
  | none =>
    have hnext := h.process_none hlen hb hresult
    rw [Mote.notified_of_ne (by rw [hnext.thread]; decide)]
    exact hnext
  | some m => exact (h.process_some hlen hb (by rw [hresult]; simp)).2

end

/-- The events of one byte and the rounds of the thread behind it. -/
def Mote.delivery (x : UInt8 × ℕ) : List Mote.Event :=
  .rx x.1 :: (List.replicate x.2 [.process, .notified]).flatten

def Mote.deliver (n : Mote) (x : UInt8 × ℕ) : Mote := Run.run Mote.step n (Mote.delivery x)

def Mote.events (sched : List (UInt8 × ℕ)) : List Mote.Event := sched.flatMap Mote.delivery

theorem run_events (sched : List (UInt8 × ℕ)) (n : Mote) :
    Run.run Mote.step n (Mote.events sched) = sched.foldl Mote.deliver n := by
  induction sched generalizing n with
  | nil => rfl
  | cons x sched ih =>
    rw [Mote.events, List.flatMap_cons, Run.run_append, ← Mote.events, ih]
    rfl

section
variable {n : Mote} {c : UInt8} {r : Reader Meter} {x : UInt8 × ℕ}

/-- A thread that waits has nothing to do. -/
theorem run_rounds (h : n.processor = .receiving) (k : ℕ) :
    Run.run Mote.step n (List.replicate k [.process, .notified]).flatten = n := by
  have hprocess : n.process = n := Mote.process_of_ne (by rw [h]; decide)
  have hnotified : n.notified = n := Mote.notified_of_ne (by rw [h]; decide)
  induction k with
  | zero => rfl
  | succ k ih =>
    rw [List.replicate_succ, List.flatten_cons, Run.run_append, Run.run_cons, Run.run_cons, Mote.step,
      Mote.step, hprocess, hnotified]
    exact ih

theorem deliver_of_receiving (h : (n.rxCb x.1).processor = .receiving) : n.deliver x = n.rxCb x.1 := by
  rw [Mote.deliver, Mote.delivery, Run.run_cons]
  exact run_rounds h x.2

theorem deliver_of_pos (hx : 0 < x.2)
    (h : (n.rxCb x.1).process.notified.processor = .receiving) :
    n.deliver x = (n.rxCb x.1).process.notified := by
  obtain ⟨k, hk⟩ := Nat.exists_eq_succ_of_ne_zero (Nat.pos_iff_ne_zero.mp hx)
  rw [Mote.deliver, Mote.delivery, hk, List.replicate_succ, List.flatten_cons, Run.run_cons,
    Run.run_append]
  exact run_rounds h k

/-- A byte with the rounds of the thread behind it. -/
theorem Follows.deliver (h : Follows c r n)
    (hkeeps : x.1 &&& 0x7F = Ascii.byte '\n' →
      0 < x.2 ∧ ∀ k, r = .reading k → k.line.length < uartBufsize) :
    Follows c (r.byte x.1) (n.deliver x) ∧ ∃ l, (n.deliver x).transmitted = n.transmitted ++ l ∧
      (r.byte x.1).texts c = r.texts c ++ l := by
  by_cases hnl : ∃ k, r = .reading k ∧ x.1 &&& 0x7F = Ascii.byte '\n'
  · obtain ⟨k, rfl, hn⟩ := hnl
    obtain ⟨hpos, hlen⟩ := hkeeps hn
    have htracks : Tracks c k n := h
    have hline : n.rxBuf.data.length < uartBufsize := by
      rw [htracks.line, List.length_drop]
      exact (Nat.sub_le _ _).trans_lt (hlen k rfl)
    have hnext := htracks.round hline hn
    rw [deliver_of_pos hpos hnext.thread]
    refine ⟨hnext, _, ?_, rfl⟩
    rw [transmitted_notified, process_transmitted, transmitted_rxCb, htracks.sends hline hn]
    rfl
  · have hn (k : Carry Meter) (hr : r = .reading k) : x.1 &&& 0x7F ≠ Ascii.byte '\n' :=
      fun hn => hnl ⟨k, hr, hn⟩
    have hnext := h.rxCb hn
    rw [deliver_of_receiving hnext.thread]
    refine ⟨hnext, [], ?_, ?_⟩
    · rw [transmitted_rxCb, List.append_nil]
    · rw [Reader.texts, Reader.byte_result hn, List.append_nil]
      rfl

/-- `main` is about to open the window of a meter, with the label and the values set for it, and
nothing is left of the windows before. -/
structure Opens (c : UInt8) (n : Mote) : Prop where
  main : n.main = .poweron c
  label : n.curPitinfo = c
  unread : n.results = ⟨-1, -1, -1⟩
  thread : n.processor = .receiving
  queue : n.msgQueue = 0
  ring : n.rxBuf = .empty

/-- A window that starts anew, while the thread keeps up with its lines. -/
theorem transmitted_run (h : Opens c n) {sched : List (UInt8 × ℕ)}
    (hprompt : Teleinfo.Prompt sched)
    (hshort : ∀ line ∈ (linesOf (sched.map Prod.fst)).dropLast, line.length < uartBufsize) :
    (Run.run Mote.step n (.main :: Mote.events sched)).transmitted =
      n.transmitted ++ (Carry.none : Carry Meter).reports c (sched.map Prod.fst) := by
  have hclosed : Closed .none n :=
    ⟨.inl h.thread, h.queue, by rw [h.ring]; rfl, List.not_mem_nil⟩
  have hopened : n.mainStep = { n with main := .poweroff c, uartOn := true } := by
    simp only [Mote.mainStep, h.main]
  have hfollows : Follows c (.reading Carry.none.reopen) n.mainStep := by
    rw [hopened]
    exact hclosed.tracks h.thread h.label h.unread _
  obtain ⟨l, hout, htexts⟩ := Reader.follows_run (F := Follows c) (L := Mote.transmitted) (c := c)
    (fun r t x h hkeeps => h.deliver hkeeps) (r := .reading Carry.none.reopen) List.not_mem_nil
    hfollows hprompt (by rintro k ⟨⟩; exact hshort)
  rw [Reader.texts, Reader.texts, Reader.result_read List.not_mem_nil] at htexts
  rw [Run.run_cons, run_events]
  show (sched.foldl Mote.deliver n.mainStep).transmitted = _
  rw [hout, transmitted_mainStep]
  exact congrArg (n.transmitted ++ ·) htexts.symm

end
end OflMotes.Node.MoteTeleinfo
