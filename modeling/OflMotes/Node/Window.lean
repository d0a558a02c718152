import OflMotes.Lib.Fields
import OflMotes.Node.Teleinfo

/-! What one listening window is for: the lines of the byte stream are read one after the other,
and the first line after which all three values are known ends the window with a report. The
interrupt and the thread compute this report while the thread keeps up. -/
namespace OflMotes.Node
open Ascii

/-- The bytes of a stream as the lines see them: seven bits, without control characters. -/
def clean (bytes : List UInt8) : List UInt8 :=
  (bytes.map (· &&& 0x7F)).filter fun b => b = byte '\n' ∨ byte ' ' ≤ b

/-- The lines of a stream, the unfinished last one included. -/
def linesOf (bytes : List UInt8) : List (List UInt8) := (clean bytes).splitOn (byte '\n')

/-- The latest value of each label. -/
structure Latest where
  papp : Option Int16
  iinst : Option Int16
  base : Option Int32

def Latest.none : Latest := ⟨.none, .none, .none⟩

/-- A line sets the value of its label, if it has one. -/
def Latest.see (s : Latest) (line : List UInt8) : Latest :=
  match scanLine (fillBuffer line) with
  | some (.base, v) => { s with base := some (Int32.ofInt v) }
  | some (.papp, v) => { s with papp := some (Int16.ofInt v) }
  | some (.iinst, v) => { s with iinst := some (Int16.ofInt v) }
  | .none => s

/-- The meter's values, once all three are known. -/
def Latest.meter (s : Latest) : Option Meter := do
  let papp ← s.papp
  let iinst ← s.iinst
  let base ← s.base
  some ⟨papp, iinst, base⟩

/-- The values at the first line after which all three are known. -/
def firstComplete : Latest → List (List UInt8) → Option Meter
  | _, [] => none
  | s, line :: lines =>
    match (s.see line).meter with
    | some m => some m
    | none => firstComplete (s.see line) lines

/-- The report of a window: what its finished lines tell about the meter. -/
def windowReport (c : UInt8) (bytes : List UInt8) : Option (List UInt8) :=
  (firstComplete .none (linesOf bytes).dropLast).map fun m => reportText c m ++ ascii ";"

/-- The finished lines of a stream behind the unfinished line `p`. -/
def linesFrom (p bytes : List UInt8) : List (List UInt8) :=
  (p ++ clean bytes).splitOn (byte '\n')

theorem clean_cons (b : UInt8) (bytes : List UInt8) :
    clean (b :: bytes) = (if b &&& 0x7F = byte '\n' ∨ byte ' ' ≤ b &&& 0x7F then [b &&& 0x7F] else []) ++
      clean bytes := by
  unfold clean
  rw [List.map_cons, List.filter_cons]
  split_ifs <;> simp_all

section
variable {p : List UInt8} {b : UInt8} (bytes : List UInt8)

/-- A newline finishes the line. -/
theorem linesFrom_newline (hp : byte '\n' ∉ p) (h : b &&& 0x7F = byte '\n') :
    linesFrom p (b :: bytes) = p :: linesFrom [] bytes := by
  rw [linesFrom, clean_cons, if_pos (.inl h), h, List.singleton_append,
    List.splitOn_append_cons_self_of_not_mem hp]
  rfl

/-- A printable character lengthens it. -/
theorem linesFrom_printable (h : byte ' ' ≤ b &&& 0x7F) :
    linesFrom p (b :: bytes) = linesFrom (p ++ [b &&& 0x7F]) bytes := by
  rw [linesFrom, clean_cons, if_pos (.inr h), ← List.append_assoc]
  rfl

/-- Any other control character is dropped. -/
theorem linesFrom_control (h : ¬ (b &&& 0x7F = byte '\n' ∨ byte ' ' ≤ b &&& 0x7F)) :
    linesFrom p (b :: bytes) = linesFrom p bytes := by
  rw [linesFrom, clean_cons, if_neg h, List.nil_append]
  rfl

end

theorem linesFrom_ne_nil (p bytes : List UInt8) : linesFrom p bytes ≠ [] :=
  List.splitOn_ne_nil _ _

/-- The done bits of the labels seen. -/
def Latest.bits (s : Latest) : UInt8 := doneBits s.base.isSome s.papp.isSome s.iinst.isSome

/-- The results hold the latest values: a bit is set exactly for the labels seen. -/
structure Represents (s : Latest) (r : Results) : Prop where
  state : r.state = s.bits
  papp : ∀ v ∈ s.papp, r.papp = v
  iinst : ∀ v ∈ s.iinst, r.iinst = v
  base : ∀ v ∈ s.base, r.base = v

theorem represents_none {r : Results} (h : r.state = 0) : Represents .none r :=
  ⟨h, by simp [Latest.none], by simp [Latest.none], by simp [Latest.none]⟩

/-- Reading a line keeps the results in step with the latest values. -/
theorem represents_see {s : Latest} {r : Results} (h : Represents s r) (line : List UInt8) :
    Represents (s.see line) (storeLine r (fillBuffer line)) := by
  unfold Latest.see storeLine
  cases hscan : scanLine (fillBuffer line) with
  | none => exact h
  | some lv =>
    obtain ⟨l, v⟩ := lv
    have hbits := doneBits_or s.base.isSome s.papp.isSome s.iinst.isSome
    cases l with
    | base => exact ⟨by rw [h.state]; exact hbits.1, h.papp, h.iinst, by simp [Meter.store]⟩
    | papp => exact ⟨by rw [h.state]; exact hbits.2.1, by simp [Meter.store], h.iinst, h.base⟩
    | iinst => exact ⟨by rw [h.state]; exact hbits.2.2, h.papp, by simp [Meter.store], h.base⟩

/-- The test for a complete sequence finds out whether all values are known. -/
theorem meter_eq {s : Latest} {r : Results} (h : Represents s r) :
    s.meter = if r.state = allDone then some r.toMeter else none := by
  have hdone : r.state = allDone ↔ s.base.isSome ∧ s.papp.isSome ∧ s.iinst.isSome := by
    rw [h.state]
    exact doneBits_eq_allDone _ _ _
  cases hp : s.papp with
  | none => simp [Latest.meter, hdone, hp]
  | some vp =>
    cases hi : s.iinst with
    | none => simp [Latest.meter, hdone, hp, hi]
    | some vi =>
      cases hb : s.base with
      | none => simp [Latest.meter, hdone, hp, hi, hb]
      | some vb =>
        have hmeter : r.toMeter = ⟨vp, vi, vb⟩ := by
          rw [← h.papp vp hp, ← h.iinst vi hi, ← h.base vb hb]
        simp [Latest.meter, hdone, hp, hi, hb, hmeter]

namespace Teleinfo

/-- The thread handles its messages before the next byte arrives: each byte is followed by some
rounds of the thread, and a newline by at least one. -/
def Prompt (sched : List (UInt8 × ℕ)) : Prop := ∀ x ∈ sched, x.1 &&& 0x7F = byte '\n' → 0 < x.2

/-- The events of one byte and the rounds behind it. -/
def delivery (x : UInt8 × ℕ) : List Event := .rx x.1 :: List.replicate x.2 .run

def deliver (n : Teleinfo) (x : UInt8 × ℕ) : Teleinfo := Run.run step n (delivery x)

theorem run_replicate {n : Teleinfo} (h : n.thread ≠ .handling) (k : ℕ) :
    Run.run step n (List.replicate k .run) = n := by
  induction k with
  | zero => rfl
  | succ k ih => rw [List.replicate_succ, Run.run_cons, step, run_of_ne h, ih]

/-- The thread has nothing to do after a byte that is no newline. -/
theorem deliver_of_ne {n : Teleinfo} {x : UInt8 × ℕ} (h : (n.rxCb x.1).thread ≠ .handling) :
    n.deliver x = n.rxCb x.1 := by
  rw [deliver, delivery, Run.run_cons, step, run_replicate h]

/-- It handles a newline in the first round. -/
theorem deliver_of_pos {n : Teleinfo} {x : UInt8 × ℕ} (hx : 0 < x.2)
    (h : (n.rxCb x.1).run.thread ≠ .handling) : n.deliver x = (n.rxCb x.1).run := by
  obtain ⟨k, hk⟩ := Nat.exists_eq_succ_of_ne_zero (Nat.pos_iff_ne_zero.mp hx)
  rw [deliver, delivery, hk, List.replicate_succ, Run.run_cons, Run.run_cons, step, step,
    run_replicate h]

/-- While reception is disabled and the thread has nothing to handle, bytes have no effect. -/
theorem deliver_disabled {n : Teleinfo} (hrx : n.rxTeleinfo = 0) (h : n.thread ≠ .handling)
    (x : UInt8 × ℕ) : n.deliver x = n := by
  have hcb : n.rxCb x.1 = n := rxCb_of_disabled hrx
  rw [deliver_of_ne (by rwa [hcb]), hcb]

/-- The state follows the list-level reading: the ring buffer holds the end of the unfinished line,
and the results hold the latest values. -/
structure Tracks (c : UInt8) (out : List (List UInt8)) (s : Latest) (p : List UInt8)
    (n : Teleinfo) : Prop where
  rx : n.rxTeleinfo = c
  thread : n.thread = .receiving
  queue : n.msgQueue = 0
  line : n.rxBuf.data = p.drop (p.length - uartBufsize)
  noNewline : byte '\n' ∉ p
  results : Represents s n.results
  outbox : n.outbox = out

section
variable {c : UInt8} {out : List (List UInt8)} {s : Latest} {p : List UInt8} {n : Teleinfo}
  {x : UInt8 × ℕ}

theorem tracks_control (h : Tracks c out s p n)
    (hx : ¬ (x.1 &&& 0x7F = byte '\n' ∨ byte ' ' ≤ x.1 &&& 0x7F)) :
    Tracks c out s p (n.deliver x) := by
  rw [not_or] at hx
  have hcb : n.rxCb x.1 = n := rxCb_control hx.1 hx.2
  rw [deliver_of_ne (by rw [hcb, h.thread]; decide), hcb]
  exact h

theorem tracks_printable (hc : c ≠ 0) (h : Tracks c out s p n) (hn : x.1 &&& 0x7F ≠ byte '\n')
    (hx : byte ' ' ≤ x.1 &&& 0x7F) : Tracks c out s (p ++ [x.1 &&& 0x7F]) (n.deliver x) := by
  have hcb := rxCb_printable (by rwa [h.rx]) hn hx
  rw [deliver_of_ne (by rw [hcb, h.thread]; decide), hcb]
  exact { h with
    line := Ring.addOne_data_of_drop h.line _
    noNewline := by simp [h.noNewline, Ne.symm hn] }

/-- A newline has the line read: either the window ends with the report, or the reading goes on
behind it. -/
theorem tracks_newline (hc : c ≠ 0) (h : Tracks c out s p n) (hn : x.1 &&& 0x7F = byte '\n')
    (hx : 0 < x.2) (hlen : p.length < uartBufsize) :
    match (s.see p).meter with
    | some m => n.deliver x = { n with
        rxTeleinfo := 0
        rxBuf := .empty
        results := ⟨⟨0, 0, 0⟩, 0⟩
        thread := .sleeping
        outbox := out ++ [reportText c m ++ ascii ";"] }
    | none => Tracks c out (s.see p) [] (n.deliver x) := by
  have hcb : n.rxCb x.1 = { n with thread := .handling } := by
    rw [rxCb_newline (by rwa [h.rx]) hn, msgSend, h.thread]
  have hsee := represents_see h.results p
  have hstore : storeLine n.results (fillBuffer n.rxBuf.data) =
      storeLine n.results (fillBuffer p) := by
    rw [h.line, Nat.sub_eq_zero_of_le hlen.le, List.drop_zero]
  rw [meter_eq hsee]
  by_cases hdone : (storeLine n.results (fillBuffer p)).state = allDone
  · have hrun := run_complete (n := n.rxCb x.1) (by rw [hcb]) (by rw [hcb, hstore]; exact hdone)
    simp only [if_pos hdone]
    rw [deliver_of_pos hx (by rw [hrun]; simp), hrun, hcb, ← report_eq]
    simp only [h.rx, h.outbox, hstore]
  · have hrun := run_incomplete (n := n.rxCb x.1) (by rw [hcb]) (by rw [hcb, hstore]; exact hdone)
    rw [msgReceive_idle (by rw [hcb]; exact h.queue)] at hrun
    simp only [if_neg hdone]
    rw [deliver_of_pos hx (by rw [hrun]; simp), hrun, hcb]
    exact { h with
      thread := rfl
      line := rfl
      noNewline := by simp
      results := by simpa only [hstore] using hsee }

/-- A whole schedule: the reports sent and, once there is one, a clean state. -/
theorem tracks_run (hc : c ≠ 0) (h : Tracks c out s p n) {sched : List (UInt8 × ℕ)}
    (hprompt : Prompt sched)
    (hshort : ∀ line ∈ (linesFrom p (sched.map Prod.fst)).dropLast, line.length < uartBufsize) :
    let n' := sched.foldl deliver n
    match firstComplete s (linesFrom p (sched.map Prod.fst)).dropLast with
    | some m => n'.outbox = out ++ [reportText c m ++ ascii ";"] ∧ n'.rxBuf = .empty ∧
        n'.results.state = 0
    | none => n'.outbox = out := by
  induction sched generalizing n s p with
  | nil =>
    have hlines : linesFrom p [] = [p] := by
      rw [linesFrom, clean, List.map_nil, List.filter_nil, List.append_nil,
        List.splitOn_eq_singleton h.noNewline]
    simp [hlines, firstComplete, h.outbox]
  | cons x sched ih =>
    have hprompt' : Prompt sched := fun y hy => hprompt y (by simp [hy])
    rw [List.map_cons] at hshort ⊢
    rw [List.foldl_cons]
    by_cases hn : x.1 &&& 0x7F = byte '\n'
    · rw [linesFrom_newline _ h.noNewline hn,
        List.dropLast_cons_of_ne_nil (linesFrom_ne_nil _ _)] at hshort ⊢
      rw [firstComplete]
      have hstep := tracks_newline hc h hn (hprompt x (by simp) hn) (hshort p (by simp))
      cases hm : (s.see p).meter with
      | none =>
        rw [hm] at hstep
        exact ih hstep hprompt' fun line hline => hshort line (by simp [hline])
      | some m =>
        rw [hm] at hstep
        simp only at hstep ⊢
        have hrest (l : List (UInt8 × ℕ)) : l.foldl deliver (n.deliver x) = n.deliver x := by
          induction l with
          | nil => rfl
          | cons y l ihl =>
            rw [List.foldl_cons, deliver_disabled (by rw [hstep]) (by rw [hstep]; simp), ihl]
        rw [hrest, hstep]
        exact ⟨rfl, rfl, rfl⟩
    by_cases hx : byte ' ' ≤ x.1 &&& 0x7F
    · rw [linesFrom_printable _ hx] at hshort ⊢
      exact ih (tracks_printable hc h hn hx) hprompt' hshort
    · have hcontrol : ¬ (x.1 &&& 0x7F = byte '\n' ∨ byte ' ' ≤ x.1 &&& 0x7F) := by simp [hn, hx]
      rw [linesFrom_control _ hcontrol] at hshort ⊢
      exact ih (tracks_control h hcontrol) hprompt' hshort

end

/-- Enabling reception of a meter starts a fresh reading. -/
theorem tracks_enableRx {n : Teleinfo} (hthread : n.thread ≠ .handling) (hqueue : n.msgQueue = 0)
    (hring : n.rxBuf = .empty) (hstate : n.results.state = 0) (c : UInt8) :
    Tracks c n.outbox .none [] (n.enableRx c) := by
  have hwait : (n.enableRx c).thread = .receiving ∧ (n.enableRx c).msgQueue = 0 := by
    obtain ⟨p₁, p₂, h⟩ := n.enableRx_eq c
    rw [h]
    split_ifs with hsleep
    · rw [msgReceive_idle (by exact hqueue)]
      exact ⟨rfl, hqueue⟩
    · refine ⟨?_, hqueue⟩
      cases ht : n.thread with
      | receiving => rfl
      | handling => exact absurd ht hthread
      | sleeping => exact absurd ht hsleep
  exact {
    rx := n.enableRx_rxTeleinfo c
    thread := hwait.1
    queue := hwait.2
    line := by rw [enableRx_rxBuf, hring, Ring.empty_data, List.drop_nil]
    noNewline := by simp
    results := by rw [enableRx_results]; exact represents_none hstate
    outbox := n.enableRx_outbox c }

/-- The events of a prompt schedule. -/
def events (sched : List (UInt8 × ℕ)) : List Event := sched.flatMap delivery

theorem run_events (sched : List (UInt8 × ℕ)) (n : Teleinfo) :
    Run.run step n (events sched) = sched.foldl deliver n := by
  induction sched generalizing n with
  | nil => rfl
  | cons x sched ih =>
    rw [events, List.flatMap_cons, Run.run_append, ← events, ih]
    rfl

/-- One listening window sends exactly the report of its specification, and leaves the module
clean once it was sent. -/
theorem window_refines (n : Teleinfo) (hthread : n.thread ≠ .handling) (hqueue : n.msgQueue = 0)
    (hring : n.rxBuf = .empty) (hstate : n.results.state = 0) (c : UInt8) (hc : c ≠ 0)
    (sched : List (UInt8 × ℕ)) (hprompt : Prompt sched)
    (hshort : ∀ line ∈ (linesOf (sched.map Prod.fst)).dropLast, line.length ≤ 127) :
    let n' := Run.run step n (.enableRx c :: events sched)
    n'.outbox = n.outbox ++ (windowReport c (sched.map Prod.fst)).toList ∧
      (windowReport c (sched.map Prod.fst) ≠ none → n'.rxBuf = .empty ∧ n'.results.state = 0) := by
  have htracks := tracks_enableRx hthread hqueue hring hstate c
  have hrun := tracks_run hc htracks hprompt
    (fun line hline => Nat.lt_succ_of_le (hshort line hline))
  have hlines : linesFrom [] (sched.map Prod.fst) = linesOf (sched.map Prod.fst) := rfl
  simp only [Run.run_cons, run_events, step, windowReport]
  rw [hlines] at hrun
  cases hm : firstComplete .none (linesOf (sched.map Prod.fst)).dropLast with
  | none =>
    rw [hm] at hrun
    simpa using hrun
  | some m =>
    rw [hm] at hrun
    simpa using hrun

/-- A window of the first meter with a partial line in front and an unknown label among the
others. -/
theorem window_refines_init :
    let sched := (ascii "982 .\r\nBASE 014038982 .\r\nADCO 1\nPAPP 02340 *\r\nIINST 010 X\r\n").map (·, 1)
    let n' := Run.run step init (.enableRx 1 :: events sched)
    n'.outbox = init.outbox ++ (windowReport 1 (sched.map Prod.fst)).toList ∧
      (windowReport 1 (sched.map Prod.fst) ≠ none → n'.rxBuf = .empty ∧ n'.results.state = 0) := by
  refine window_refines init (by decide) rfl rfl rfl 1 (by decide) _ ?_ (by decide)
  intro x hx _
  obtain ⟨b, -, rfl⟩ := List.mem_map.mp hx
  exact Nat.one_pos

example : windowReport 1 (ascii "982 .\r\nBASE 014038982 .\r\nADCO 1\nPAPP 02340 *\r\nIINST 010 X\r\n") =
    some (ascii "PAPP1:2340;BASE1:14038982;IINST1:10;") := by decide

end Teleinfo
end OflMotes.Node
