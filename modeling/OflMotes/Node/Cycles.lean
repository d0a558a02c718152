import OflMotes.Node.DutyCycle
import OflMotes.Node.Reader

/-! What the cycles of `node-teleinfo` send: while the thread keeps up with the bytes, each cycle
sends its housekeeping frame and behind it the reports that its own two windows read. -/
namespace OflMotes.Node.NodeTeleinfo
open Program Epochs

def Program.Event.byte : Program.Event → List UInt8
  | .rx data => [data]
  | _ => []

/-- The byte that is received in the open window of a cycle. -/
def hears (s : Device) (e : Program.Event) (k : ℕ) (c : UInt8) : List UInt8 :=
  if k = s.cycle ∧ s.program.main = .disableRx c then e.byte else []

/-- The bytes received in each window of each cycle of a run. -/
def heard (d : Driver) (nodeId : UInt8) : Device → List Program.Event → ℕ → UInt8 → List UInt8
  | _, [], _, _ => []
  | s, e :: es, k, c => hears s e k c ++ heard d nodeId (s.step d nodeId e) es k c

/-- The thread keeps up: it handles a newline before anything else happens, and fewer than 128
characters wait for it then. -/
def KeepsUp (s : Device) (e : Program.Event) : Prop :=
  s.program.teleinfo.thread = .handling →
    e = .run ∧ s.program.teleinfo.rxBuf.data.length < uartBufsize

instance (s : Device) (e : Program.Event) : Decidable (KeepsUp s e) :=
  inferInstanceAs (Decidable (_ → _))

/-- The texts of the reports that are still to be sent. -/
def Program.waiting (s : Program) : List (Option (List UInt8)) := s.pending.map s.heap

section
variable {s t : Program}

theorem Handed.waiting (h : Handed s) :
    s.sent.map Prod.snd ++ s.waiting = s.teleinfo.outbox.map some := by
  have hsnd := congrArg (List.map Prod.snd) h.handed
  rw [List.map_append, List.map_map, List.map_map] at hsnd
  rw [← h.texts, List.map_map]
  exact hsnd

/-- What is produced waits behind what waited before, unless it is sent. -/
theorem waiting_eq (hs : Handed s) (ht : Handed t) (hsent : t.sent = s.sent)
    {l : List (List UInt8)} (hout : t.teleinfo.outbox = s.teleinfo.outbox ++ l) :
    t.waiting = s.waiting ++ l.map some := by
  have hwait := ht.waiting
  rw [hsent, hout, List.map_append, ← hs.waiting, List.append_assoc] at hwait
  exact List.append_cancel_left hwait

theorem waiting_dataTx {ptr : ℕ} (hmain : s.main = .dataTx ptr) (bat : Int32) :
    s.waiting = s.heap ptr :: (s.mainStep bat).waiting := by
  simp [Program.waiting, pending, mainStep, hmain]

theorem outbox_mainStep (bat : Int32) : (s.mainStep bat).teleinfo.outbox = s.teleinfo.outbox := by
  cases hmain : s.main with
  | enableRx c =>
    simp only [mainStep, hmain]
    exact s.teleinfo.enableRx_outbox c
  | disableRx c => simp only [mainStep, hmain]; rfl
  | msgTryReceive => cases hqueue : s.msgQueue <;> simp [mainStep, hmain, hqueue]
  | _ => simp [mainStep, hmain]

theorem sent_mainStep (hne : ∀ ptr, s.main ≠ .dataTx ptr) (bat : Int32) :
    (s.mainStep bat).sent = s.sent := by
  cases hmain : s.main with
  | dataTx ptr => exact absurd hmain (hne ptr)
  | msgTryReceive => cases hqueue : s.msgQueue <;> simp [mainStep, hmain, hqueue, sent]
  | _ => simp [mainStep, hmain, sent, Call.sent, List.filterMap_cons]

/-- A statement that sends nothing leaves all that waits. -/
theorem waiting_mainStep (h : Handed s) (hne : ∀ ptr, s.main ≠ .dataTx ptr) (bat : Int32) :
    (s.mainStep bat).waiting = s.waiting := by
  have hwait := waiting_eq (l := []) h (handed_mainStep h bat) (sent_mainStep hne bat)
    (by rw [outbox_mainStep, List.append_nil])
  rw [hwait, List.map_nil, List.append_nil]

theorem sent_teleinfoRun (hpaced : Paced s) : s.teleinfoRun.sent = s.sent := by
  have hqueue := hpaced.queue_length
  cases hproduces : s.teleinfo.produces with
  | none => simp [teleinfoRun, hpaced.unblocked, hproduces, sent]
  | some text =>
    rw [teleinfoRun_some hpaced.unblocked hproduces (by omega)]
    simp [sent, Call.sent, List.filterMap_cons]

theorem waiting_teleinfoRun (hhanded : Handed s) (hpaced : Paced s) {l : List (List UInt8)}
    (hout : s.teleinfo.run.outbox = s.teleinfo.outbox ++ l) :
    s.teleinfoRun.waiting = s.waiting ++ l.map some := by
  have hqueue := hpaced.queue_length
  apply waiting_eq hhanded
  · exact handed_teleinfoRun hhanded hpaced.unblocked (by omega)
  · exact sent_teleinfoRun hpaced
  · rw [(teleinfoRun_eq hpaced).1]
    exact hout

end

/-- Where the module stands in a cycle: it follows the reader of the open window, or rests with what
the windows have left. -/
def Attends (k : Carry Latest) (heard : UInt8 → List UInt8) (n : Teleinfo) : Statement → Prop
  | .disableRx c => Teleinfo.Follows c (k.reader heard c) n
  | _ => Teleinfo.Closed (k.cycle heard) n

/-- The window of this meter has been opened in the cycle. -/
def Statement.opened : Statement → UInt8 → Prop
  | .enableRx c', c => c < c'
  | .disableRx c', c => c ≤ c'
  | _, _ => True

def texts (fs : List Frame) : List (Option (List UInt8)) := fs.map Frame.payload

/-- The texts of a cycle: the housekeeping text with its number, and the reports. -/
def CycleTexts (k : ℕ) (reports : List (List UInt8)) (l : List (Option (List UInt8))) : Prop :=
  ∃ bat, l = (housekeeping bat (UInt16.ofNat k) :: reports).map some

/-- The device with what it has heard, while the thread has nothing to handle. -/
structure Settled (heard : ℕ → UInt8 → List UInt8) (s : Device) : Prop where
  log : UpTo Frame.cycle s.cycle s.frames
  unheard : ∀ k c, heard k c ≠ [] → k < s.cycle ∨ k = s.cycle ∧ s.program.main.opened c
  attends : Attends (carryInto Latest heard s.cycle) (heard s.cycle) s.program.teleinfo s.program.main
  waits : s.program.main.sending = false → epoch Frame.cycle s.frames s.cycle = [] ∧
    s.program.waiting = ((carryInto Latest heard s.cycle).cycleReports (heard s.cycle)).map some
  sends : s.program.main.sending = true →
    CycleTexts s.cycle ((carryInto Latest heard s.cycle).cycleReports (heard s.cycle))
      (texts (epoch Frame.cycle s.frames s.cycle) ++ s.program.waiting)
  drained : s.program.main = .hibernate → s.program.waiting = []
  past : ∀ k < s.cycle, CycleTexts k ((carryInto Latest heard k).cycleReports (heard k))
    (texts (epoch Frame.cycle s.frames k))

section
variable {d : Driver} {nodeId : UInt8} {h : ℕ → UInt8 → List UInt8} {s : Device}

theorem Settled.thread_ne (hs : Settled h s) : s.program.teleinfo.thread ≠ .handling := by
  have hattends := hs.attends
  unfold Attends at hattends
  split at hattends
  · exact hattends.thread_ne
  · exact hattends.thread_ne

/-- A step of `main` that sends nothing, within a cycle. -/
theorem Settled.of_main {t : Device} (hs : Settled h s) (hframes : t.frames = s.frames)
    (hcycle : t.cycle = s.cycle) (hwaiting : t.program.waiting = s.program.waiting)
    (hsending : t.program.main.sending = s.program.main.sending)
    (hopened : ∀ c, s.program.main.opened c → t.program.main.opened c)
    (hattends : Attends (carryInto Latest h s.cycle) (h s.cycle) t.program.teleinfo t.program.main)
    (hdrained : t.program.main = .hibernate → s.program.waiting = []) : Settled h t := by
  refine ⟨?_, ?_, ?_, ?_, ?_, ?_, ?_⟩
  · rw [hframes, hcycle]
    exact hs.log
  · rw [hcycle]
    exact HeardUpTo.mono hs.unheard hopened
  · rw [hcycle]
    exact hattends
  · rw [hframes, hcycle, hwaiting, hsending]
    exact hs.waits
  · rw [hframes, hcycle, hwaiting, hsending]
    exact hs.sends
  · rw [hwaiting]
    exact hdrained
  · rw [hframes, hcycle]
    exact hs.past

theorem Settled.heard_nil (hs : Settled h s) {c : UInt8} (hc : ¬ s.program.main.opened c) :
    h s.cycle c = [] := HeardUpTo.nil hs.unheard hc

theorem settled_enableRx (hs : Settled h s) (hkept : Kept s) {c : UInt8}
    (hmain : s.program.main = .enableRx c) (bat : Int32) :
    Settled h (s.mainStep d nodeId bat) := by
  have hc := hkept.paced.window c (.inl hmain)
  have hne (ptr : ℕ) : s.program.main ≠ .dataTx ptr := by simp [hmain]
  have hclean : Ascii.byte '\n' ∉ (carryInto Latest h s.cycle).line := carryInto_clean h s.cycle
  have htwo : h s.cycle 2 = [] := hs.heard_nil (by
    rw [hmain]
    rcases hc with rfl | rfl <;> simp [Statement.opened])
  have hself : h s.cycle c = [] := hs.heard_nil (by rw [hmain]; simp [Statement.opened])
  have hclosed : Teleinfo.Closed ((carryInto Latest h s.cycle).cycle (h s.cycle)) s.program.teleinfo := by
    have hattends := hs.attends
    rw [hmain] at hattends
    exact hattends
  have hreader := Carry.reader_of_nil hclean hc hself htwo
  rw [reopen_latest] at hreader
  rw [Device.mainStep_of_ne (by simp [hmain]) (by simp [hmain]) (by simp [hmain])]
  refine hs.of_main rfl rfl (waiting_mainStep hkept.handed hne bat) ?_ ?_ ?_ ?_
  · simp [mainStep, hmain, Statement.sending]
  · intro c' hc'
    rw [hmain] at hc'
    simp only [mainStep, hmain]
    exact UInt8.le_of_lt hc'
  · simp only [mainStep, hmain, Attends]
    rw [hreader]
    exact hclosed.enableRx c
  · simp [mainStep, hmain]

theorem settled_disableRx (hs : Settled h s) (hkept : Kept s) {c : UInt8}
    (hmain : s.program.main = .disableRx c) (bat : Int32) :
    Settled h (s.mainStep d nodeId bat) := by
  have hc := hkept.paced.window c (.inr hmain)
  have hne (ptr : ℕ) : s.program.main ≠ .dataTx ptr := by simp [hmain]
  have hlater : c = 1 → h s.cycle 2 = [] := by
    rintro rfl
    exact hs.heard_nil (by rw [hmain]; simp [Statement.opened])
  have hfollows : Teleinfo.Follows c ((carryInto Latest h s.cycle).reader (h s.cycle) c)
      s.program.teleinfo := by
    have hattends := hs.attends
    rw [hmain] at hattends
    exact hattends
  have hcycle := (Carry.cycle_of_open (carryInto_clean (σ := Latest) h s.cycle) hc hlater).1
  rw [reopen_latest, reopen_latest] at hcycle
  have hclosed := hfollows.disableRx
  rw [← hcycle] at hclosed
  rw [Device.mainStep_of_ne (by simp [hmain]) (by simp [hmain]) (by simp [hmain])]
  refine hs.of_main rfl rfl (waiting_mainStep hkept.handed hne bat) ?_ ?_ ?_ ?_
  · simp only [mainStep, hmain]
    split_ifs <;> rfl
  · intro c' hc'
    rw [hmain] at hc'
    simp only [mainStep, hmain]
    rcases hc with rfl | rfl
    · have hle : c'.toNat ≤ 1 := UInt8.le_iff_toNat_le.mp hc'
      exact UInt8.lt_iff_toNat_lt.mpr (Nat.lt_succ_of_le hle)
    · trivial
  · simp only [mainStep, hmain]
    split_ifs <;> exact hclosed
  · simp only [mainStep, hmain]
    split_ifs <;> simp

theorem settled_msgTryReceive (hs : Settled h s) (hkept : Kept s)
    (hmain : s.program.main = .msgTryReceive) (bat : Int32) :
    Settled h (s.mainStep d nodeId bat) := by
  have hne (ptr : ℕ) : s.program.main ≠ .dataTx ptr := by simp [hmain]
  have hattends := hs.attends
  rw [hmain] at hattends
  rw [Device.mainStep_of_ne (by simp [hmain]) (by simp [hmain]) (by simp [hmain])]
  refine hs.of_main rfl rfl (waiting_mainStep hkept.handed hne bat) ?_ ?_ ?_ ?_ <;>
    cases hqueue : s.program.msgQueue <;> simp only [mainStep, hmain, hqueue]
  · rfl
  · rfl
  · exact fun _ _ => trivial
  · exact fun _ _ => trivial
  · exact hattends
  · exact hattends
  · simp [Program.waiting, pending, hmain, hqueue]
  · simp

theorem settled_free (hs : Settled h s) (hkept : Kept s) {ptr : ℕ}
    (hmain : s.program.main = .free ptr) (bat : Int32) : Settled h (s.mainStep d nodeId bat) := by
  have hne (ptr : ℕ) : s.program.main ≠ .dataTx ptr := by simp [hmain]
  have hattends := hs.attends
  rw [hmain] at hattends
  rw [Device.mainStep_of_ne (by simp [hmain]) (by simp [hmain]) (by simp [hmain])]
  refine hs.of_main rfl rfl (waiting_mainStep hkept.handed hne bat) ?_ ?_ ?_ ?_ <;>
    simp only [mainStep, hmain]
  · rfl
  · exact fun _ _ => trivial
  · exact hattends
  · simp

/-- A step that sends a frame of the current cycle. -/
theorem Settled.of_sent {t : Device} {f : Frame} (hs : Settled h s) (hf : f.cycle = s.cycle)
    (hframes : t.frames = s.frames ++ [f]) (hcycle : t.cycle = s.cycle)
    (hsending : t.program.main.sending = true) (hmain : t.program.main ≠ .hibernate)
    (hopened : ∀ c, t.program.main.opened c)
    (hattends : Attends (carryInto Latest h s.cycle) (h s.cycle) t.program.teleinfo t.program.main)
    (htexts : CycleTexts s.cycle ((carryInto Latest h s.cycle).cycleReports (h s.cycle))
      (texts (epoch Frame.cycle s.frames s.cycle) ++ f.payload :: t.program.waiting)) :
    Settled h t := by
  have hself : epoch Frame.cycle (s.frames ++ [f]) s.cycle =
      epoch Frame.cycle s.frames s.cycle ++ [f] := by
    rw [← hf]
    exact epoch_append_self
  refine ⟨?_, ?_, ?_, ?_, ?_, ?_, ?_⟩
  · rw [hframes, hcycle]
    exact hs.log.append hf
  · rw [hcycle]
    exact HeardUpTo.mono hs.unheard fun c _ => hopened c
  · rw [hcycle]
    exact hattends
  · rw [hsending]
    exact fun hf => absurd hf.symm Bool.false_ne_true
  · rw [hframes, hcycle, hself, texts, List.map_append, List.append_assoc]
    exact fun _ => htexts
  · exact fun hh => absurd hh hmain
  · rw [hframes, hcycle]
    intro k hk
    rw [epoch_append_of_ne (by omega)]
    exact hs.past k hk

/-- While `main` waits for the modem, nothing is heard or sent. -/
theorem settled_waits (hs : Settled h s) (hwaits : s.Waits d) (bat : Int32) :
    Settled h (s.mainStep d nodeId bat) := by
  rw [Device.mainStep_waits hwaits]
  refine hs.of_main rfl rfl rfl rfl (fun _ => id) hs.attends fun hh => ?_
  exact absurd (hwaits.1.symm.trans hh) (by simp)

theorem settled_housekeeping (hs : Settled h s) (hkept : Kept s)
    (hmain : s.program.main = .housekeeping) (hwaits : ¬ s.Waits d) (bat : Int32) :
    Settled h (s.mainStep d nodeId bat) := by
  have hne (ptr : ℕ) : s.program.main ≠ .dataTx ptr := by simp [hmain]
  have hattends := hs.attends
  rw [hmain] at hattends
  obtain ⟨hempty, hreports⟩ := hs.waits (by rw [hmain]; rfl)
  have hwaiting := waiting_mainStep hkept.handed hne bat
  have hsent := (housekeeping_sendable bat s.program.loopCntr).2
  have hnext : (s.program.mainStep bat).main = .msgTryReceive ∧
      (s.program.mainStep bat).teleinfo = s.program.teleinfo := by simp [mainStep, hmain]
  rw [Device.mainStep_housekeeping hmain hwaits]
  refine hs.of_sent rfl rfl rfl ?_ ?_ ?_ ?_ ?_
  · rw [hnext.1]
    rfl
  · simp [hnext.1]
  · rw [hnext.1]
    exact fun _ => trivial
  · rw [hnext.1, hnext.2]
    exact hattends
  · refine ⟨bat, ?_⟩
    rw [hempty, hwaiting, hreports, ← hkept.counted, Device.frame, Option.map_some, hsent]
    rfl

theorem settled_dataTx (hs : Settled h s) (hkept : Kept s) {ptr : ℕ}
    (hmain : s.program.main = .dataTx ptr) (bat : Int32) :
    Settled h (s.mainStep d nodeId bat) := by
  have hpending : ptr ∈ s.program.pending := by simp [pending, hmain]
  obtain ⟨text, htext, hheap⟩ := hkept.handed.heap_eq hpending
  have hsent : (transmit text).payload = text := by
    rw [(tells_sendable s.cycle (.inl (hkept.labelled.reports text htext))).2]
  have hattends := hs.attends
  rw [hmain] at hattends
  have hsends := hs.sends (by rw [hmain]; rfl)
  rw [waiting_dataTx hmain bat] at hsends
  have hnext : (s.program.mainStep bat).main = .free ptr ∧
      (s.program.mainStep bat).teleinfo = s.program.teleinfo := by simp [mainStep, hmain]
  rw [Device.mainStep_dataTx hmain, hheap]
  refine hs.of_sent rfl rfl rfl ?_ ?_ ?_ ?_ ?_
  · rw [hnext.1]
    rfl
  · simp [hnext.1]
  · rw [hnext.1]
    exact fun _ => trivial
  · rw [hnext.1, hnext.2]
    exact hattends
  · rw [Device.frame, Option.map_some, hsent, ← hheap]
    exact hsends

/-- The end of a cycle. The next one starts with what this one leaves, and has heard nothing. -/
theorem Settled.next {t : Device} (hs : Settled h s) (hmain : s.program.main = .hibernate)
    (hframes : t.frames = s.frames) (hcycle : t.cycle = s.cycle + 1)
    (hwaiting : t.program.waiting = s.program.waiting)
    (hteleinfo : t.program.teleinfo = s.program.teleinfo) (hnext : t.program.main = .enableRx 1) :
    Settled h t := by
  have hattends := hs.attends
  rw [hmain] at hattends
  have hclosed : Teleinfo.Closed (carryInto Latest h (s.cycle + 1)) s.program.teleinfo := hattends
  have hsends := hs.sends (by rw [hmain]; rfl)
  have hdrained := hs.drained hmain
  have hlater := HeardUpTo.later hs.unheard (Nat.lt_succ_self s.cycle)
  obtain ⟨hsame, hreports⟩ := Carry.cycle_of_nil hclosed.clean (hlater 1) (hlater 2)
  rw [reopen_latest, reopen_latest] at hsame
  refine ⟨?_, ?_, ?_, ?_, ?_, ?_, ?_⟩
  · rw [hframes, hcycle]
    exact hs.log.mono (Nat.le_succ _)
  · rw [hcycle]
    exact HeardUpTo.next hs.unheard
  · rw [hcycle, hnext, hteleinfo, Attends, hsame]
    · exact hclosed
    · simp
  · rw [hframes, hcycle, hwaiting, hdrained, hreports]
    exact fun _ => ⟨hs.log.epoch_eq_nil (Nat.lt_succ_self _), rfl⟩
  · rw [hnext]
    exact fun hsending => absurd hsending Bool.false_ne_true
  · exact fun _ => hwaiting.trans hdrained
  · rw [hframes, hcycle]
    intro k hk
    rcases Nat.lt_succ_iff_lt_or_eq.mp hk with hk | rfl
    · exact hs.past k hk
    · rw [hdrained, List.append_nil] at hsends
      exact hsends

theorem settled_hibernate (hs : Settled h s) (hkept : Kept s)
    (hmain : s.program.main = .hibernate) (bat : Int32) :
    Settled h (s.mainStep d nodeId bat) := by
  have hne (ptr : ℕ) : s.program.main ≠ .dataTx ptr := by simp [hmain]
  have hwaiting := waiting_mainStep hkept.handed hne bat
  rw [Device.mainStep_hibernate hmain]
  refine hs.next hmain rfl rfl hwaiting ?_ ?_ <;> simp only [mainStep, hmain]

theorem settled_mainStep (hs : Settled h s) (hkept : Kept s) (bat : Int32) :
    Settled h (s.mainStep d nodeId bat) := by
  cases hmain : s.program.main with
  | enableRx c => exact settled_enableRx hs hkept hmain bat
  | disableRx c => exact settled_disableRx hs hkept hmain bat
  | housekeeping =>
    by_cases hwaits : s.Waits d
    · exact settled_waits hs hwaits bat
    · exact settled_housekeeping hs hkept hmain hwaits bat
  | msgTryReceive => exact settled_msgTryReceive hs hkept hmain bat
  | dataTx ptr => exact settled_dataTx hs hkept hmain bat
  | free ptr => exact settled_free hs hkept hmain bat
  | hibernate => exact settled_hibernate hs hkept hmain bat

/-- What is heard, with the byte of an event. -/
def hear (h : ℕ → UInt8 → List UInt8) (s : Device) (e : Program.Event) : ℕ → UInt8 → List UInt8 :=
  fun k c => h k c ++ hears s e k c

theorem hear_of_closed {data : UInt8} (hmain : ∀ c, s.program.main ≠ .disableRx c) :
    hear h s (.rx data) = h := by
  funext k c
  simp [hear, hears, hmain c]

/-- A byte in an open window. -/
theorem hear_of_open (data : UInt8) {c : UInt8} (hmain : s.program.main = .disableRx c) :
    HearsByte s.cycle c data h (hear h s (.rx data)) := by
  refine ⟨fun k hk => ?_, ?_, fun c' hc' => ?_⟩
  · funext c'
    simp [hear, hears, hk]
  · simp [hear, hears, hmain, Program.Event.byte]
  · simp [hear, hears, hmain, Ne.symm hc']

/-- A byte in an open window leaves a settled state, if the module follows the reader, and the
report that the reader completes, if there is one, waits. -/
theorem Settled.of_open {t : Device} {data c : UInt8} {l : List (List UInt8)} (hs : Settled h s)
    (hmain : s.program.main = .disableRx c) (hc : c = 1 ∨ c = 2) (hframes : t.frames = s.frames)
    (hcycle : t.cycle = s.cycle) (hnext : t.program.main = .disableRx c)
    (hfollows : Teleinfo.Follows c
      (((carryInto Latest h s.cycle).reader (h s.cycle) c).byte data) t.program.teleinfo)
    (hl : ((((carryInto Latest h s.cycle).reader (h s.cycle) c).byte data).result.1.map (report c)).toList =
      (((carryInto Latest h s.cycle).reader (h s.cycle) c).result.1.map (report c)).toList ++ l)
    (hwaiting : t.program.waiting = s.program.waiting ++ l.map some) :
    Settled (hear h s (.rx data)) t := by
  have hb := hear_of_open (h := h) data hmain
  have hlater : c = 1 → h s.cycle 2 = [] := by
    rintro rfl
    exact hs.heard_nil (by rw [hmain]; simp [Statement.opened])
  have hreports := hb.cycleReports_eq (σ := Latest) hc hlater hl
  obtain ⟨hempty, hwaits⟩ := hs.waits (by rw [hmain]; rfl)
  refine ⟨?_, ?_, ?_, ?_, ?_, ?_, ?_⟩
  · rw [hframes, hcycle]
    exact hs.log
  · rw [hcycle, hnext]
    have hunheard := hs.unheard
    rw [hmain] at hunheard
    exact hb.heardUpTo hunheard (UInt8.le_refl c)
  · rw [hcycle, hnext, Attends, hb.reader_eq hc]
    exact hfollows
  · rw [hframes, hcycle, hreports, hwaiting, hwaits, List.map_append]
    exact fun _ => ⟨hempty, rfl⟩
  · rw [hnext]
    exact fun hsending => absurd hsending Bool.false_ne_true
  · rw [hnext]
    exact fun hh => by simp at hh
  · rw [hframes, hcycle]
    intro k hk
    rw [hb.carryInto_eq hk.le, hb.cycles k hk.ne]
    exact hs.past k hk

theorem Settled.follows (hs : Settled h s) {c : UInt8} (hmain : s.program.main = .disableRx c) :
    Teleinfo.Follows c ((carryInto Latest h s.cycle).reader (h s.cycle) c) s.program.teleinfo := by
  have hattends := hs.attends
  rw [hmain] at hattends
  exact hattends

theorem Settled.closed (hs : Settled h s) (hmain : ∀ c, s.program.main ≠ .disableRx c) :
    Teleinfo.Closed ((carryInto Latest h s.cycle).cycle (h s.cycle)) s.program.teleinfo := by
  have hattends := hs.attends
  unfold Attends at hattends
  split at hattends
  · exact absurd (by assumption) (hmain _)
  · exact hattends

theorem settled_rx (hs : Settled h s) (hkept : Kept s) {data : UInt8}
    (hdata : ∀ c k, s.program.main = .disableRx c →
      (carryInto Latest h s.cycle).reader (h s.cycle) c = .reading k → data &&& 0x7F ≠ Ascii.byte '\n') :
    Settled (hear h s (.rx data)) (s.step d nodeId (.rx data)) := by
  by_cases hopen : ∃ c, s.program.main = .disableRx c
  · obtain ⟨c, hmain⟩ := hopen
    have hc := hkept.paced.window c (.inr hmain)
    have hc0 : c ≠ 0 := by rcases hc with rfl | rfl <;> decide
    have hb := fun k => hdata c k hmain
    refine hs.of_open (l := []) hmain hc rfl rfl hmain ((hs.follows hmain).rxCb hc0 hb) ?_ ?_
    · rw [Reader.byte_result hb, List.append_nil]
    · exact (List.append_nil _).symm
  · rw [not_exists] at hopen
    have hsame := (hs.closed hopen).rxCb data
    rw [hear_of_closed hopen]
    show Settled h { s with program := { s.program with teleinfo := s.program.teleinfo.rxCb data } }
    rw [hsame]
    exact hs

/-- A newline in an open window that still reads, and the round that handles it. -/
theorem settled_newline (hs : Settled h s) (hkept : Kept s) {data c : UInt8} {k : Carry Latest}
    (hmain : s.program.main = .disableRx c)
    (hreader : (carryInto Latest h s.cycle).reader (h s.cycle) c = .reading k)
    (hdata : data &&& 0x7F = Ascii.byte '\n')
    (hlen : s.program.teleinfo.rxBuf.data.length < uartBufsize) :
    Settled (hear h s (.rx data)) ((s.step d nodeId (.rx data)).step d nodeId .run) := by
  have hc := hkept.paced.window c (.inr hmain)
  have hc0 : c ≠ 0 := by rcases hc with rfl | rfl <;> decide
  have hkept' := kept_step d nodeId hkept (.rx data)
  have hfollows := hs.follows hmain
  rw [hreader] at hfollows
  obtain ⟨hnext, hout⟩ := hfollows.newline hc0 hdata hlen
  rw [← s.program.teleinfo.rxCb_outbox data] at hout
  obtain ⟨hteleinfo, hmain', -⟩ := teleinfoRun_eq hkept'.paced
  refine hs.of_open hmain hc rfl rfl (hmain'.trans hmain) ?_ ?_
    (waiting_teleinfoRun hkept'.handed hkept'.paced hout)
  · rw [hreader]
    show Teleinfo.Follows c _ (s.step d nodeId (.rx data)).program.teleinfoRun.teleinfo
    rw [hteleinfo]
    exact hnext
  · rw [hreader]
    rfl

end

/-- The device with what it has heard: settled, or with a newline that is handled next. -/
def Reached (d : Driver) (nodeId : UInt8) (h : ℕ → UInt8 → List UInt8) (s : Device) : Prop :=
  Settled h s ∨ ∃ h₀ s₀ data c k, Settled h₀ s₀ ∧ Kept s₀ ∧ s₀.program.main = .disableRx c ∧
    (carryInto Latest h₀ s₀.cycle).reader (h₀ s₀.cycle) c = .reading k ∧ data &&& 0x7F = Ascii.byte '\n' ∧
    h = hear h₀ s₀ (.rx data) ∧ s = s₀.step d nodeId (.rx data)

section
variable {d : Driver} {nodeId : UInt8} {h : ℕ → UInt8 → List UInt8} {s : Device}

/-- A newline in a window that still reads wakes the thread, and nothing else. -/
theorem rxCb_newline_of_reading {n : Teleinfo} {c : UInt8} {k : Carry Latest} {data : UInt8} (hc : c ≠ 0)
    (hf : Teleinfo.Follows c (.reading k) n) (hdata : data &&& 0x7F = Ascii.byte '\n') :
    n.rxCb data = { n with thread := .handling } := by
  have hthread : n.thread = .receiving := Teleinfo.Tracks.thread hf
  have hrx : n.rxTeleinfo = c := Teleinfo.Tracks.rx hf
  rw [Teleinfo.rxCb_newline (by rw [hrx]; exact hc) hdata, Teleinfo.msgSend, hthread]

theorem teleinfoRun_of_ne {s : Program} (hpaced : Paced s) (hne : s.teleinfo.thread ≠ .handling) :
    s.teleinfoRun = s := by
  have hproduces : s.teleinfo.produces = none := by
    rw [Teleinfo.produces, if_neg fun h => hne h.1]
  rw [teleinfoRun, if_neg (by simp [hpaced.unblocked]), hproduces, Teleinfo.run_of_ne hne]

theorem hear_of_byte_nil {e : Program.Event} (he : e.byte = []) : hear h s e = h := by
  funext k c
  simp [hear, hears, he]

theorem reached_step (hr : Reached d nodeId h s) (hkept : Kept s) {e : Program.Event}
    (hup : KeepsUp s e) : Reached d nodeId (hear h s e) (s.step d nodeId e) := by
  rcases hr with hs | ⟨h₀, s₀, data, c, k, hs, hkept₀, hmain, hreader, hdata, rfl, rfl⟩
  · cases e with
    | main bat =>
      rw [hear_of_byte_nil rfl]
      exact .inl (settled_mainStep hs hkept bat)
    | run =>
      have hstep : s.step d nodeId .run = { s with program := s.program.teleinfoRun } := rfl
      rw [hear_of_byte_nil rfl, hstep, teleinfoRun_of_ne hkept.paced hs.thread_ne]
      exact .inl hs
    | rx data =>
      by_cases hnl : ∃ c k, s.program.main = .disableRx c ∧
          (carryInto Latest h s.cycle).reader (h s.cycle) c = .reading k ∧ data &&& 0x7F = Ascii.byte '\n'
      · obtain ⟨c, k, hmain, hreader, hdata⟩ := hnl
        exact .inr ⟨h, s, data, c, k, hs, hkept, hmain, hreader, hdata, rfl, rfl⟩
      · refine .inl (settled_rx hs hkept fun c k hmain hreader hdata => hnl ?_)
        exact ⟨c, k, hmain, hreader, hdata⟩
  · have hc := hkept₀.paced.window c (.inr hmain)
    have hc0 : c ≠ 0 := by rcases hc with rfl | rfl <;> decide
    have hfollows := hs.follows hmain
    rw [hreader] at hfollows
    have hcb := rxCb_newline_of_reading hc0 hfollows hdata
    have hteleinfo : (s₀.step d nodeId (.rx data)).program.teleinfo =
        { s₀.program.teleinfo with thread := .handling } := hcb
    rw [KeepsUp, hteleinfo] at hup
    obtain ⟨rfl, hlen⟩ := hup rfl
    rw [hear_of_byte_nil rfl]
    exact .inl (settled_newline hs hkept₀ hmain hreader hdata hlen)

/-- In every state that is reached, the cycles that are over have sent what they heard. -/
theorem Reached.past (hr : Reached d nodeId h s) {k : ℕ} (hk : k < s.cycle) :
    CycleTexts k ((carryInto Latest h k).cycleReports (h k)) (texts (epoch Frame.cycle s.frames k)) := by
  rcases hr with hs | ⟨h₀, s₀, data, c, -, hs, -, hmain, -, -, rfl, rfl⟩
  · exact hs.past k hk
  · have hb := hear_of_open (h := h₀) data hmain
    replace hk : k < s₀.cycle := hk
    rw [hb.carryInto_eq hk.le, hb.cycles k hk.ne]
    exact hs.past k hk

theorem reached_run (hr : Reached d nodeId h s) (hkept : Kept s) {es : List Program.Event}
    (hup : Run.Along (Device.step d nodeId) KeepsUp s es) :
    Reached d nodeId (fun k c => h k c ++ heard d nodeId s es k c)
      (Run.run (Device.step d nodeId) s es) := by
  induction es generalizing h s with
  | nil =>
    have hsame : (fun k c => h k c ++ heard d nodeId s [] k c) = h := by
      funext k c
      exact List.append_nil _
    rw [hsame]
    exact hr
  | cons e es ih =>
    have hsplit : (fun k c => h k c ++ heard d nodeId s (e :: es) k c) =
        fun k c => hear h s e k c ++ heard d nodeId (s.step d nodeId e) es k c := by
      funext k c
      exact (List.append_assoc _ _ _).symm
    rw [hsplit]
    exact ih (reached_step hr hkept hup.1) (kept_step d nodeId hkept e) hup.2

theorem reached_start (boot : Radio) :
    Reached d nodeId (fun _ _ => []) (.start d nodeId boot) := by
  refine .inl ⟨upTo_nil, by simp, ?_, fun _ => ⟨rfl, ?_⟩, ?_, ?_, ?_⟩
  · exact Teleinfo.closed_init
  · rw [(Carry.cycle_of_nil List.not_mem_nil rfl rfl).2]
    rfl
  · exact fun hsending => absurd hsending Bool.false_ne_true
  · exact fun hh => Statement.noConfusion hh
  · exact fun k hk => absurd hk (Nat.not_lt_zero k)

end

section
variable (d : Driver) (nodeId : UInt8) (boot : Radio) {es : List Program.Event}
  (hup : Run.Along (Device.step d nodeId) KeepsUp (.start d nodeId boot) es)
include hup

theorem past_of_run {k : ℕ} (hk : k < (Run.run (Device.step d nodeId) (.start d nodeId boot) es).cycle) :
    let h := heard d nodeId (.start d nodeId boot) es
    CycleTexts k ((carryInto Latest h k).cycleReports (h k)) (texts (epoch Frame.cycle
      (Run.run (Device.step d nodeId) (.start d nodeId boot) es).frames k)) := by
  have hreached := reached_run (reached_start boot) (kept_start d nodeId boot) hup
  simp only [List.nil_append] at hreached
  exact hreached.past hk

end

/-- The node refines its purpose. In every run, in whatever order the bytes and the two threads
come while the thread keeps up, and where every packet is accepted, each cycle that is over has sent
the housekeeping text with its number, and then the reports that reading its first and its second
window line by line gives, when a window goes on where the windows before it have left off. -/
theorem cycles_send_what_they_hear {d : Driver} (haccepts : d.Accepts) (nodeId : UInt8)
    (boot : Radio) {es : List Program.Event}
    (hup : Run.Along (Device.step d nodeId) KeepsUp (.start d nodeId boot) es) :
    let s := Run.run (Device.step d nodeId) (.start d nodeId boot) es
    let h := heard d nodeId (.start d nodeId boot) es
    ∀ k < s.cycle, CycleTexts k ((carryInto Latest h k).cycleReports (h k))
      (texts (epoch Frame.cycle (sentFrames s.frames) k)) := by
  intro s h k hk
  rw [Device.sentFrames_run haccepts nodeId boot es]
  exact past_of_run d nodeId boot hup hk

/-- A whole cycle, with the bytes of each window, and no more than two reports to send. -/
def cycleEvents (w₁ w₂ : List UInt8) : List Program.Event :=
  .main 0 :: w₁.flatMap (fun b => [.rx b, .run]) ++ [.main 0, .main 0] ++
    w₂.flatMap (fun b => [.rx b, .run]) ++ [.main 0, .main 2661] ++ List.replicate 8 (.main 0)

/-- A cycle with both meters, the second of which begins with another label. -/
def exampleEvents : List Program.Event :=
  cycleEvents (Ascii.ascii "BASE 014038982 .\nPAPP 02340 *\nIINST 010 X\n")
    (Ascii.ascii "PAPP 00120 *\nIINST 001 X\nBASE 000000007 .\n")

theorem cycles_send_what_they_hear_example :
    let s := Run.run (Device.step .plain 0x25) (.start .plain 0x25 .offAtBoot) exampleEvents
    let h := heard .plain 0x25 (.start .plain 0x25 .offAtBoot) exampleEvents
    s.cycle = 1 ∧ CycleTexts 0 ((carryInto Latest h 0).cycleReports (h 0))
      (texts (epoch Frame.cycle (sentFrames s.frames) 0)) :=
  ⟨by decide +kernel,
    cycles_send_what_they_hear Driver.plain_accepts 0x25 .offAtBoot (by decide +kernel) 0
      (by decide +kernel)⟩

/-- While every window hears a whole sequence of its meter and every packet is accepted, each cycle
sends exactly the report of each meter behind its housekeeping text, made of the bytes of this meter's
own window and of no others. -/
theorem complete_windows_reported {d : Driver} (haccepts : d.Accepts) (nodeId : UInt8) (boot : Radio)
    {es : List Program.Event}
    (hup : Run.Along (Device.step d nodeId) KeepsUp (.start d nodeId boot) es) :
    let s := Run.run (Device.step d nodeId) (.start d nodeId boot) es
    let h := heard d nodeId (.start d nodeId boot) es
    ∀ k < s.cycle, (∀ j ≤ k, ∀ c, c = 1 ∨ c = 2 → windowReport c (h j c) ≠ none) →
      ∃ bat, texts (epoch Frame.cycle (sentFrames s.frames) k) =
        [some (housekeeping bat (UInt16.ofNat k)), windowReport 1 (h k 1), windowReport 2 (h k 2)] := by
  intro s h k hk hcomplete
  obtain ⟨bat, htexts⟩ := past_of_run d nodeId boot hup hk
  have hinto : carryInto Latest h k = .none :=
    carryInto_of_complete fun j hj c hc => listen_of_windowReport (hcomplete j hj.le c hc)
  have hone := hcomplete k le_rfl 1 (.inl rfl)
  have htwo := hcomplete k le_rfl 2 (.inr rfl)
  refine ⟨bat, ?_⟩
  rw [Device.sentFrames_run haccepts nodeId boot es, htexts]
  show (_ :: (carryInto Latest h k).cycleReports (h k)).map some = _
  rw [hinto, Carry.cycleReports, listen_complete (listen_of_windowReport hone), none_reports,
    none_reports]
  obtain ⟨r₁, hr₁⟩ := Option.ne_none_iff_exists'.mp hone
  obtain ⟨r₂, hr₂⟩ := Option.ne_none_iff_exists'.mp htwo
  rw [hr₁, hr₂]
  rfl

theorem complete_windows_reported_example :
    let s := Run.run (Device.step .plain 0x25) (.start .plain 0x25 .offAtBoot) exampleEvents
    let h := heard .plain 0x25 (.start .plain 0x25 .offAtBoot) exampleEvents
    ∃ bat, texts (epoch Frame.cycle (sentFrames s.frames) 0) =
      [some (housekeeping bat (UInt16.ofNat 0)), windowReport 1 (h 0 1), windowReport 2 (h 0 2)] := by
  refine complete_windows_reported Driver.plain_accepts 0x25 .offAtBoot (by decide +kernel) 0
    (by decide +kernel) ?_
  intro j hj c hc
  obtain rfl := Nat.le_zero.mp hj
  rcases hc with rfl | rfl <;> decide +kernel

end OflMotes.Node.NodeTeleinfo
