import OflMotes.Node.Handover
import OflMotes.Node.Radio

/-! `node-teleinfo` on the air: the program with its radio and the frames that it hands to the
driver. The meters are read with the radio off, and the radio sends with the meters off. -/
namespace OflMotes.Node.NodeTeleinfo

/-- Both threads, the radio, how often `radio_on` has come to its interrupt line, the number of
cycles behind, and the calls of `data_tx` with their frames. -/
structure Device where
  program : Program
  radio : Radio
  polls : ℕ
  cycle : ℕ
  frames : List Frame

namespace Device

/-- The frame that `data_tx` makes of a text; none where the buffer is not allocated. -/
def frame (s : Device) (d : Driver) (nodeId : UInt8) (text : Option (List UInt8)) : Frame where
  payload := text.map fun t => (transmit t).payload
  src := srcAddr nodeId
  dst := dstAddr
  result := d.txResult s.frames.length
  netif := s.radio.netif
  powerPort1 := s.program.teleinfo.powerPort1
  powerPort2 := s.program.teleinfo.powerPort2
  cycle := s.cycle

/-- `data_tx` -/
def dataTx (s : Device) (d : Driver) (nodeId : UInt8) (text : Option (List UInt8)) : Device :=
  { s with frames := s.frames ++ [s.frame d nodeId text] }

@[simp] theorem dataTx_cycle (s : Device) (d : Driver) (nodeId : UInt8) (text : Option (List UInt8)) :
    (s.dataTx d nodeId text).cycle = s.cycle := rfl

/-- `main` is in the loop of `radio_on`, with a radio that was off, and finds the interrupt line of
the modem high. -/
def Waits (d : Driver) (s : Device) : Prop :=
  s.program.main = .housekeeping ∧ d.netapiGet s.radio.netif = .off ∧ d.irqPin s.polls = true

instance (d : Driver) (s : Device) : Decidable (s.Waits d) := inferInstanceAs (Decidable (_ ∧ _ ∧ _))

section
variable (d : Driver) (nodeId : UInt8)

/-- `main` in front of its loop, behind `net_config`; the driver has set up the radio at boot. -/
def start (boot : Radio) : Device :=
  ⟨.start, { boot with netif := netConfig d nodeId boot.netif }, 0, 0, []⟩

/-- `radio_on`, where its loop ends: a radio that was off has seen the interrupt line low. -/
def wake (s : Device) : Device :=
  { s with
    radio := radioOn d nodeId s.radio
    polls := if d.netapiGet s.radio.netif = .off then s.polls + 1 else s.polls }

/-- A statement of `main`, with what it does to the radio. -/
def mainStep (s : Device) (bat : Int32) : Device :=
  let program := s.program.mainStep bat
  match s.program.main with
  | .housekeeping =>
    if s.Waits d then
      -- the modem has been taken out of its reset, and its interrupt line is polled again
      { s with radio := { s.radio with rstPin := true }, polls := s.polls + 1 }
    else
      let s := s.wake d nodeId
      { s.dataTx d nodeId (some (housekeeping bat s.program.loopCntr)) with program := program }
  | .dataTx ptr => { s.dataTx d nodeId (s.program.heap ptr) with program := program }
  | .hibernate => { s with program := program, radio := radioOff d s.radio, cycle := s.cycle + 1 }
  | .enableRx _ => { s with program := program }
  | .disableRx _ => { s with program := program }
  | .msgTryReceive => { s with program := program }
  | .free _ => { s with program := program }

def step (s : Device) : Program.Event → Device
  | .main bat => s.mainStep d nodeId bat
  | .rx data => { s with program := s.program.step (.rx data) }
  | .run => { s with program := s.program.step .run }

variable {d nodeId} {s : Device}

@[simp] theorem wake_cycle : (s.wake d nodeId).cycle = s.cycle := rfl

/-- A round of the loop in `radio_on`. -/
theorem mainStep_waits (h : s.Waits d) (bat : Int32) :
    s.mainStep d nodeId bat =
      { s with radio := { s.radio with rstPin := true }, polls := s.polls + 1 } := by
  unfold mainStep
  rw [h.1]
  exact if_pos h

/-- The other statements leave the radio alone. -/
theorem mainStep_of_ne (hhousekeeping : s.program.main ≠ .housekeeping)
    (hdataTx : ∀ ptr, s.program.main ≠ .dataTx ptr) (hhibernate : s.program.main ≠ .hibernate)
    (bat : Int32) : s.mainStep d nodeId bat = { s with program := s.program.mainStep bat } := by
  unfold mainStep
  cases hmain : s.program.main with
  | housekeeping => exact absurd hmain hhousekeeping
  | dataTx ptr => exact absurd hmain (hdataTx ptr)
  | hibernate => exact absurd hmain hhibernate
  | _ => rfl

theorem mainStep_housekeeping (hmain : s.program.main = .housekeeping) (hwaits : ¬ s.Waits d)
    (bat : Int32) :
    s.mainStep d nodeId bat =
      { (s.wake d nodeId).dataTx d nodeId (some (housekeeping bat s.program.loopCntr)) with
        program := s.program.mainStep bat } := by
  unfold mainStep
  rw [hmain]
  exact if_neg hwaits

theorem mainStep_dataTx {ptr : ℕ} (hmain : s.program.main = .dataTx ptr) (bat : Int32) :
    s.mainStep d nodeId bat =
      { s.dataTx d nodeId (s.program.heap ptr) with program := s.program.mainStep bat } := by
  unfold mainStep
  rw [hmain]

theorem mainStep_hibernate (hmain : s.program.main = .hibernate) (bat : Int32) :
    s.mainStep d nodeId bat = { s with
      program := s.program.mainStep bat
      radio := radioOff d s.radio
      cycle := s.cycle + 1 } := by
  unfold mainStep
  rw [hmain]

/-- A step makes at most one frame. -/
theorem step_frames (d : Driver) (nodeId : UInt8) (s : Device) (e : Program.Event) :
    (s.step d nodeId e).frames = s.frames ∨
      ∃ f, (s.step d nodeId e).frames = s.frames ++ [f] ∧ f.result = d.txResult s.frames.length := by
  cases e with
  | main bat =>
    show (s.mainStep d nodeId bat).frames = s.frames ∨ _
    cases hmain : s.program.main with
    | housekeeping =>
      by_cases hwaits : s.Waits d
      · rw [mainStep_waits hwaits]
        exact .inl rfl
      · rw [step, mainStep_housekeeping hmain hwaits]
        exact .inr ⟨_, rfl, rfl⟩
    | dataTx ptr =>
      rw [step, mainStep_dataTx hmain]
      exact .inr ⟨_, rfl, rfl⟩
    | hibernate =>
      rw [mainStep_hibernate hmain]
      exact .inl rfl
    | _ =>
      rw [mainStep_of_ne (by simp [hmain]) (by simp [hmain]) (by simp [hmain])]
      exact .inl rfl
  | rx data => exact .inl rfl
  | run => exact .inl rfl

/-- Where every packet is accepted, all the frames of a run leave the node. -/
theorem sentFrames_run {d : Driver} (haccepts : d.Accepts) (nodeId : UInt8) (boot : Radio)
    (es : List Program.Event) :
    let s := Run.run (Device.step d nodeId) (.start d nodeId boot) es
    sentFrames s.frames = s.frames :=
  haccepts.sentFrames_run (step_frames d nodeId) rfl es

/-- The radio takes no part in what the two threads do, but to let `main` wait. -/
theorem step_program (d : Driver) (nodeId : UInt8) (s : Device) (e : Program.Event) :
    (s.step d nodeId e).program = s.program.step e ∨
      s.Waits d ∧ (s.step d nodeId e).program = s.program := by
  cases e with
  | main bat =>
    by_cases hwaits : s.Waits d
    · refine .inr ⟨hwaits, ?_⟩
      rw [step, mainStep_waits hwaits]
    · refine .inl ?_
      unfold step mainStep
      cases hmain : s.program.main with
      | housekeeping => exact congrArg program (if_neg hwaits)
      | _ => rfl
  | rx data => exact .inl rfl
  | run => exact .inl rfl

end
end Device

/-- The meter whose window is open in front of a statement of `main`. -/
def Statement.window : Statement → UInt8
  | .disableRx c => c
  | _ => 0

/-- Exactly the meter whose window is open has power. -/
def Powered (s : Program) : Prop :=
  s.teleinfo.powerPort1 = (s.main.window == 1) ∧ s.teleinfo.powerPort2 = (s.main.window == 2)

section
variable {n : Teleinfo}

theorem msgReceive_ports (n : Teleinfo) :
    n.msgReceive.powerPort1 = n.powerPort1 ∧ n.msgReceive.powerPort2 = n.powerPort2 := by
  unfold Teleinfo.msgReceive
  split <;> exact ⟨rfl, rfl⟩

theorem rxCb_ports (n : Teleinfo) (data : UInt8) :
    (n.rxCb data).powerPort1 = n.powerPort1 ∧ (n.rxCb data).powerPort2 = n.powerPort2 := by
  by_cases h : n.rxTeleinfo ≠ 0 ∧ data &&& 0x7F ≠ Ascii.byte '\n' ∧ Ascii.byte ' ' ≤ data &&& 0x7F
  · rw [Teleinfo.rxCb_printable h.1 h.2.1 h.2.2]
    exact ⟨rfl, rfl⟩
  · obtain ⟨thread, q, hcb⟩ := Teleinfo.rxCb_of_not_stored h
    rw [hcb]
    exact ⟨rfl, rfl⟩

theorem run_ports (n : Teleinfo) :
    n.run.powerPort1 = n.powerPort1 ∧ n.run.powerPort2 = n.powerPort2 := by
  by_cases hthread : n.thread = .handling
  · by_cases hdone : (storeLine n.results (fillBuffer n.rxBuf.data)).state = allDone
    · rw [Teleinfo.run_complete hthread hdone]
      exact ⟨rfl, rfl⟩
    · rw [Teleinfo.run_incomplete hthread hdone]
      exact msgReceive_ports _
  · rw [Teleinfo.run_of_ne hthread]
    exact ⟨rfl, rfl⟩

theorem enableRx_ports {c : UInt8} (hc : c = 1 ∨ c = 2) :
    (n.enableRx c).powerPort1 = (c == 1) ∧ (n.enableRx c).powerPort2 = (c == 2) := by
  have hwake (m : Teleinfo) :
      (if m.thread = .sleeping then m.msgReceive else m).powerPort1 = m.powerPort1 ∧
        (if m.thread = .sleeping then m.msgReceive else m).powerPort2 = m.powerPort2 := by
    split_ifs
    · exact msgReceive_ports m
    · exact ⟨rfl, rfl⟩
  rcases hc with rfl | rfl
  · exact hwake { n with rxTeleinfo := 1, powerPort2 := false, powerPort1 := true }
  · exact hwake { n with rxTeleinfo := 2, powerPort1 := false, powerPort2 := true }

end

/-- While `main` has room for reports, its thread is not blocked by them. -/
theorem teleinfoRun_eq {s : Program} (h : Paced s) :
    s.teleinfoRun.teleinfo = s.teleinfo.run ∧ s.teleinfoRun.main = s.main ∧
      s.teleinfoRun.loopCntr = s.loopCntr := by
  have hqueue := h.queue_length
  cases hproduces : s.teleinfo.produces with
  | none =>
    have hrun : s.teleinfoRun = { s with teleinfo := s.teleinfo.run } := by
      simp only [Program.teleinfoRun, h.unblocked, hproduces, Bool.false_eq_true, if_false]
    rw [hrun]
    exact ⟨rfl, rfl, rfl⟩
  | some text =>
    rw [Program.teleinfoRun_some h.unblocked hproduces (by omega)]
    exact ⟨rfl, rfl, rfl⟩

theorem powered_step {s : Program} (h : Powered s) (hpaced : Paced s) (e : Program.Event) :
    Powered (s.step e) := by
  cases e with
  | main bat =>
    show Powered (s.mainStep bat)
    unfold Powered at h ⊢
    cases hmain : s.main with
    | enableRx c =>
      simp only [Program.mainStep, hmain]
      exact enableRx_ports (hpaced.window c (.inl hmain))
    | disableRx c =>
      have hnext : (if c + 1 < 3 then Statement.enableRx (c + 1) else .housekeeping).window = 0 := by
        split_ifs <;> rfl
      simp only [Program.mainStep, hmain, hnext]
      exact ⟨rfl, rfl⟩
    | msgTryReceive =>
      rw [hmain] at h
      cases hqueue : s.msgQueue <;> simp only [Program.mainStep, hmain, hqueue] <;> exact h
    | housekeeping => rw [hmain] at h; simp only [Program.mainStep, hmain]; exact h
    | dataTx ptr => rw [hmain] at h; simp only [Program.mainStep, hmain]; exact h
    | free ptr => rw [hmain] at h; simp only [Program.mainStep, hmain]; exact h
    | hibernate => rw [hmain] at h; simp only [Program.mainStep, hmain]; exact h
  | rx data =>
    have hports := rxCb_ports s.teleinfo data
    exact ⟨hports.1.trans h.1, hports.2.trans h.2⟩
  | run =>
    show Powered s.teleinfoRun
    have hports := run_ports s.teleinfo
    obtain ⟨hteleinfo, hmain, -⟩ := teleinfoRun_eq hpaced
    rw [Powered, hteleinfo, hmain]
    exact ⟨hports.1.trans h.1, hports.2.trans h.2⟩

/-- A report with the label of a meter, or with none. -/
def IsReport (text : List UInt8) : Prop := ∃ c m, c ≤ 2 ∧ text = report c m

/-- Only the two meters are ever selected, so that every report has one digit for a label. -/
structure Labelled (n : Teleinfo) : Prop where
  selected : n.rxTeleinfo ≤ 2
  reports : ∀ text ∈ n.outbox, IsReport text

theorem rxCb_rxTeleinfo (n : Teleinfo) (data : UInt8) : (n.rxCb data).rxTeleinfo = n.rxTeleinfo := by
  by_cases h : n.rxTeleinfo ≠ 0 ∧ data &&& 0x7F ≠ Ascii.byte '\n' ∧ Ascii.byte ' ' ≤ data &&& 0x7F
  · rw [Teleinfo.rxCb_printable h.1 h.2.1 h.2.2]
  · obtain ⟨thread, q, hcb⟩ := Teleinfo.rxCb_of_not_stored h
    rw [hcb]

theorem Labelled.run {n : Teleinfo} (h : Labelled n) : Labelled n.run := by
  by_cases hthread : n.thread = .handling
  · by_cases hdone : (storeLine n.results (fillBuffer n.rxBuf.data)).state = allDone
    · rw [Teleinfo.run_complete hthread hdone]
      refine ⟨UInt8.zero_le, fun text htext => ?_⟩
      rcases List.mem_append.mp htext with htext | htext
      · exact h.reports text htext
      · exact ⟨_, _, h.selected, List.mem_singleton.mp htext⟩
    · rw [Teleinfo.run_incomplete hthread hdone]
      exact ⟨by simpa using h.selected, by simpa using h.reports⟩
  · rw [Teleinfo.run_of_ne hthread]
    exact h

theorem labelled_step {s : Program} (h : Labelled s.teleinfo) (hpaced : Paced s)
    (e : Program.Event) : Labelled (s.step e).teleinfo := by
  cases e with
  | main bat =>
    show Labelled (s.mainStep bat).teleinfo
    cases hmain : s.main with
    | enableRx c =>
      have hc : c ≤ 2 := by rcases hpaced.window c (.inl hmain) with rfl | rfl <;> decide
      simp only [Program.mainStep, hmain]
      exact ⟨by simpa using hc, by simpa using h.reports⟩
    | disableRx c =>
      simp only [Program.mainStep, hmain]
      exact ⟨UInt8.zero_le, h.reports⟩
    | msgTryReceive =>
      cases hqueue : s.msgQueue <;> simp only [Program.mainStep, hmain, hqueue] <;> exact h
    | housekeeping => simp only [Program.mainStep, hmain]; exact h
    | dataTx ptr => simp only [Program.mainStep, hmain]; exact h
    | free ptr => simp only [Program.mainStep, hmain]; exact h
    | hibernate => simp only [Program.mainStep, hmain]; exact h
  | rx data =>
    refine ⟨?_, ?_⟩
    · exact (rxCb_rxTeleinfo s.teleinfo data).symm ▸ h.selected
    · exact (s.teleinfo.rxCb_outbox data).symm ▸ h.reports
  | run =>
    show Labelled s.teleinfoRun.teleinfo
    rw [(teleinfoRun_eq hpaced).1]
    exact h.run

/-- The buffer that is sent next holds a report. -/
theorem Handed.heap_eq {s : Program} (h : Handed s) {ptr : ℕ} (hptr : ptr ∈ s.pending) :
    ∃ text ∈ s.teleinfo.outbox, s.heap ptr = some text := by
  have hmem : (ptr, s.heap ptr) ∈ s.produced.map (Prod.map id some) := by
    rw [← h.handed]
    exact List.mem_append_right _ (List.mem_map_of_mem hptr)
  obtain ⟨x, hx, hxp⟩ := List.mem_map.mp hmem
  refine ⟨x.2, ?_, (congrArg Prod.snd hxp).symm⟩
  rw [← h.texts]
  exact List.mem_map_of_mem hx

structure Kept (s : Device) : Prop where
  handed : Handed s.program
  paced : Paced s.program
  powered : Powered s.program
  labelled : Labelled s.program.teleinfo
  counted : s.program.loopCntr = UInt16.ofNat s.cycle

section
variable (d : Driver) (nodeId : UInt8)

theorem kept_start (boot : Radio) : Kept (.start d nodeId boot) where
  handed := handed_start
  paced := paced_start
  powered := ⟨rfl, rfl⟩
  labelled := ⟨UInt8.zero_le, by simp [Device.start, Program.start, Teleinfo.init]⟩
  counted := rfl

theorem handed_paced_step {s : Program} (hhanded : Handed s) (hpaced : Paced s) (e : Program.Event) :
    Handed (s.step e) ∧ Paced (s.step e) := by
  have hqueue := hpaced.queue_length
  cases e with
  | main bat => exact ⟨handed_mainStep hhanded bat, paced_mainStep hpaced bat⟩
  | rx data => exact ⟨handed_rx hhanded data, paced_rx hpaced data⟩
  | run => exact ⟨handed_teleinfoRun hhanded hpaced.unblocked (by omega), paced_teleinfoRun hpaced⟩

/-- Only the end of a cycle counts. -/
theorem counted_step {s : Device} (h : s.program.loopCntr = UInt16.ofNat s.cycle)
    (hpaced : Paced s.program) (e : Program.Event) :
    (s.step d nodeId e).program.loopCntr = UInt16.ofNat (s.step d nodeId e).cycle := by
  cases e with
  | main bat =>
    show (s.mainStep d nodeId bat).program.loopCntr = UInt16.ofNat (s.mainStep d nodeId bat).cycle
    cases hmain : s.program.main with
    | housekeeping =>
      by_cases hwaits : s.Waits d
      · rw [Device.mainStep_waits hwaits]
        exact h
      · rw [Device.mainStep_housekeeping hmain hwaits]
        simpa [Program.mainStep, hmain] using h
    | dataTx ptr =>
      rw [Device.mainStep_dataTx hmain]
      simpa [Program.mainStep, hmain] using h
    | hibernate =>
      rw [Device.mainStep_hibernate hmain]
      simp [Program.mainStep, hmain, h]
    | msgTryReceive =>
      rw [Device.mainStep_of_ne (by simp [hmain]) (by simp [hmain]) (by simp [hmain])]
      cases hqueue : s.program.msgQueue <;> simpa [Program.mainStep, hmain, hqueue] using h
    | _ =>
      rw [Device.mainStep_of_ne (by simp [hmain]) (by simp [hmain]) (by simp [hmain])]
      simpa [Program.mainStep, hmain] using h
  | rx data => exact h
  | run => exact (teleinfoRun_eq hpaced).2.2.trans h

theorem kept_step {s : Device} (h : Kept s) (e : Program.Event) : Kept (s.step d nodeId e) := by
  have hcounted := counted_step d nodeId h.counted h.paced e
  rcases s.step_program d nodeId e with hprogram | ⟨-, hprogram⟩
  · obtain ⟨hhanded, hpaced⟩ := handed_paced_step h.handed h.paced e
    have hpowered := powered_step h.powered h.paced e
    have hlabelled := labelled_step h.labelled h.paced e
    rw [← hprogram] at hhanded hpaced hpowered hlabelled
    exact ⟨hhanded, hpaced, hpowered, hlabelled, hcounted⟩
  · exact ⟨hprogram ▸ h.handed, hprogram ▸ h.paced, hprogram ▸ h.powered, hprogram ▸ h.labelled,
      hcounted⟩

end

/-- `main` is between `radio_on` and `radio_off`. -/
def Statement.sending : Statement → Bool
  | .enableRx _ => false
  | .disableRx _ => false
  | .housekeeping => false
  | .msgTryReceive => true
  | .dataTx _ => true
  | .free _ => true
  | .hibernate => true

/-- The radio is on and configured. In the first cycle a radio that was on at boot keeps its
acknowledgements; in all others they are disabled. -/
structure Ready (d : Driver) (nodeId : UInt8) (boot : Netif) (cycle : ℕ) (n : Netif) : Prop where
  joined : Joined nodeId n
  power : n.txPower = d.outputPowerMax
  state : n.state ≠ .off
  acks : if cycle = 0 ∧ boot.state ≠ .off then n.autoack = boot.autoack ∧ n.ackReq = boot.ackReq
    else n.autoack = false ∧ n.ackReq = false

/-- The modem is off, and held in reset up to `radio_on`. -/
def Asleep (s : Device) : Prop :=
  s.radio.netif.state = .off ∧ (s.program.main ≠ .housekeeping → s.radio.rstPin = false)

/-- What a frame of a cycle tells: a report of a meter, or the number of the cycle. -/
def Tells (cycle : ℕ) (text : List UInt8) : Prop :=
  IsReport text ∨ ∃ bat, text = housekeeping bat (UInt16.ofNat cycle)

/-- A frame as it must be: a text that the radio can send whole, from a configured radio that is
on, while both meters are without power. -/
structure Proper (d : Driver) (nodeId : UInt8) (boot : Netif) (f : Frame) : Prop where
  payload : ∃ text, f.payload = some text ∧ text.length ≤ 45 ∧ Tells f.cycle text
  addresses : f.src = srcAddr nodeId ∧ f.dst = dstAddr
  result : ∃ n, f.result = d.txResult n
  ready : Ready d nodeId boot f.cycle f.netif
  meters : f.powerPort1 = false ∧ f.powerPort2 = false

/-- Where the radio stands in front of a statement of `main`. -/
structure Switched (d : Driver) (nodeId : UInt8) (boot : Netif) (s : Device) : Prop where
  awake : s.program.main.sending = true → Ready d nodeId boot s.cycle s.radio.netif
  asleep : s.program.main.sending = false →
    s.cycle = 0 ∧ s.radio.netif = netConfig d nodeId boot ∨ 0 < s.cycle ∧ Asleep s
  frames : ∀ f ∈ s.frames, Proper d nodeId boot f

theorem Statement.window_of_sending {m : Statement} (h : m.sending = true) : m.window = 0 := by
  cases m <;> first | rfl | contradiction

theorem tells_sendable (cycle : ℕ) {text : List UInt8} (h : Tells cycle text) : Sendable text := by
  rcases h with ⟨c, m, hc, rfl⟩ | ⟨bat, rfl⟩
  · exact report_sendable hc m
  · exact housekeeping_sendable bat _

section
variable {d : Driver} {nodeId : UInt8} {boot : Netif} {s : Device}

/-- `data_tx` with a radio that is ready and without an open window. -/
theorem frames_dataTx (hframes : ∀ f ∈ s.frames, Proper d nodeId boot f)
    (hready : Ready d nodeId boot s.cycle s.radio.netif) (hpowered : Powered s.program)
    (hwindow : s.program.main.window = 0) {text : List UInt8} (htells : Tells s.cycle text) :
    ∀ f ∈ (s.dataTx d nodeId (some text)).frames, Proper d nodeId boot f := by
  intro f hf
  rcases List.mem_append.mp hf with hf | hf
  · exact hframes f hf
  · obtain rfl := List.mem_singleton.mp hf
    obtain ⟨hlen, htransmit⟩ := tells_sendable _ htells
    obtain ⟨hport1, hport2⟩ := hpowered
    rw [hwindow] at hport1 hport2
    refine ⟨⟨text, ?_, hlen, htells⟩, ⟨rfl, rfl⟩, ⟨_, rfl⟩, hready, hport1, hport2⟩
    rw [Device.frame, Option.map_some, htransmit]

/-- A step that changes neither the radio nor the cycle, and stays within a window or within the
radio's time. -/
theorem Switched.of_same {t : Device} (h : Switched d nodeId boot s) (hradio : t.radio = s.radio)
    (hcycle : t.cycle = s.cycle) (hsending : t.program.main.sending = s.program.main.sending)
    (hhousekeeping : s.program.main = .housekeeping → t.program.main = .housekeeping)
    (hframes : ∀ f ∈ t.frames, Proper d nodeId boot f) : Switched d nodeId boot t := by
  refine ⟨?_, ?_, hframes⟩
  · rw [hsending, hcycle, hradio]
    exact h.awake
  · rw [hsending, hcycle]
    intro hs
    rcases h.asleep hs with ⟨hzero, hconfig⟩ | ⟨hpos, hoff, hreset⟩
    · exact .inl ⟨hzero, hradio ▸ hconfig⟩
    · exact .inr ⟨hpos, hradio ▸ hoff, fun hne => hradio ▸ hreset fun h => hne (hhousekeeping h)⟩

end

section
variable {d : Driver} (hd : d.Works) (nodeId : UInt8) {boot : Netif}
include hd

/-- `radio_on` makes the radio ready, in the first cycle as in all others. -/
theorem ready_radioOn {r : Radio} {cycle : ℕ}
    (h : cycle = 0 ∧ r.netif = netConfig d nodeId boot ∨ 0 < cycle ∧ r.netif.state = .off) :
    Ready d nodeId boot cycle (radioOn d nodeId r).netif := by
  rcases h with ⟨rfl, hr⟩ | ⟨hcycle, hoff⟩
  · have hstate : r.netif.state = boot.state := by rw [hr, netConfig_eq hd]
    by_cases hoff : r.netif.state = .off
    · rw [radioOn, radioOnWith_off hd nodeId true hoff]
      refine ⟨⟨rfl, rfl, rfl⟩, rfl, by simp, ?_⟩
      rw [if_neg (by simp [← hstate, hoff])]
      exact ⟨rfl, rfl⟩
    · rw [radioOn, radioOnWith_of_ne hd nodeId true hoff]
      refine ⟨hr ▸ joined_netConfig hd nodeId _, by rw [hr, netConfig_eq hd], hoff, ?_⟩
      rw [if_pos ⟨rfl, by rw [← hstate]; exact hoff⟩, hr, netConfig_eq hd]
      exact ⟨rfl, rfl⟩
  · rw [radioOn, radioOnWith_off hd nodeId true hoff]
    refine ⟨⟨rfl, rfl, rfl⟩, rfl, by simp, ?_⟩
    rw [if_neg (by omega)]
    exact ⟨rfl, rfl⟩

/-- `radio_on`, with the loop in which it waits, and the housekeeping frame behind it. -/
theorem switched_housekeeping {s : Device} (h : Switched d nodeId boot s) (hkept : Kept s)
    (hmain : s.program.main = .housekeeping) (bat : Int32) :
    Switched d nodeId boot (s.mainStep d nodeId bat) := by
  have hasleep := h.asleep (by rw [hmain]; rfl)
  by_cases hwaits : s.Waits d
  · rw [Device.mainStep_waits hwaits]
    refine ⟨fun hs => ?_, fun _ => ?_, h.frames⟩
    · exact absurd hs (by rw [hmain]; exact Bool.false_ne_true)
    · rcases hasleep with hconfig | ⟨hpos, hoff, -⟩
      · exact .inl hconfig
      · exact .inr ⟨hpos, hoff, fun hne => absurd hmain hne⟩
  · have hready := ready_radioOn hd nodeId (hasleep.imp_right (And.imp_right And.left))
    have hnext := Program.main_housekeeping bat hmain
    rw [Device.mainStep_housekeeping hmain hwaits]
    refine ⟨fun _ => hready, fun hs => ?_, ?_⟩
    · rw [hnext] at hs
      contradiction
    · have hwindow : (s.wake d nodeId).program.main.window = 0 := by
        show s.program.main.window = 0
        rw [hmain]
        rfl
      have htells : Tells s.cycle (housekeeping bat s.program.loopCntr) :=
        .inr ⟨bat, by rw [hkept.counted]⟩
      exact frames_dataTx (s := s.wake d nodeId) h.frames hready hkept.powered hwindow htells

theorem switched_mainStep {s : Device} (h : Switched d nodeId boot s) (hkept : Kept s) (bat : Int32) :
    Switched d nodeId boot (s.mainStep d nodeId bat) := by
  cases hmain : s.program.main with
  | enableRx c =>
    rw [Device.mainStep_of_ne (by simp [hmain]) (by simp [hmain]) (by simp [hmain])]
    refine h.of_same rfl rfl ?_ (by simp [hmain]) h.frames
    simp [Program.mainStep, hmain, Statement.sending]
  | disableRx c =>
    have hnext : (if c + 1 < 3 then Statement.enableRx (c + 1) else .housekeeping).sending = false := by
      split_ifs <;> rfl
    rw [Device.mainStep_of_ne (by simp [hmain]) (by simp [hmain]) (by simp [hmain])]
    refine h.of_same rfl rfl ?_ (by simp [hmain]) h.frames
    simp only [Program.mainStep, hmain, hnext]
    rfl
  | housekeeping => exact switched_housekeeping hd nodeId h hkept hmain bat
  | msgTryReceive =>
    rw [Device.mainStep_of_ne (by simp [hmain]) (by simp [hmain]) (by simp [hmain])]
    refine h.of_same rfl rfl ?_ (by simp [hmain]) h.frames
    cases hqueue : s.program.msgQueue <;> simp [Program.mainStep, hmain, hqueue, Statement.sending]
  | dataTx ptr =>
    have hready := h.awake (by rw [hmain]; rfl)
    have hpending : ptr ∈ s.program.pending := by simp [Program.pending, hmain]
    obtain ⟨text, htext, hheap⟩ := hkept.handed.heap_eq hpending
    rw [Device.mainStep_dataTx hmain, hheap]
    refine h.of_same rfl rfl ?_ (by simp [hmain]) ?_
    · simp [Program.mainStep, hmain, Statement.sending]
    · exact frames_dataTx h.frames hready hkept.powered (by rw [hmain]; rfl)
        (.inl (hkept.labelled.reports text htext))
  | free ptr =>
    rw [Device.mainStep_of_ne (by simp [hmain]) (by simp [hmain]) (by simp [hmain])]
    refine h.of_same rfl rfl ?_ (by simp [hmain]) h.frames
    simp [Program.mainStep, hmain, Statement.sending]
  | hibernate =>
    have hnext := Program.main_hibernate bat hmain
    rw [Device.mainStep_hibernate hmain]
    refine ⟨fun hs => ?_, fun _ => ?_, h.frames⟩
    · rw [hnext] at hs
      contradiction
    · exact .inr ⟨Nat.succ_pos _, radioOff_state hd s.radio, fun _ => rfl⟩

theorem switched_step {s : Device} (h : Switched d nodeId boot s) (hkept : Kept s)
    (e : Program.Event) : Switched d nodeId boot (s.step d nodeId e) := by
  cases e with
  | main bat => exact switched_mainStep hd nodeId h hkept bat
  | rx data => exact h.of_same rfl rfl rfl id h.frames
  | run =>
    have hmain := (teleinfoRun_eq hkept.paced).2.1
    exact h.of_same rfl rfl (congrArg Statement.sending hmain) hmain.trans h.frames

end

theorem switched_start (d : Driver) (nodeId : UInt8) (boot : Radio) :
    Switched d nodeId boot.netif (.start d nodeId boot) where
  awake h := by contradiction
  asleep _ := .inl ⟨rfl, rfl⟩
  frames := by simp [Device.start]

section
variable {d : Driver} (hd : d.Works) (nodeId : UInt8)
include hd

theorem switched_run (boot : Radio) (es : List Program.Event) :
    let s := Run.run (Device.step d nodeId) (.start d nodeId boot) es
    Switched d nodeId boot.netif s ∧ Kept s := by
  apply Run.run_invariant (I := fun s => Switched d nodeId boot.netif s ∧ Kept s)
  · rintro s e ⟨h, hkept⟩
    exact ⟨switched_step hd nodeId h hkept e, kept_step d nodeId hkept e⟩
  · exact ⟨switched_start d nodeId boot, kept_start d nodeId boot⟩

/-- Meters and radio share the supply in turns, however the two threads and the interrupt
interleave. A meter has power exactly during its own window. From the second cycle on the modem is
off up to `radio_on`, and in reset up to the end of the windows. Every frame that `main` hands to
`data_tx` is a report, or the number of its cycle, in at most 45 bytes; it carries the addresses of
the node and of the gateway, and meets an interface that is on, configured as `net_config` has it,
while both meters are without power. -/
theorem radio_and_meters_take_turns (boot : Radio) (es : List Program.Event) :
    let s := Run.run (Device.step d nodeId) (.start d nodeId boot) es
    (s.program.teleinfo.powerPort1 = (s.program.main.window == 1) ∧
      s.program.teleinfo.powerPort2 = (s.program.main.window == 2)) ∧
    (s.program.main.sending = false → 0 < s.cycle → Asleep s) ∧
    (s.program.main.sending = true → Ready d nodeId boot.netif s.cycle s.radio.netif ∧
      s.program.teleinfo.powerPort1 = false ∧ s.program.teleinfo.powerPort2 = false) ∧
    ∀ f ∈ s.frames, Proper d nodeId boot.netif f := by
  intro s
  obtain ⟨h, hkept⟩ : Switched d nodeId boot.netif s ∧ Kept s := switched_run hd nodeId boot es
  obtain ⟨hport1, hport2⟩ := hkept.powered
  refine ⟨⟨hport1, hport2⟩, fun hs hcycle => ?_, fun hs => ?_, h.frames⟩
  · exact ((h.asleep hs).resolve_left fun h => by omega).2
  · rw [Statement.window_of_sending hs] at hport1 hport2
    exact ⟨h.awake hs, hport1, hport2⟩

end

/-- A first cycle with a radio that is off at boot, and a second that has polled the interrupt
line and waits. -/
theorem radio_and_meters_take_turns_off :
    let s := Run.run (Device.step .plain 0x25) (.start .plain 0x25 .offAtBoot)
      (List.replicate 12 (.main 2661))
    s.program.main = .housekeeping ∧ s.polls = 2 ∧ s.cycle = 1 ∧ s.frames.length = 1 ∧ Asleep s ∧
      ∀ f ∈ s.frames, Proper .plain 0x25 Radio.offAtBoot.netif f :=
  have h := radio_and_meters_take_turns Driver.plain_works 0x25 .offAtBoot
    (List.replicate 12 (.main 2661))
  ⟨by decide +kernel, by decide +kernel, by decide +kernel, by decide +kernel,
    h.2.1 (by decide +kernel) (by decide +kernel), h.2.2.2⟩

end OflMotes.Node.NodeTeleinfo
