import OflMotes.Lib.Run
import OflMotes.Node.Messages
import OflMotes.Node.MoteTeleinfo
import OflMotes.Node.Radio

/-! `mote-teleinfo` on the air: its two threads with the network, the radio, the power of the meters
and the periodic frame. In contrast to the newer program the thread that reads the meters transmits
itself, whatever `main` is about at the time. -/
namespace OflMotes.Node.MoteTeleinfo

/-- What `main` does next: a statement on the variables of the threads, or one of its others. -/
inductive Position
  | mote
  | network
  | radioTx
  | device
  | gpioSet (c : UInt8)
  | gpioClear (c : UInt8)
  | radioOff
  deriving DecidableEq

/-- The position behind a statement on the variables of the threads. -/
def Statement.next : Statement → Position
  | .uartInit => .network
  | .threadCreate => .radioTx
  | .papp c => .gpioSet c
  | .poweroff c => .gpioClear c
  | _ => .mote

/-- The report that the thread transmits when it goes on. -/
def Mote.sends (n : Mote) : Option (List UInt8) :=
  match n.processor with
  | .handling =>
    let (line, _) := n.rxBuf.get uartBufsize
    let results := storeLine n.results (fillBuffer line)
    if complete results then some (report n.curPitinfo results) else none
  | _ => none

/-- Both threads, the network interface, the outputs that power the meters, the counter of the
cycles, their true number, and the calls of `data_tx` with their frames. -/
structure Device where
  mote : Mote
  position : Position
  netif : Netif
  loopCntr : UInt8
  port1 : Bool
  port2 : Bool
  cycle : ℕ
  frames : List Frame

namespace Device

/-- The frame that `data_tx` makes of a text. -/
def frame (s : Device) (d : Driver) (nodeId : UInt8) (text : List UInt8) : Frame where
  payload := some (transmit text).payload
  src := srcAddr nodeId
  dst := dstAddr
  result := d.txResult s.frames.length
  netif := s.netif
  powerPort1 := s.port1
  powerPort2 := s.port2
  cycle := s.cycle

/-- `data_tx` -/
def dataTx (s : Device) (d : Driver) (nodeId : UInt8) (text : List UInt8) : Device :=
  { s with frames := s.frames ++ [s.frame d nodeId text] }

/-- `gpio_set` and `gpio_clear` on the output of a meter. -/
def setPort (s : Device) (c : UInt8) (on : Bool) : Device :=
  if c = 1 then { s with port1 := on } else { s with port2 := on }

section
variable (d : Driver) (nodeId : UInt8)

/-- At power-up; the driver has set up the radio. -/
def powerUp (boot : Netif) : Device := ⟨.powerUp, .mote, boot, 0, false, false, 0, []⟩

/-- A statement of `main`. -/
def mainStep (s : Device) (bat : Int32) : Device :=
  match s.position with
  | .mote => { s with mote := s.mote.mainStep, position := s.mote.main.next }
  | .network => { s with netif := prepareAll d nodeId s.netif, position := .mote }
  | .radioTx => { s with netif := d.netapiSet s.netif (.state .tx), position := .device }
  | .device =>
    let s := if s.loopCntr % 5 = 0 then s.dataTx d nodeId (deviceText bat) else s
    { s with position := .mote }
  | .gpioSet c => { s.setPort c true with position := .mote }
  | .gpioClear c => { s.setPort c false with position := if c = 1 then .mote else .radioOff }
  | .radioOff => { s with
      netif := d.netapiSet s.netif (.state .off)
      loopCntr := s.loopCntr + 1
      cycle := s.cycle + 1
      position := .radioTx }

/-- What can happen: a statement of `main`, for which the battery has this voltage, or a step of the
interrupt or of the thread. -/
inductive Event
  | main (bat : Int32)
  | rx (data : UInt8)
  | process
  | notified
  deriving DecidableEq

def step (s : Device) : Event → Device
  | .main bat => s.mainStep d nodeId bat
  | .rx data => { s with mote := s.mote.rxCb data }
  | .process =>
    let t := match s.mote.sends with
      | some text => s.dataTx d nodeId text
      | none => s
    { t with mote := s.mote.process }
  | .notified => { s with mote := s.mote.notified }

end
end Device

section
variable {n : Mote}

theorem sends_of_ne (h : n.processor ≠ .handling) : n.sends = none := by
  unfold Mote.sends
  split
  · contradiction
  · rfl

theorem sends_handling (h : n.processor = .handling) :
    n.sends = if complete (storeLine n.results (fillBuffer n.rxBuf.data)) then
      some (report n.curPitinfo (storeLine n.results (fillBuffer n.rxBuf.data))) else none := by
  simp only [Mote.sends, h, Ring.get_cap]

/-- It is what the thread's own record says. -/
theorem process_transmitted (n : Mote) :
    n.process.transmitted = n.transmitted ++ n.sends.toList := by
  by_cases h : n.processor = .handling
  · rw [sends_handling h]
    cases hdone : complete (storeLine n.results (fillBuffer n.rxBuf.data)) with
    | true =>
      rw [Mote.process_complete h hdone]
      rfl
    | false =>
      obtain ⟨processor, q, hprocess⟩ := Mote.process_incomplete h hdone
      rw [hprocess]
      exact (List.append_nil _).symm
  · rw [Mote.process_of_ne h, sends_of_ne h]
    exact (List.append_nil _).symm

end

/-- The two meters. -/
def IsMeter (c : UInt8) : Prop := c = 1 ∨ c = 2

/-- The statements on the variables of the threads that are next at each position. -/
inductive Aligned : Position → Statement → Prop
  | uartInit : Aligned .mote .uartInit
  | network : Aligned .network .threadCreate
  | threadCreate : Aligned .mote .threadCreate
  | radioTx : Aligned .radioTx (.curPitinfo 1)
  | device : Aligned .device (.curPitinfo 1)
  | curPitinfo {c} (hc : IsMeter c) : Aligned .mote (.curPitinfo c)
  | base {c} (hc : IsMeter c) : Aligned .mote (.base c)
  | iinst {c} (hc : IsMeter c) : Aligned .mote (.iinst c)
  | papp {c} (hc : IsMeter c) : Aligned .mote (.papp c)
  | gpioSet {c} (hc : IsMeter c) : Aligned (.gpioSet c) (.poweron c)
  | poweron {c} (hc : IsMeter c) : Aligned .mote (.poweron c)
  | poweroff {c} (hc : IsMeter c) : Aligned .mote (.poweroff c)
  | gpioClear {c} (hc : IsMeter c) : Aligned (.gpioClear c) (.curPitinfo (if c = 1 then 2 else 1))
  | radioOff : Aligned .radioOff (.curPitinfo 1)

/-- The next statement on the variables of the threads. -/
def Statement.after : Statement → Statement
  | .uartInit => .threadCreate
  | .threadCreate => .curPitinfo 1
  | .curPitinfo c => .base c
  | .base c => .iinst c
  | .iinst c => .papp c
  | .papp c => .poweron c
  | .poweron c => .poweroff c
  | .poweroff c => .curPitinfo (if c = 1 then 2 else 1)

theorem mainStep_main (n : Mote) : n.mainStep.main = n.main.after := by
  unfold Mote.mainStep
  cases n.main <;> rfl

theorem Aligned.after {m : Statement} (h : Aligned .mote m) : Aligned m.next m.after := by
  cases h with
  | uartInit => exact .network
  | threadCreate => exact .radioTx
  | curPitinfo hc => exact .base hc
  | base hc => exact .iinst hc
  | iinst hc => exact .papp hc
  | papp hc => exact .gpioSet hc
  | poweron hc => exact .poweroff hc
  | poweroff hc => exact .gpioClear hc

/-- The statement on the variables of the threads that comes behind one of the others. -/
def Position.behind : Position → Statement
  | .network => .threadCreate
  | .gpioSet c => .poweron c
  | .gpioClear c => .curPitinfo (if c = 1 then 2 else 1)
  | _ => .curPitinfo 1

theorem Aligned.main_eq {p : Position} {m : Statement} (h : Aligned p m) (hp : p ≠ .mote) :
    m = p.behind := by
  cases h with
  | network => rfl
  | radioTx => rfl
  | device => rfl
  | gpioSet hc => rfl
  | gpioClear hc => rfl
  | radioOff => rfl
  | _ => exact absurd rfl hp

/-- The meter whose output is switched, and the first elsewhere. -/
def Position.port : Position → UInt8
  | .gpioSet c => c
  | .gpioClear c => c
  | _ => 1

theorem Aligned.isMeter {p : Position} {m : Statement} (h : Aligned p m) : IsMeter p.port := by
  cases h with
  | gpioSet hc => exact hc
  | gpioClear hc => exact hc
  | _ => exact .inl rfl

/-- The meter that has power there. -/
def power : Position → Statement → UInt8
  | .gpioClear c, _ => c
  | .mote, .poweron c => c
  | .mote, .poweroff c => c
  | _, _ => 0

/-- The network has been set up there. -/
def prepared : Position → Statement → Bool
  | .mote, .uartInit => false
  | .network, _ => false
  | _, _ => true

/-- The radio has been switched on there. -/
def sending : Position → Statement → Bool
  | .mote, .uartInit => false
  | .network, _ => false
  | .mote, .threadCreate => false
  | .radioTx, _ => false
  | _, _ => true

theorem power_after (m : Statement) : power m.next m.after = power .mote m := by cases m <;> rfl

theorem sending_after {m : Statement} (h : sending .mote m = true) :
    sending m.next m.after = true := by
  cases m with
  | uartInit => contradiction
  | threadCreate => contradiction
  | _ => rfl

/-- A frame as it must be: the periodic text, in a cycle whose number the counter can divide, with
the radio on and no meter powered, or a report of a meter, at any time. -/
structure Proper (nodeId : UInt8) (f : Frame) : Prop where
  addresses : f.src = srcAddr nodeId ∧ f.dst = dstAddr
  joined : Joined nodeId f.netif
  meters : ¬ (f.powerPort1 = true ∧ f.powerPort2 = true)
  payload : (∃ bat, f.payload = some (deviceText bat) ∧ f.cycle % 256 % 5 = 0 ∧ f.netif.state = .tx ∧
      f.powerPort1 = false ∧ f.powerPort2 = false) ∨
    ∃ c m, c ≤ 2 ∧ f.payload = some (report c m)

/-- What holds in every state reached; of the radio, where its driver works. -/
structure Kept (d : Driver) (nodeId : UInt8) (s : Device) : Prop where
  aligned : Aligned s.position s.mote.main
  ports : s.port1 = (power s.position s.mote.main == 1) ∧ s.port2 = (power s.position s.mote.main == 2)
  counted : s.loopCntr = UInt8.ofNat s.cycle
  selected : s.mote.curPitinfo ≤ 2
  absent : prepared s.position s.mote.main = false → s.mote.processor = .absent
  joined : d.Works → d.uartInit = true → prepared s.position s.mote.main = true →
    Joined nodeId s.netif
  awake : d.Works → sending s.position s.mote.main = true → s.netif.state = .tx
  asleep : d.Works → s.position = .radioTx → 0 < s.cycle → s.netif.state = .off
  first : sending s.position s.mote.main = false → s.position = .radioTx ∨ s.cycle = 0
  frames : d.Works → d.uartInit = true → ∀ f ∈ s.frames, Proper nodeId f

section
variable {d : Driver} {nodeId : UInt8} {s : Device}

theorem Kept.main_eq (h : Kept d nodeId s) {p : Position} (hposition : s.position = p)
    (hp : p ≠ .mote) : s.mote.main = p.behind := by
  subst hposition
  exact h.aligned.main_eq hp

/-- A step of the threads, or one of `main` on their variables. -/
theorem Kept.of_mote (h : Kept d nodeId s) {mote : Mote} {position : Position}
    (haligned : Aligned position mote.main)
    (hpower : power position mote.main = power s.position s.mote.main)
    (hselected : mote.curPitinfo ≤ 2)
    (habsent : prepared position mote.main = false → mote.processor = .absent)
    (hprepared : prepared position mote.main = true → prepared s.position s.mote.main = true)
    (hsending : sending position mote.main = true → sending s.position s.mote.main = true)
    (hasleep : position = .radioTx → s.position = .radioTx ∨ s.cycle = 0)
    (hfirst : sending position mote.main = false → position = .radioTx ∨ s.cycle = 0) :
    Kept d nodeId { s with mote := mote, position := position } where
  aligned := haligned
  ports := by
    show s.port1 = (power position mote.main == 1) ∧ s.port2 = (power position mote.main == 2)
    rw [hpower]
    exact h.ports
  counted := h.counted
  selected := hselected
  absent := habsent
  joined hd huart hp := h.joined hd huart (hprepared hp)
  awake hd hs := h.awake hd (hsending hs)
  asleep hd hposition hcycle := by
    rcases hasleep hposition with hp | hzero
    · exact h.asleep hd hp hcycle
    · exact absurd hzero (Nat.ne_of_gt hcycle)
  first := hfirst
  frames := h.frames

theorem prepared_of_sending {p : Position} {m : Statement} (h : sending p m = true) :
    prepared p m = true := by
  cases p <;> cases m <;> first | rfl | contradiction

theorem sending_radioTx (m : Statement) : sending .radioTx m = false := by cases m <;> rfl

/-- A step behind the switch of the radio. -/
theorem Kept.of_sending (h : Kept d nodeId s) {mote : Mote} {position : Position}
    (hs : sending s.position s.mote.main = true) (hnext : sending position mote.main = true)
    (haligned : Aligned position mote.main)
    (hpower : power position mote.main = power s.position s.mote.main)
    (hselected : mote.curPitinfo ≤ 2) : Kept d nodeId { s with mote := mote, position := position } := by
  refine h.of_mote haligned hpower hselected ?_ (fun _ => prepared_of_sending hs) (fun _ => hs) ?_ ?_
  · rw [prepared_of_sending hnext]
    exact fun hp => absurd hp.symm Bool.false_ne_true
  · rintro rfl
    rw [sending_radioTx] at hnext
    contradiction
  · rw [hnext]
    exact fun hp => absurd hp.symm Bool.false_ne_true

/-- A step of the threads. -/
theorem Kept.of_threads (h : Kept d nodeId s) {mote : Mote} (hmain : mote.main = s.mote.main)
    (hselected : mote.curPitinfo ≤ 2)
    (habsent : s.mote.processor = .absent → mote.processor = .absent) :
    Kept d nodeId { s with mote := mote } := by
  refine h.of_mote ?_ ?_ hselected ?_ ?_ ?_ .inl ?_ <;> rw [hmain]
  · exact h.aligned
  · exact fun hp => habsent (h.absent hp)
  · exact id
  · exact id
  · exact h.first

/-- Only a meter is selected. -/
theorem selected_mainStep {n : Mote} (haligned : Aligned .mote n.main) (h : n.curPitinfo ≤ 2) :
    n.mainStep.curPitinfo ≤ 2 := by
  generalize hmain : n.main = main at haligned
  cases haligned with
  | curPitinfo hc =>
    simp only [Mote.mainStep, hmain]
    rcases hc with rfl | rfl <;> decide
  | _ =>
    simp only [Mote.mainStep, hmain]
    exact h

section
variable (h : Kept d nodeId s) (hposition : s.position = .mote)
include h hposition

/-- The thread that reads does not exist yet. -/
theorem kept_uartInit (hmain : s.mote.main = .uartInit) :
    Kept d nodeId { s with mote := s.mote.mainStep, position := .network } := by
  have habsent := h.absent (by rw [hposition, hmain]; rfl)
  have hzero := (h.first (by rw [hposition, hmain]; rfl)).resolve_left (by rw [hposition]; decide)
  refine h.of_mote ?_ ?_ ?_ ?_ ?_ ?_ ?_ ?_ <;> simp only [Mote.mainStep, hmain, hposition]
  · exact .network
  · rfl
  · exact h.selected
  · exact fun _ => habsent
  · exact fun hp => absurd hp Bool.false_ne_true
  · exact fun hs => absurd hs Bool.false_ne_true
  · exact fun hp => Position.noConfusion hp
  · exact fun _ => .inr hzero

theorem kept_threadCreate (hmain : s.mote.main = .threadCreate) :
    Kept d nodeId { s with mote := s.mote.mainStep, position := .radioTx } := by
  have hzero := (h.first (by rw [hposition, hmain]; rfl)).resolve_left (by rw [hposition]; decide)
  refine h.of_mote ?_ ?_ ?_ ?_ ?_ ?_ ?_ ?_ <;> simp only [Mote.mainStep, hmain, hposition]
  · exact .radioTx
  · rfl
  · exact h.selected
  · exact fun hp => absurd hp.symm Bool.false_ne_true
  · exact fun _ => rfl
  · exact fun hs => absurd hs Bool.false_ne_true
  · exact fun _ => .inr hzero
  · exact fun _ => .inl trivial

theorem kept_mote :
    Kept d nodeId { s with mote := s.mote.mainStep, position := s.mote.main.next } := by
  have haligned := h.aligned
  rw [hposition] at haligned
  have hselected := selected_mainStep haligned h.selected
  have hsent (hs : sending .mote s.mote.main = true) :
      Kept d nodeId { s with mote := s.mote.mainStep, position := s.mote.main.next } := by
    refine h.of_sending ?_ ?_ ?_ ?_ hselected
    · rw [hposition]
      exact hs
    · rw [mainStep_main]
      exact sending_after hs
    · rw [mainStep_main]
      exact haligned.after
    · rw [mainStep_main, hposition]
      exact power_after _
  cases hmain : s.mote.main with
  | uartInit => exact kept_uartInit h hposition hmain
  | threadCreate => exact kept_threadCreate h hposition hmain
  | _ =>
    rw [hmain] at hsent
    exact hsent rfl

end

theorem Joined.setState {n : Netif} (h : Joined nodeId n) (state : NetoptState) :
    Joined nodeId { n with state := state } := ⟨h.channel, h.nid, h.address⟩

theorem kept_network (h : Kept d nodeId s) (hposition : s.position = .network) :
    Kept d nodeId { s with netif := prepareAll d nodeId s.netif, position := .mote } := by
  have hmain : s.mote.main = .threadCreate := h.main_eq hposition (by decide)
  have hports := h.ports
  have hfirst := h.first (by rw [hposition]; rfl)
  rw [hposition, hmain] at hports
  rw [hposition] at hfirst
  refine ⟨?_, ?_, h.counted, h.selected, ?_, ?_, ?_, ?_, ?_, h.frames⟩ <;> simp only [hmain]
  · exact .threadCreate
  · exact hports
  · exact fun hp => absurd hp.symm Bool.false_ne_true
  · intro hd huart _
    rw [prepareAll_eq hd nodeId huart]
    exact ⟨rfl, rfl, rfl⟩
  · exact fun _ hs => absurd hs Bool.false_ne_true
  · exact fun _ hp => Position.noConfusion hp
  · exact fun _ => .inr (hfirst.resolve_left (by decide))

theorem kept_radioTx (h : Kept d nodeId s) (hposition : s.position = .radioTx) :
    Kept d nodeId { s with netif := d.netapiSet s.netif (.state .tx), position := .device } := by
  have hset (hd : d.Works) : d.netapiSet s.netif (.state .tx) = { s.netif with state := .tx } :=
    hd.set _ _ (by simp)
  have hmain : s.mote.main = .curPitinfo 1 := h.main_eq hposition (by decide)
  have hports := h.ports
  have hjoined := h.joined
  rw [hposition, hmain] at hports hjoined
  refine ⟨?_, ?_, h.counted, h.selected, ?_, ?_, ?_, ?_, ?_, h.frames⟩ <;> simp only [hmain]
  · exact .device
  · exact hports
  · exact fun hp => absurd hp.symm Bool.false_ne_true
  · intro hd huart _
    rw [hset hd]
    exact Joined.setState (hjoined hd huart rfl) .tx
  · intro hd _
    rw [hset hd]
  · exact fun _ hp => Position.noConfusion hp
  · exact fun hs => absurd hs.symm Bool.false_ne_true

/-- The counter divides as the number of the cycle does, until it wraps around. -/
theorem loopCntr_mod (k : ℕ) : UInt8.ofNat k % 5 = 0 ↔ k % 256 % 5 = 0 := by
  rw [← UInt8.toNat_inj, UInt8.toNat_mod, UInt8.toNat_ofNat']
  rfl

/-- A frame that is sent while `main` stands where it is. -/
theorem Kept.dataTx (h : Kept d nodeId s) {text : List UInt8}
    (hproper : d.Works → d.uartInit = true → Proper nodeId (s.frame d nodeId text)) :
    Kept d nodeId (s.dataTx d nodeId text) where
  aligned := h.aligned
  ports := h.ports
  counted := h.counted
  selected := h.selected
  absent := h.absent
  joined := h.joined
  awake := h.awake
  asleep := h.asleep
  first := h.first
  frames hd huart f hf := by
    rcases List.mem_append.mp hf with hf | hf
    · exact h.frames hd huart f hf
    · rw [List.mem_singleton.mp hf]
      exact hproper hd huart

theorem transmit_deviceText (bat : Int32) : (transmit (deviceText bat)).payload = deviceText bat := by
  have hfits := (deviceText_fits bat).2.2.1
  rw [transmit, OflMotes.Node.dataTx, hfits, List.take_left]

theorem transmit_report {c : UInt8} (hc : c ≤ 2) (m : Meter) :
    (transmit (report c m)).payload = report c m := by
  have hlen := reportText_length_of_le hc m
  have hsend := sendable_of_length_le (zero_notMem_reportText c m) (by omega)
  rw [report, hsend.2]

theorem kept_device (h : Kept d nodeId s) (hposition : s.position = .device) (bat : Int32) :
    Kept d nodeId (s.mainStep d nodeId bat) := by
  have hports := h.ports
  have hsending : sending s.position s.mote.main = true := by rw [hposition]; rfl
  have hnext {t : Device} (ht : Kept d nodeId t) (hp : t.position = .device) :
      Kept d nodeId { t with position := .mote } := by
    have hm : t.mote.main = .curPitinfo 1 := ht.main_eq hp (by decide)
    refine ht.of_sending ?_ ?_ ?_ ?_ ht.selected
    · rw [hp]
      rfl
    · rw [hm]
      rfl
    · rw [hm]
      exact .curPitinfo (.inl rfl)
    · rw [hp, hm]
      rfl
  rw [Device.mainStep, hposition]
  dsimp only
  rw [hposition] at hports
  have hpower : power .device s.mote.main = 0 := rfl
  rw [hpower] at hports
  split_ifs with hdivides
  · refine hnext (h.dataTx fun hd huart => ?_) hposition
    refine ⟨⟨rfl, rfl⟩, h.joined hd huart (prepared_of_sending hsending), ?_, .inl ?_⟩
    · rintro ⟨hport, -⟩
      have hoff : s.port1 = false := hports.1
      exact absurd (hoff.symm.trans hport) Bool.false_ne_true
    · refine ⟨bat, congrArg some (transmit_deviceText bat), ?_, h.awake hd hsending, hports⟩
      rw [h.counted] at hdivides
      exact (loopCntr_mod s.cycle).mp hdivides
  · exact hnext h hposition

/-- A step of `main` that switches the output of a meter, behind the switch of the radio. -/
theorem Kept.of_port (h : Kept d nodeId s) {position : Position} (port1 port2 : Bool)
    (hs : sending s.position s.mote.main = true) (hnext : sending position s.mote.main = true)
    (haligned : Aligned position s.mote.main)
    (hports : port1 = (power position s.mote.main == 1) ∧ port2 = (power position s.mote.main == 2)) :
    Kept d nodeId { s with position := position, port1 := port1, port2 := port2 } where
  aligned := haligned
  ports := hports
  counted := h.counted
  selected := h.selected
  absent hp := absurd ((prepared_of_sending hnext).symm.trans hp) (by decide)
  joined hd huart _ := h.joined hd huart (prepared_of_sending hs)
  awake hd _ := h.awake hd hs
  asleep _ hp := by
    have hradio : position = .radioTx := hp
    rw [hradio, sending_radioTx] at hnext
    contradiction
  first hn := absurd (hnext.symm.trans hn) (by decide)
  frames := h.frames

theorem kept_gpioSet (h : Kept d nodeId s) {c : UInt8} (hposition : s.position = .gpioSet c) :
    Kept d nodeId { s.setPort c true with position := .mote } := by
  have hmain : s.mote.main = .poweron c := h.main_eq hposition (by simp)
  have hs : sending s.position s.mote.main = true := by rw [hposition]; rfl
  have haligned := h.aligned
  have hports := h.ports
  rw [hposition, hmain] at haligned hports
  have hc := haligned.isMeter
  have hset (port1 port2 : Bool) (hp : port1 = (c == 1) ∧ port2 = (c == 2)) :
      Kept d nodeId { s with position := .mote, port1 := port1, port2 := port2 } := by
    refine h.of_port port1 port2 hs ?_ ?_ ?_ <;> rw [hmain]
    · rfl
    · exact .poweron hc
    · exact hp
  rcases hc with rfl | rfl
  · exact hset true s.port2 ⟨rfl, hports.2⟩
  · exact hset s.port1 true ⟨hports.1, rfl⟩

theorem kept_gpioClear (h : Kept d nodeId s) {c : UInt8} (hposition : s.position = .gpioClear c) :
    Kept d nodeId { s.setPort c false with position := if c = 1 then .mote else .radioOff } := by
  have hmain : s.mote.main = .curPitinfo (if c = 1 then 2 else 1) := h.main_eq hposition (by simp)
  have hs : sending s.position s.mote.main = true := by rw [hposition]; rfl
  have haligned := h.aligned
  have hports := h.ports
  rw [hposition] at haligned hports
  rcases haligned.isMeter with rfl | rfl
  · exact h.of_port false s.port2 hs (by rw [hmain]; rfl)
      (by rw [hmain]; exact .curPitinfo (.inr rfl)) (by rw [hmain]; exact ⟨rfl, hports.2⟩)
  · exact h.of_port s.port1 false hs (by rw [hmain]; rfl)
      (by rw [hmain]; exact .radioOff) (by rw [hmain]; exact ⟨hports.1, rfl⟩)

theorem kept_radioOff (h : Kept d nodeId s) (hposition : s.position = .radioOff) :
    Kept d nodeId { s with
      netif := d.netapiSet s.netif (.state .off)
      loopCntr := s.loopCntr + 1
      cycle := s.cycle + 1
      position := .radioTx } := by
  have hset (hd : d.Works) : d.netapiSet s.netif (.state .off) = { s.netif with state := .off } :=
    hd.set _ _ (by simp)
  have hmain : s.mote.main = .curPitinfo 1 := h.main_eq hposition (by decide)
  have hports := h.ports
  have hjoined := h.joined
  rw [hposition, hmain] at hports hjoined
  refine ⟨?_, ?_, ?_, h.selected, ?_, ?_, ?_, ?_, ?_, h.frames⟩ <;> simp only [hmain]
  · exact .radioTx
  · exact hports
  · rw [h.counted]
    simp
  · exact fun hp => absurd hp.symm Bool.false_ne_true
  · intro hd huart _
    rw [hset hd]
    exact Joined.setState (hjoined hd huart rfl) .off
  · exact fun _ hs => absurd hs Bool.false_ne_true
  · intro hd _ _
    rw [hset hd]
  · exact fun _ => .inl trivial

theorem kept_mainStep (h : Kept d nodeId s) (bat : Int32) :
    Kept d nodeId (s.mainStep d nodeId bat) := by
  cases hposition : s.position with
  | device => exact kept_device h hposition bat
  | mote => simpa only [Device.mainStep, hposition] using kept_mote h hposition
  | network => simpa only [Device.mainStep, hposition] using kept_network h hposition
  | radioTx => simpa only [Device.mainStep, hposition] using kept_radioTx h hposition
  | gpioSet c => simpa only [Device.mainStep, hposition] using kept_gpioSet h hposition
  | gpioClear c => simpa only [Device.mainStep, hposition] using kept_gpioClear h hposition
  | radioOff => simpa only [Device.mainStep, hposition] using kept_radioOff h hposition

/-- The thread transmits only reports of the meter that is selected. -/
theorem exists_of_sends {n : Mote} {text : List UInt8} (h : n.sends = some text) :
    n.processor = .handling ∧ ∃ m, text = report n.curPitinfo m := by
  by_cases hthread : n.processor = .handling
  · rw [sends_handling hthread] at h
    split_ifs at h
    exact ⟨hthread, _, (Option.some.inj h).symm⟩
  · rw [sends_of_ne hthread] at h
    contradiction

theorem not_both_powered (h : Kept d nodeId s) : ¬ (s.port1 = true ∧ s.port2 = true) := by
  rw [h.ports.1, h.ports.2]
  rintro ⟨hone, htwo⟩
  have heq := (eq_of_beq hone).symm.trans (eq_of_beq htwo)
  exact absurd heq (by decide)

theorem proper_report (hd : d.Works) (huart : d.uartInit = true) (h : Kept d nodeId s)
    {text : List UInt8} (hsends : s.mote.sends = some text) :
    Proper nodeId (s.frame d nodeId text) := by
  obtain ⟨hthread, m, rfl⟩ := exists_of_sends hsends
  have hprepared : prepared s.position s.mote.main = true := by
    by_contra hno
    have habsent := h.absent (Bool.eq_false_of_not_eq_true hno)
    rw [hthread] at habsent
    contradiction
  exact ⟨⟨rfl, rfl⟩, h.joined hd huart hprepared, not_both_powered h,
    .inr ⟨_, m, h.selected, congrArg some (transmit_report h.selected m)⟩⟩

theorem rxCb_main (n : Mote) (data : UInt8) :
    (n.rxCb data).main = n.main ∧ (n.rxCb data).curPitinfo = n.curPitinfo := by
  rcases n.rxCb_eq data with ⟨-, h⟩ | ⟨processor, q, h⟩ <;> rw [h] <;> exact ⟨rfl, rfl⟩

theorem process_main (n : Mote) :
    n.process.main = n.main ∧ n.process.curPitinfo = n.curPitinfo := by
  by_cases hthread : n.processor = .handling
  · cases hdone : complete (storeLine n.results (fillBuffer n.rxBuf.data)) with
    | true => rw [Mote.process_complete hthread hdone]; exact ⟨rfl, rfl⟩
    | false =>
      obtain ⟨processor, q, h⟩ := Mote.process_incomplete hthread hdone
      rw [h]
      exact ⟨rfl, rfl⟩
  · rw [Mote.process_of_ne hthread]
    exact ⟨rfl, rfl⟩

theorem notified_main (n : Mote) :
    n.notified.main = n.main ∧ n.notified.curPitinfo = n.curPitinfo := by
  by_cases hthread : n.processor = .notifying
  · obtain ⟨processor, q, h⟩ := Mote.notified_notifying hthread
    rw [h]
    exact ⟨rfl, rfl⟩
  · rw [Mote.notified_of_ne hthread]
    exact ⟨rfl, rfl⟩

/-- A thread that does not exist does nothing, and no message reaches it. -/
theorem absent_rxCb {n : Mote} (h : n.processor = .absent) (data : UInt8) :
    (n.rxCb data).processor = .absent := by
  have hsend : n.msgSend = n := by
    unfold Mote.msgSend
    rw [h]
  unfold Mote.rxCb
  rw [hsend]
  dsimp only
  split_ifs <;> exact h

theorem kept_step (h : Kept d nodeId s) (e : Device.Event) :
    Kept d nodeId (s.step d nodeId e) := by
  cases e with
  | main bat => exact kept_mainStep h bat
  | rx data =>
    obtain ⟨hmain, hselected⟩ := rxCb_main s.mote data
    exact h.of_threads hmain (hselected ▸ h.selected) fun habsent => absent_rxCb habsent data
  | process =>
    obtain ⟨hmain, hselected⟩ := process_main s.mote
    have habsent (hp : s.mote.processor = .absent) : s.mote.process.processor = .absent := by
      rw [Mote.process_of_ne (by rw [hp]; decide)]
      exact hp
    unfold Device.step
    cases hsends : s.mote.sends with
    | none => exact h.of_threads hmain (hselected ▸ h.selected) habsent
    | some text =>
      exact (h.dataTx fun hd huart => proper_report hd huart h hsends).of_threads hmain
        (hselected ▸ h.selected) habsent
  | notified =>
    obtain ⟨hmain, hselected⟩ := notified_main s.mote
    refine h.of_threads hmain (hselected ▸ h.selected) fun habsent => ?_
    rw [Mote.notified_of_ne (by rw [habsent]; decide)]
    exact habsent

theorem kept_powerUp (boot : Netif) : Kept d nodeId (.powerUp boot) where
  aligned := .uartInit
  ports := ⟨rfl, rfl⟩
  counted := rfl
  selected := UInt8.zero_le
  absent _ := rfl
  joined _ _ hp := absurd hp Bool.false_ne_true
  awake _ hs := absurd hs Bool.false_ne_true
  asleep _ hp := Position.noConfusion hp
  first _ := .inr rfl
  frames := by simp [Device.powerUp]

theorem transmitted_mainStep (n : Mote) : n.mainStep.transmitted = n.transmitted := by
  unfold Mote.mainStep
  cases n.main <;> rfl

theorem transmitted_rxCb (n : Mote) (data : UInt8) :
    (n.rxCb data).transmitted = n.transmitted := by
  rcases n.rxCb_eq data with ⟨-, h⟩ | ⟨processor, q, h⟩ <;> rw [h]

theorem transmitted_notified (n : Mote) : n.notified.transmitted = n.transmitted := by
  by_cases hthread : n.processor = .notifying
  · obtain ⟨processor, q, h⟩ := Mote.notified_notifying hthread
    rw [h]
  · rw [Mote.notified_of_ne hthread]

/-- A step makes at most one frame. -/
theorem Device.step_frames (d : Driver) (nodeId : UInt8) (s : Device) (e : Device.Event) :
    (s.step d nodeId e).frames = s.frames ∨
      ∃ f, (s.step d nodeId e).frames = s.frames ++ [f] ∧ f.result = d.txResult s.frames.length := by
  cases e with
  | main bat =>
    unfold Device.step Device.mainStep
    cases s.position with
    | device =>
      dsimp only
      split_ifs
      · exact .inr ⟨_, rfl, rfl⟩
      · exact .inl rfl
    | gpioSet c => unfold Device.setPort; dsimp only; split_ifs <;> exact .inl rfl
    | gpioClear c => unfold Device.setPort; dsimp only; split_ifs <;> exact .inl rfl
    | _ => exact .inl rfl
  | process =>
    unfold Device.step
    cases s.mote.sends with
    | none => exact .inl rfl
    | some text => exact .inr ⟨_, rfl, rfl⟩
  | rx data => exact .inl rfl
  | notified => exact .inl rfl

/-- Where every packet is accepted, all the frames of a run leave the node. -/
theorem Device.sentFrames_run {d : Driver} (haccepts : d.Accepts) (nodeId : UInt8) (boot : Netif)
    (es : List Device.Event) :
    let s := Run.run (Device.step d nodeId) (.powerUp boot) es
    sentFrames s.frames = s.frames :=
  haccepts.sentFrames_run (Device.step_frames d nodeId) rfl es

end

/-- Lines that a meter sends, each handled when it is finished. -/
def heardLines (lines : List String) : List Device.Event :=
  lines.flatMap fun line =>
    (Ascii.ascii line).map Device.Event.rx ++ [.rx (Ascii.byte '\n'), .process, .notified]

/-- The first cycle, with both meters. -/
def firstCycle : List Device.Event :=
  List.replicate 11 (.main 2661) ++ heardLines ["BASE 014038982 .", "PAPP 02340 *", "IINST 010 X"] ++
    List.replicate 8 (.main 2661) ++ heardLines ["PAPP 00120 *", "IINST 001 X", "BASE 000000007 ."] ++
    List.replicate 3 (.main 2661)

end OflMotes.Node.MoteTeleinfo
