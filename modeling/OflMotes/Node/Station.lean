import OflMotes.Lib.Run
import OflMotes.Node.Messages
import OflMotes.Node.Radio

/-! `main` of `node-bme280`: it measures, sends and sleeps, cycle after cycle, until a button is
pressed, which holds it for a debugger. -/
namespace OflMotes.Node.Bme280

/-- What a cycle reads: the three values of the driver, the battery, and the two buttons, which read
zero while they are pressed. -/
structure Readings where
  temperature : Int16
  pressure : UInt32
  humidity : UInt16
  bat : Int32
  btn0 : Bool
  btn1 : Bool

/-- The text of the cycle. -/
def Readings.text (i : Readings) : List UInt8 :=
  txMsg i.bat (sensorMeasure i.temperature i.pressure i.humidity)

def Readings.pressed (i : Readings) : Bool := !i.btn0 || !i.btn1

/-- The radio, the number of cycles behind, the calls of `data_tx` with their frames, and whether
`main` is held. -/
structure Station where
  radio : Radio
  cycle : ℕ
  frames : List Frame
  held : Bool

namespace Station

/-- The frame that `data_tx` makes of a text. -/
def frame (s : Station) (d : Driver) (nodeId : UInt8) (text : List UInt8) : Frame where
  payload := some (transmit text).payload
  src := srcAddr nodeId
  dst := dstAddr
  result := d.txResult s.frames.length
  netif := s.radio.netif
  powerPort1 := false
  powerPort2 := false
  cycle := s.cycle

/-- `data_tx` -/
def dataTx (s : Station) (d : Driver) (nodeId : UInt8) (text : List UInt8) : Station :=
  { s with frames := s.frames ++ [s.frame d nodeId text] }

section
variable (d : Driver) (nodeId : UInt8) (radiosleep : Bool)

/-- `main` in front of its loop, behind `net_config`. -/
def start (boot : Radio) : Station := ⟨{ boot with netif := netConfig d nodeId boot.netif }, 0, [], false⟩

/-- The part of a cycle in front of the message: the radio is on from there. -/
def wake (s : Station) : Station :=
  if radiosleep then { s with radio := radioOn d nodeId s.radio } else s

/-- A cycle of `main`, with `cnf_enable_pm_radiosleep`. -/
def step (s : Station) (i : Readings) : Station :=
  if s.held then s
  else
    let s := s.wake d nodeId radiosleep
    let s := s.dataTx d nodeId i.text
    if i.pressed then { s with held := true }
    else
      let s := if radiosleep then { s with radio := radioOff d s.radio } else s
      { s with cycle := s.cycle + 1 }

end
end Station

/-- `cnf_enable_pm_radiosleep` -/
def cnfEnablePmRadiosleep : Bool := false

/-- The cycles up to the first in which a button is pressed. -/
def handled : List Readings → List Readings
  | [] => []
  | i :: is => if i.pressed then [i] else i :: handled is

/-- The radio behind a cycle that was not held. -/
def Rests (d : Driver) (nodeId : UInt8) (radiosleep : Bool) (boot : Netif) (s : Station) : Prop :=
  if radiosleep ∧ 0 < s.cycle then s.radio.netif.state = .off ∧ s.radio.rstPin = false
  else s.radio.netif = netConfig d nodeId boot

/-- A frame of a cycle: from the configured interface, which is switched on where the radio sleeps
between the cycles, and is as it was at boot where it does not. -/
structure Proper (d : Driver) (nodeId : UInt8) (radiosleep : Bool) (boot : Netif) (f : Frame) :
    Prop where
  addresses : f.src = srcAddr nodeId ∧ f.dst = dstAddr
  result : ∃ n, f.result = d.txResult n
  joined : Joined nodeId f.netif
  power : f.netif.txPower = d.outputPowerMax
  state : if radiosleep then f.netif.state ≠ .off else f.netif = netConfig d nodeId boot

theorem transmit_text (i : Readings) : (transmit i.text).payload = i.text := by
  have hfits := (txMsg_fits i.bat (sensorMeasure i.temperature i.pressure i.humidity)).2.2.1
  rw [transmit, dataTx, Readings.text, hfits, List.take_left]

section
variable {d : Driver} (hd : d.Works) (nodeId : UInt8) (radiosleep : Bool) {boot : Netif}
include hd

/-- The frame of a cycle, whatever its text. -/
theorem proper_frame {s : Station} (h : Rests d nodeId radiosleep boot s) (text : List UInt8) :
    Proper d nodeId radiosleep boot ((s.wake d nodeId radiosleep).frame d nodeId text) := by
  have hconfig := netConfig_eq hd nodeId boot
  cases radiosleep with
  | false =>
    rw [Rests, if_neg (by simp)] at h
    refine ⟨⟨rfl, rfl⟩, ⟨_, rfl⟩, ?_, ?_, h⟩
    · show Joined nodeId s.radio.netif
      exact h ▸ joined_netConfig hd nodeId boot
    · show s.radio.netif.txPower = d.outputPowerMax
      rw [h, hconfig]
  | true =>
    have hwake : s.wake d nodeId true = { s with radio := radioOn d nodeId s.radio } := rfl
    rw [hwake]
    by_cases hoff : s.radio.netif.state = .off
    · rw [radioOn, radioOnWith_off hd nodeId false hoff]
      refine ⟨⟨rfl, rfl⟩, ⟨_, rfl⟩, ⟨rfl, rfl, rfl⟩, rfl, ?_⟩
      simp [Station.frame]
    · have hcycle : ¬ 0 < s.cycle := fun hpos => by
        rw [Rests, if_pos ⟨rfl, hpos⟩] at h
        exact hoff h.1
      rw [Rests, if_neg (by simp [hcycle])] at h
      rw [radioOn, radioOnWith_of_ne hd nodeId false hoff]
      refine ⟨⟨rfl, rfl⟩, ⟨_, rfl⟩, ?_, ?_, hoff⟩
      · show Joined nodeId s.radio.netif
        exact h ▸ joined_netConfig hd nodeId boot
      · show s.radio.netif.txPower = d.outputPowerMax
        rw [h, hconfig]

/-- Behind a cycle that is not held. -/
theorem step_of_not_pressed {s : Station} (h : Rests d nodeId radiosleep boot s)
    (hheld : s.held = false) {i : Readings} (hpressed : i.pressed = false) :
    (s.step d nodeId radiosleep i).held = false ∧
      (s.step d nodeId radiosleep i).cycle = s.cycle + 1 ∧
      Rests d nodeId radiosleep boot (s.step d nodeId radiosleep i) := by
  cases radiosleep with
  | false =>
    rw [Rests, if_neg (by simp)] at h
    simp [Station.step, Station.wake, Station.dataTx, Rests, hheld, hpressed, h]
  | true =>
    have hoff := radioOff_state hd (radioOn d nodeId s.radio)
    simp [Station.step, Station.wake, Station.dataTx, Rests, hheld, hpressed, hoff]
    rfl

/-- What a cycle does: it sends its text, and is held exactly if a button is pressed. -/
theorem step_spec {s : Station} (h : Rests d nodeId radiosleep boot s) (hheld : s.held = false)
    (i : Readings) :
    ∃ f : Frame, f.payload = some i.text ∧ f.cycle = s.cycle ∧ Proper d nodeId radiosleep boot f ∧
      (s.step d nodeId radiosleep i).frames = s.frames ++ [f] ∧
      (s.step d nodeId radiosleep i).held = i.pressed := by
  refine ⟨_, congrArg some (transmit_text i), ?_, proper_frame hd nodeId radiosleep h i.text, ?_, ?_⟩
  · cases radiosleep <;> rfl
  · cases radiosleep <;> cases hpressed : i.pressed <;>
      simp [Station.step, Station.wake, Station.dataTx, hheld, hpressed]
  · cases radiosleep <;> cases hpressed : i.pressed <;>
      simp [Station.step, Station.wake, Station.dataTx, hheld, hpressed]

omit hd in
/-- A station that is held does nothing more. -/
theorem run_of_held {s : Station} (hheld : s.held = true) (is : List Readings) :
    Run.run (Station.step d nodeId radiosleep) s is = s := by
  induction is with
  | nil => rfl
  | cons i is ih =>
    rw [Run.run_cons, Station.step, if_pos hheld]
    exact ih

/-- From a cycle that was not held on. -/
theorem run_spec {s : Station} (h : Rests d nodeId radiosleep boot s) (hheld : s.held = false)
    (is : List Readings) :
    let t := Run.run (Station.step d nodeId radiosleep) s is
    (∃ fs, t.frames = s.frames ++ fs ∧ fs.map Frame.payload = (handled is).map (some ·.text) ∧
      fs.map Frame.cycle = List.range' s.cycle fs.length ∧
      ∀ f ∈ fs, Proper d nodeId radiosleep boot f) ∧
    (t.held = true ↔ ∃ i ∈ is, i.pressed = true) ∧
    (t.held = false → Rests d nodeId radiosleep boot t ∧ t.cycle = s.cycle + is.length) := by
  induction is generalizing s with
  | nil => exact ⟨⟨[], by simp [handled]⟩, by simp [hheld], fun _ => ⟨h, rfl⟩⟩
  | cons i is ih =>
    obtain ⟨f, hpayload, hcycle, hproper, hframes, hnext⟩ :=
      step_spec hd nodeId radiosleep h hheld i
    simp only [Run.run_cons]
    cases hpressed : i.pressed with
    | true =>
      rw [hpressed] at hnext
      rw [run_of_held nodeId radiosleep hnext]
      refine ⟨⟨[f], hframes, ?_, ?_, by simpa using hproper⟩, ?_, fun hno => ?_⟩
      · simp [handled, hpressed, hpayload]
      · simp [hcycle]
      · simp [hnext, hpressed]
      · rw [hnext] at hno
        contradiction
    | false =>
      rw [hpressed] at hnext
      obtain ⟨-, hcycle', hrests⟩ := step_of_not_pressed hd nodeId radiosleep h hheld hpressed
      obtain ⟨⟨fs, hfs, hpayloads, hcycles, hall⟩, hiff, hlast⟩ := ih hrests hnext
      refine ⟨⟨f :: fs, ?_, ?_, ?_, List.forall_mem_cons.mpr ⟨hproper, hall⟩⟩, ?_, fun hno => ?_⟩
      · rw [hfs, hframes, List.append_assoc]
        rfl
      · simp [handled, hpressed, hpayload, hpayloads]
      · rw [List.map_cons, hcycles, hcycle', hcycle, List.length_cons, List.range'_succ]
      · rw [hiff]
        simp [hpressed]
      · obtain ⟨hrests', hlen⟩ := hlast hno
        refine ⟨hrests', ?_⟩
        rw [hlen, hcycle', List.length_cons]
        omega

end

/-- The station sends what it measures. Over any cycles, whatever is read in them, and whether the
radio sleeps between them or not, one frame goes out for each cycle up to the first with a button
pressed, in order and with the text of its own readings, from the configured interface; nothing goes
out any more once it is held; and where the radio sleeps it is off and in reset behind each cycle. -/
theorem measurements_sent {d : Driver} (hd : d.Works) (haccepts : d.Accepts) (nodeId : UInt8)
    (radiosleep : Bool) (boot : Radio) (is : List Readings) :
    let s := Run.run (Station.step d nodeId radiosleep) (.start d nodeId boot) is
    let sent := sentFrames s.frames
    sent.map Frame.payload = (handled is).map (some ·.text) ∧
    sent.map Frame.cycle = List.range sent.length ∧
    (∀ f ∈ sent, Proper d nodeId radiosleep boot.netif f) ∧
    (s.held = true ↔ ∃ i ∈ is, i.pressed = true) ∧
    (s.held = false → s.cycle = is.length ∧ Rests d nodeId radiosleep boot.netif s) := by
  intro s sent
  have hstart : Rests d nodeId radiosleep boot.netif (Station.start d nodeId boot) := by
    rw [Rests, if_neg (by simp [Station.start])]
    rfl
  obtain ⟨⟨fs, hfs, hpayloads, hcycles, hall⟩, hiff, hlast⟩ :=
    run_spec hd nodeId radiosleep hstart rfl is
  obtain rfl : s.frames = fs := hfs
  have hsent : sent = s.frames := haccepts.sentFrames_eq fun f hf => (hall f hf).result
  rw [hsent]
  refine ⟨hpayloads, ?_, hall, hiff, fun hno => ?_⟩
  · rw [List.range_eq_range']
    exact hcycles
  · obtain ⟨hrests, hlen⟩ := hlast hno
    exact ⟨hlen.trans (Nat.zero_add _), hrests⟩

/-- A cycle below zero degrees, and one that is held. -/
def heldReadings : List Readings :=
  [⟨-521, 101325, 4711, 2661, true, true⟩, ⟨-519, 101330, 4700, 2660, false, true⟩,
    ⟨0, 0, 0, 0, true, true⟩]

/-- With a radio that sleeps, and with one that the program keeps on. -/
theorem measurements_sent_held :
    (let s := Run.run (Station.step .plain 0x25 true) (.start .plain 0x25 .offAtBoot) heldReadings
    s.held = true ∧
      (sentFrames s.frames).map Frame.payload = (handled heldReadings).map (some ·.text) ∧
      ∀ f ∈ sentFrames s.frames, Proper .plain 0x25 true Radio.offAtBoot.netif f) ∧
    let s := Run.run (Station.step .plain 0x25 cnfEnablePmRadiosleep) (.start .plain 0x25 .offAtBoot)
      heldReadings
    (sentFrames s.frames).map Frame.payload = (handled heldReadings).map (some ·.text) :=
  have h := measurements_sent Driver.plain_works Driver.plain_accepts 0x25 true .offAtBoot heldReadings
  have h' := measurements_sent Driver.plain_works Driver.plain_accepts 0x25 cnfEnablePmRadiosleep
    .offAtBoot heldReadings
  ⟨⟨by decide +kernel, h.1, h.2.2.1⟩, h'.1⟩

end OflMotes.Node.Bme280
