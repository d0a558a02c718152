import OflMotes.Gateway.Firmware
import OflMotes.Lib.Parallel
import OflMotes.Node.Metering
import OflMotes.Node.MoteDevice
import OflMotes.Node.Station

/-! The network: nodes with different addresses, each with one of the three programs, side by side,
the gateway that hears them, and the database behind it. -/
namespace OflMotes.Node
open Ascii Gateway Rendezvous Epochs

theorem NodeTeleinfo.Device.frames_prefix (d : Driver) (nodeId : UInt8) (s : NodeTeleinfo.Device)
    (e : NodeTeleinfo.Program.Event) : s.frames <+: (s.step d nodeId e).frames := by
  rcases s.step_frames d nodeId e with h | ⟨f, h, -⟩ <;> rw [h]
  exact List.prefix_append _ _

theorem MoteTeleinfo.Device.frames_prefix (d : Driver) (nodeId : UInt8) (s : MoteTeleinfo.Device)
    (e : MoteTeleinfo.Device.Event) : s.frames <+: (s.step d nodeId e).frames := by
  rcases s.step_frames d nodeId e with h | ⟨f, h, -⟩ <;> rw [h]
  exact List.prefix_append _ _

theorem Bme280.Station.frames_prefix (d : Driver) (nodeId : UInt8) (radiosleep : Bool)
    (s : Bme280.Station) (i : Bme280.Readings) :
    s.frames <+: (s.step d nodeId radiosleep i).frames := by
  have hwake : (s.wake d nodeId radiosleep).frames = s.frames := by
    unfold wake
    split_ifs <;> rfl
  have hsent : s.frames <+: ((s.wake d nodeId radiosleep).dataTx d nodeId i.text).frames := by
    rw [← hwake]
    exact List.prefix_append _ _
  unfold step
  dsimp only
  split_ifs
  · exact List.prefix_refl _
  · exact hsent
  · exact hsent
  · exact hsent

/-- A node with its program, or none at this address. -/
inductive Member
  | nodeTeleinfo (s : NodeTeleinfo.Device)
  | nodeBme280 (radiosleep : Bool) (s : Bme280.Station)
  | moteTeleinfo (s : MoteTeleinfo.Device)
  | absent

namespace Member

/-- What is flashed to a node, and its radio at boot. -/
inductive Setup
  | nodeTeleinfo (boot : Radio)
  | nodeBme280 (radiosleep : Bool) (boot : Radio)
  | moteTeleinfo (boot : Netif)
  | absent

inductive Event
  | nodeTeleinfo (e : NodeTeleinfo.Program.Event)
  | nodeBme280 (i : Bme280.Readings)
  | moteTeleinfo (e : MoteTeleinfo.Device.Event)

/-- The frames that it has handed to `data_tx`. -/
def frames : Member → List Frame
  | .nodeTeleinfo s => s.frames
  | .nodeBme280 _ s => s.frames
  | .moteTeleinfo s => s.frames
  | .absent => []

section
variable (d : Driver) (nodeId : UInt8)

def start : Setup → Member
  | .nodeTeleinfo boot => .nodeTeleinfo (.start d nodeId boot)
  | .nodeBme280 radiosleep boot => .nodeBme280 radiosleep (.start d nodeId boot)
  | .moteTeleinfo boot => .moteTeleinfo (.powerUp boot)
  | .absent => .absent

/-- A step of its program; what can happen to another program does nothing. -/
def step : Member → Event → Member
  | .nodeTeleinfo s, .nodeTeleinfo e => .nodeTeleinfo (s.step d nodeId e)
  | .nodeBme280 radiosleep s, .nodeBme280 i => .nodeBme280 radiosleep (s.step d nodeId radiosleep i)
  | .moteTeleinfo s, .moteTeleinfo e => .moteTeleinfo (s.step d nodeId e)
  | s, _ => s

theorem frames_prefix (s : Member) (e : Event) : s.frames <+: (s.step d nodeId e).frames := by
  cases s with
  | nodeTeleinfo s =>
    cases e with
    | nodeTeleinfo e => exact s.frames_prefix d nodeId e
    | _ => exact List.prefix_refl _
  | nodeBme280 radiosleep s =>
    cases e with
    | nodeBme280 i => exact s.frames_prefix d nodeId radiosleep i
    | _ => exact List.prefix_refl _
  | moteTeleinfo s =>
    cases e with
    | moteTeleinfo e => exact s.frames_prefix d nodeId e
    | _ => exact List.prefix_refl _
  | absent => cases e <;> exact List.prefix_refl _

/-- The node as a machine that logs its frames. -/
def logger : Parallel.Logger Member Event Frame := ⟨step d nodeId, frames, frames_prefix d nodeId⟩

end
end Member

theorem Bme280.Proper.sent {d : Driver} {nodeId : UInt8} {radiosleep : Bool} {boot : Netif}
    {f : Frame} (h : Bme280.Proper d nodeId radiosleep boot f) {i : Bme280.Readings}
    (hpayload : f.payload = some i.text) : Sent nodeId f := by
  refine ⟨h.addresses, h.joined, .measurement i.bat i.temperature i.pressure i.humidity, hpayload, ?_⟩
  have hfits : i.text.length + 1 ≤ 128 := (txMsg_fits i.bat _).1
  exact (Nat.le_of_succ_le hfits).trans (by decide)

theorem MoteTeleinfo.Proper.sent {nodeId : UInt8} {f : Frame} (h : MoteTeleinfo.Proper nodeId f) :
    Sent nodeId f := by
  rcases h.payload with ⟨bat, hpayload, -⟩ | ⟨c, m, hc, hpayload⟩
  · refine ⟨h.addresses, h.joined, .device bat, hpayload, ?_⟩
    have hfits : (deviceText bat).length + 1 ≤ 128 := (deviceText_fits bat).1
    exact (Nat.le_of_succ_le hfits).trans (by decide)
  · refine ⟨h.addresses, h.joined, .moteReport c m, hpayload, ?_⟩
    have hlen := reportText_length_of_le hc m
    exact hlen.trans (by decide)

/-- What a node keeps over its runs. -/
def Member.Kept (d : Driver) (nodeId : UInt8) : Member → Prop
  | .nodeTeleinfo s => NodeTeleinfo.Kept s ∧ ∃ boot, NodeTeleinfo.Switched d nodeId boot s
  | .nodeBme280 radiosleep s => (s.held = false → ∃ boot, Bme280.Rests d nodeId radiosleep boot s) ∧
      ∀ f ∈ s.frames, Sent nodeId f
  | .moteTeleinfo s => MoteTeleinfo.Kept d nodeId s
  | .absent => True

section
variable {d : Driver} (hd : d.Works) (nodeId : UInt8)

theorem Member.Kept.sent (hd : d.Works) (huart : d.uartInit = true) {s : Member}
    (h : s.Kept d nodeId) : ∀ f ∈ s.frames, Sent nodeId f := by
  cases s with
  | nodeTeleinfo s =>
    obtain ⟨-, boot, hswitched⟩ := h
    exact fun f hf => (hswitched.frames f hf).sent
  | nodeBme280 radiosleep s => exact h.2
  | moteTeleinfo s => exact fun f hf => (MoteTeleinfo.Kept.frames h hd huart f hf).sent
  | absent => simp [Member.frames]

theorem Member.kept_start (setup : Member.Setup) : (Member.start d nodeId setup).Kept d nodeId := by
  cases setup with
  | nodeTeleinfo boot =>
    exact ⟨NodeTeleinfo.kept_start d nodeId boot, boot.netif, NodeTeleinfo.switched_start d nodeId boot⟩
  | nodeBme280 radiosleep boot =>
    refine ⟨fun _ => ⟨boot.netif, ?_⟩, by simp [Bme280.Station.start]⟩
    rw [Bme280.Rests, if_neg (by simp [Bme280.Station.start])]
    rfl
  | moteTeleinfo boot => exact MoteTeleinfo.kept_powerUp boot
  | absent => trivial

include hd

theorem Member.kept_station {radiosleep : Bool} {s : Bme280.Station}
    (h : (Member.nodeBme280 radiosleep s).Kept d nodeId) (i : Bme280.Readings) :
    (Member.nodeBme280 radiosleep (s.step d nodeId radiosleep i)).Kept d nodeId := by
  obtain ⟨hrests, hsent⟩ := h
  cases hheld : s.held with
  | true =>
    rw [Bme280.Station.step, if_pos hheld]
    exact ⟨hrests, hsent⟩
  | false =>
    obtain ⟨boot, hboot⟩ := hrests hheld
    obtain ⟨f, hpayload, -, hproper, hframes, hnext⟩ :=
      Bme280.step_spec hd nodeId radiosleep hboot hheld i
    refine ⟨fun hno => ⟨boot, ?_⟩, ?_⟩
    · rw [hnext] at hno
      exact (Bme280.step_of_not_pressed hd nodeId radiosleep hboot hheld hno).2.2
    · rw [hframes]
      exact List.forall_mem_append.mpr ⟨hsent, List.forall_mem_singleton.mpr (hproper.sent hpayload)⟩

theorem Member.kept_step {s : Member} (h : s.Kept d nodeId) (e : Member.Event) :
    (s.step d nodeId e).Kept d nodeId := by
  cases s with
  | nodeTeleinfo s =>
    cases e with
    | nodeTeleinfo e =>
      obtain ⟨hkept, boot, hswitched⟩ := h
      exact ⟨NodeTeleinfo.kept_step d nodeId hkept e, boot,
        NodeTeleinfo.switched_step hd nodeId hswitched hkept e⟩
    | _ => exact h
  | nodeBme280 radiosleep s =>
    cases e with
    | nodeBme280 i => exact Member.kept_station hd nodeId h i
    | _ => exact h
  | moteTeleinfo s =>
    cases e with
    | moteTeleinfo e => exact MoteTeleinfo.kept_step h e
    | _ => exact h
  | absent => cases e <;> exact h

/-- Whatever its program and its radio at boot, every frame of a node is a text for the gateway. -/
theorem sent_run (huart : d.uartInit = true) (setup : Member.Setup) (es : List Member.Event) :
    ∀ f ∈ (Run.run (Member.step d nodeId) (.start d nodeId setup) es).frames, Sent nodeId f :=
  (Run.run_invariant (I := Member.Kept d nodeId) (fun _ e h => Member.kept_step hd nodeId h e)
    (Member.kept_start nodeId setup) es).sent nodeId hd huart

end

/-- The nodes at all addresses, and their calls of `data_tx` with the frames, in their order and each
with the address of its node. -/
abbrev Network := Parallel.State UInt8 Member Frame

namespace Network
variable (d : UInt8 → Driver)

def start (setup : UInt8 → Member.Setup) : Network :=
  ⟨fun nodeId => .start (d nodeId) nodeId (setup nodeId), []⟩

/-- A step of one of the nodes. -/
def step : Network → UInt8 × Member.Event → Network :=
  Parallel.step fun nodeId => Member.logger (d nodeId) nodeId

end Network

/-- The frame leaves its node, through a radio that is on. -/
def Leaves (f : Frame) : Prop := f.result = .sent ∧ f.netif.state ≠ .off

instance (f : Frame) : Decidable (Leaves f) := inferInstanceAs (Decidable (_ ∧ _))

theorem complete_start (d : UInt8 → Driver) (setup : UInt8 → Member.Setup) :
    Parallel.Complete (fun nodeId => Member.logger (d nodeId) nodeId) (Network.start d setup) := by
  intro nodeId
  show [] = (Member.start (d nodeId) nodeId (setup nodeId)).frames
  cases setup nodeId <;> rfl

section
variable {d : UInt8 → Driver} (hd : ∀ nodeId, (d nodeId).Works)
  (huart : ∀ nodeId, (d nodeId).uartInit = true) (setup : UInt8 → Member.Setup)
  (es : List (UInt8 × Member.Event))
include hd huart

/-- A frame in the common order is one of its node's. -/
theorem sent_network : ∀ x ∈ (Run.run (Network.step d) (.start d setup) es).trace, Sent x.1 x.2 := by
  rintro ⟨nodeId, f⟩ hx
  rw [← Parallel.mem_part, Network.step, Parallel.part_trace (complete_start d setup)] at hx
  exact sent_run (hd nodeId) nodeId (huart nodeId) (setup nodeId) _ f hx

end

/-- Behind the commands of the host, the gateway hears each frame of the network that leaves its
node. -/
theorem hears_iff {d : Modem} (hd : d.Works) (hfilters : d.Filters) {shell : Shell}
    (hshell : shell.Splits) {g : Firmware} (hraw : g.rawmode = false) {nodeId : UInt8} {f : Frame}
    (hf : Sent nodeId f) : ((shell hostSetup).foldl (Firmware.command d) g).Hears d f ↔ Leaves f := by
  have hpasses := hfilters { g with
    channel := 11
    nid := Int16.ofNat 0xF00D
    addressLong := dstAddr
    pktdump := true } f hraw
  rw [firmware_of_hostSetup hd g hshell, Firmware.Hears, hpasses]
  constructor
  · rintro ⟨⟨hresult, hstate, -⟩, -⟩
    exact ⟨hresult, hstate⟩
  · rintro ⟨hresult, hstate⟩
    exact ⟨⟨hresult, hstate, hf.joined.channel, .inr ⟨hf.joined.nid, hf.addresses.2⟩⟩, rfl⟩

/-- The programs and the gateway agree on the network. Whatever programs the nodes have, over drivers
that work, in any order of all their steps, and whatever the gateway was set to before, but for the raw
mode: once its shell has taken what the host types, and where its modem filters the frames as it should
and the air loses nothing, it hears exactly the frames that leave a node through a radio that is on. -/
theorem gateway_hears_nodes {d : UInt8 → Driver} (hd : ∀ nodeId, (d nodeId).Works)
    (huart : ∀ nodeId, (d nodeId).uartInit = true) (setup : UInt8 → Member.Setup)
    (es : List (UInt8 × Member.Event)) {modem : Modem} (hmodem : modem.Works)
    (hfilters : modem.Filters) {shell : Shell} (hshell : shell.Splits) (g : Firmware)
    (hraw : g.rawmode = false) :
    ∀ x ∈ (Run.run (Network.step d) (.start d setup) es).trace,
      ((shell hostSetup).foldl (Firmware.command modem) g).Hears modem x.2 ↔ Leaves x.2 :=
  fun x hx => hears_iff hmodem hfilters hshell hraw (sent_network hd huart setup es x hx)

/-- A node with meters, a station whose radio is switched on for its frames, one whose radio stays
off, and a node of the older kind. -/
def fourNodes (nodeId : UInt8) : Member.Setup :=
  if nodeId = 0x25 then .nodeTeleinfo .offAtBoot
  else if nodeId = 0x26 then .nodeBme280 true .offAtBoot
  else if nodeId = 0x27 then .nodeBme280 false .offAtBoot
  else if nodeId = 0x28 then .moteTeleinfo Radio.offAtBoot.netif else .absent

/-- A silent cycle of the first, and in the midst of it a cycle of each station and the start of the
last. -/
def fourCycles : List (UInt8 × Member.Event) :=
  List.replicate 5 (0x25, .nodeTeleinfo (.main 2661)) ++
    [(0x28, .moteTeleinfo (.main 2650)), (0x28, .moteTeleinfo (.main 2650)),
      (0x26, .nodeBme280 ⟨2150, 101325, 4711, 2660, true, true⟩),
      (0x27, .nodeBme280 ⟨-521, 101325, 4711, 2655, true, true⟩)] ++
    List.replicate 2 (0x25, .nodeTeleinfo (.main 2661)) ++
    List.replicate 3 (0x28, .moteTeleinfo (.main 2650))

/-- A gateway before its setup. -/
def freshGateway : Firmware := ⟨26, 0, [], false, false, false⟩

/-- Of the four frames, all but that of the station whose radio is off are heard. -/
theorem gateway_hears_nodes_fourNodes :
    let net := Run.run (Network.step fun _ => .plain) (.start (fun _ => .plain) fourNodes) fourCycles
    let g := (Shell.plain hostSetup).foldl (Firmware.command .plain) freshGateway
    (∀ x ∈ net.trace, g.Hears .plain x.2 ↔ Leaves x.2) ∧
      net.trace.map (fun x => (x.1, decide (Leaves x.2))) =
        [(0x25, true), (0x26, true), (0x27, false), (0x28, true)] :=
  ⟨gateway_hears_nodes (fun _ => Driver.plain_works) (fun _ => rfl) fourNodes fourCycles
    Modem.plain_works Modem.plain_filters Shell.plain_splits freshGateway rfl, by decide +kernel⟩

section
variable {d : UInt8 → Driver} (hd : ∀ nodeId, (d nodeId).Works)
  (huart : ∀ nodeId, (d nodeId).uartInit = true) (setup : UInt8 → Member.Setup)
  (es : List (UInt8 × Member.Event)) {modem : Modem} (hmodem : modem.Works)
  (hfilters : modem.Filters) {shell : Shell} (hshell : shell.Splits) {g : Firmware}
  (hraw : g.rawmode = false)
include hd huart hmodem hfilters hshell hraw

end

end OflMotes.Node
