import OflMotes.Node.Cycles
import OflMotes.Node.Published

/-! From the meters to the database: a run of `node-teleinfo`, whose frames all arrive, and a run of
the host's program on what the gateway prints of them. -/
namespace OflMotes.Node
open Ascii Gateway Rendezvous Epochs

/-- What the node has to say about a cycle, behind its number: the meters read in its windows. -/
def Carry.messages (k : Carry Latest) (heard : UInt8 → List UInt8) : List Message :=
  ((k.listen (heard 1)).1.map (Message.report 1)).toList ++
    (((k.listen (heard 1)).2.listen (heard 2)).1.map (Message.report 2)).toList

theorem Carry.messages_text (k : Carry Latest) (heard : UInt8 → List UInt8) :
    (k.messages heard).map Message.text = k.cycleReports heard := by
  rw [Carry.messages, List.map_append, Carry.cycleReports, Carry.reports, Carry.reports]
  cases (k.listen (heard 1)).1 <;> cases ((k.listen (heard 1)).2.listen (heard 2)).1 <;> rfl

theorem Carry.messages_unsigned (k : Carry Latest) (heard : UInt8 → List UInt8) :
    ∀ msg ∈ k.messages heard, msg.Unsigned := by
  intro msg hmsg
  rcases List.mem_append.mp hmsg with hmsg | hmsg <;> rw [Option.mem_toList] at hmsg <;>
    obtain ⟨m, -, rfl⟩ := Option.map_eq_some_iff.mp hmsg <;> trivial

/-- A frame as the network carries it: the text of a message, whole, from a node to the gateway, over
an interface that is set up for the network. -/
structure Sent (nodeId : UInt8) (f : Frame) : Prop where
  addresses : f.src = srcAddr nodeId ∧ f.dst = dstAddr
  joined : Joined nodeId f.netif
  payload : ∃ msg : Message, f.payload = some msg.text ∧ msg.text.length ≤ 255

namespace NodeTeleinfo

/-- A packet of the node's frame: the radio adds its measures and changes nothing. -/
def Arrives (r : Received) (f : Frame) : Prop := f.payload = some r.data ∧ r.src = f.src

/-- A batch holds the point of a message from this node. -/
def Recorded (addrToStr : List UInt8 → List UInt8) (nodeId : UInt8) (b : ℕ × List Point)
    (msg : Message) : Prop :=
  ∃ r pt, b.2 = [pt] ∧ r.src = srcAddr nodeId ∧ PointOfMessage addrToStr r msg pt

/-- Each text of a node is that of a message. -/
theorem exists_message {cycle : ℕ} {text : List UInt8} (h : Tells cycle text) :
    ∃ msg : Message, text = msg.text := by
  rcases h with ⟨c, m, -, rfl⟩ | ⟨bat, rfl⟩
  · exact ⟨.report c m, rfl⟩
  · exact ⟨.housekeeping bat (UInt16.ofNat cycle), rfl⟩

theorem Proper.sent {d : Driver} {nodeId : UInt8} {boot : Netif} {f : Frame}
    (h : Proper d nodeId boot f) : Sent nodeId f := by
  obtain ⟨text, htext, hlen, htells⟩ := h.payload
  obtain ⟨msg, rfl⟩ := exists_message htells
  exact ⟨h.addresses, h.ready.joined, msg, htext, by omega⟩

/-- A packet of a frame can be taken by the gateway and by the database. -/
theorem arrives_wellFormed {nodeId : UInt8} {r : Received} {f : Frame} (hf : Sent nodeId f)
    (hr : Arrives r f) : r.WellFormed ∧ ∃ msg : Message, r.data = msg.text := by
  obtain ⟨msg, hmsg, hlen⟩ := hf.payload
  have hdata : r.data = msg.text := Option.some.inj (hr.1.symm.trans hmsg)
  refine ⟨⟨hdata ▸ hlen, ?_⟩, msg, hdata⟩
  rw [hr.2, hf.addresses.1]
  rfl

theorem texts_eq_iff {fs : List Frame} {ms : List Message} :
    texts fs = (ms.map Message.text).map some ↔
      List.Forall₂ (fun f msg => f.payload = some msg.text) fs ms := by
  rw [← List.forall₂_eq_eq_eq, texts, List.map_map, List.forall₂_map_left_iff,
    List.forall₂_map_right_iff]
  rfl

/-- The batches of a cycle. -/
def batchesOf (written : List (ℕ × List Point)) (frames : List Frame) (k : ℕ) :
    List (ℕ × List Point) :=
  (epoch (fun x => x.2.cycle) (written.zip frames) k).map Prod.fst

/-- The meters reach the database. A node whose thread keeps up runs in any order of its bytes and
steps, over a driver that works and accepts every packet; its frames arrive at the gateway, whose host
has the database up, completes at most one frame with each read, and has come to rest, in any order of
its own steps. Then the database has one point for each frame, and those of a cycle that is over are,
in this order, the number of the cycle and the meters that its two windows have read, each with its
exact numbers and from this node. -/
theorem meters_reach_database {d : Driver} (hd : d.Works) (haccepts : d.Accepts) (nodeId : UInt8)
    (boot : Radio) {events : List Program.Event}
    (hkeeps : Run.Along (Device.step d nodeId) KeepsUp (.start d nodeId boot) events)
    (addrToStr : List UInt8 → List UInt8) (haddr : ∀ a, a.length = 8 → ColonHex a (addrToStr a))
    (fuel : ℕ) (hfuel : 256 ≤ fuel) (items : List (List UInt8 × Received))
    (htext : ∀ x ∈ items, ¬ ascii "<PAYLOAD=" <:+: x.1)
    (hair : List.Forall₂ (fun x f => Arrives x.2 f) items
      (sentFrames (Run.run (Device.step d nodeId) (.start d nodeId boot) events).frames))
    (out : List UInt8) (hout : printed addrToStr fuel items = some out) (client : Client)
    (hup : client.Up) (es : List (Rendezvous.Event Read))
    (hreads : stream (Host.run client es).inputs = out)
    (hone : ∀ rs r, rs ++ [r] <+: (Host.run client es).inputs → r.bytes ≠ [] →
      CompletesAtMostOne rs r)
    (hrest : System.AtRest (host client) (Host.run client es)) :
    let s := Run.run (Device.step d nodeId) (.start d nodeId boot) events
    let h := heard d nodeId (.start d nodeId boot) events
    let sent := sentFrames s.frames
    let written := (Host.run client es).consumer.2.calls.written
    written.length = sent.length ∧
    ∀ k < s.cycle, ∃ bat, List.Forall₂ (Recorded addrToStr nodeId) (batchesOf written sent k)
      (.housekeeping bat (UInt16.ofNat k) :: (carryInto Latest h k).messages (h k)) := by
  intro s h sent written
  have hsent : sent = s.frames := Device.sentFrames_run haccepts nodeId boot events
  have hproper : ∀ f ∈ sent, Proper d nodeId boot.netif f :=
    hsent ▸ (switched_run hd nodeId boot events).1.frames
  have hitems : ∀ x ∈ items, x.2.WellFormed ∧ ∃ msg : Message, x.2.data = msg.text := by
    intro x hx
    obtain ⟨f, hf, harrives⟩ := exists_of_forall₂ hair hx
    exact arrives_wellFormed (hproper f hf).sent harrives
  have hpoints := points_of_messages haddr hfuel htext (fun x hx => (hitems x hx).1)
    (fun x hx => (hitems x hx).2) hout hup hreads hone hrest
  have hframes : List.Forall₂ (fun b f => ∃ r pt, b.2 = [pt] ∧ Arrives r f ∧
      ∀ msg : Message, msg.Unsigned → r.data = msg.text → PointOfMessage addrToStr r msg pt)
      written sent := by
    refine forall₂_comp ?_ hpoints hair
    rintro b x f ⟨pt, hb, -, hpt⟩ harrives
    exact ⟨x.2, pt, hb, harrives, hpt⟩
  refine ⟨hframes.length_eq, fun k hk => ?_⟩
  obtain ⟨bat, htexts⟩ := past_of_run d nodeId boot hkeeps hk
  refine ⟨bat, ?_⟩
  have hmessages : List.Forall₂ (fun f msg => f.payload = some (Message.text msg))
      (epoch Frame.cycle sent k)
      (.housekeeping bat (UInt16.ofNat k) :: (carryInto Latest h k).messages (h k)) := by
    rw [← texts_eq_iff, hsent, htexts, List.map_cons, List.map_cons, List.map_cons,
      Carry.messages_text]
    rfl
  have hunsigned : ∀ msg ∈ Message.housekeeping bat (UInt16.ofNat k) ::
      (carryInto Latest h k).messages (h k), msg.Unsigned :=
    List.forall_mem_cons.mpr ⟨trivial, Carry.messages_unsigned _ _⟩
  have hsrc : ∀ f ∈ epoch Frame.cycle sent k, f.src = srcAddr nodeId := fun f hf =>
    (hproper f (List.mem_of_mem_filter hf)).addresses.1
  have hepoch := (List.forall₂_and_left _ _).mpr ⟨hsrc, hmessages⟩
  have hepoch' := ((List.forall₂_and_left _ _).mpr ⟨hunsigned, hepoch.flip⟩).flip
  refine forall₂_comp ?_ (forall₂_epoch hframes k) hepoch'
  rintro b f msg ⟨r, pt, hb, harrives, hpt⟩ ⟨hmsg, hfsrc, hpayload⟩
  have hdata : r.data = msg.text := Option.some.inj (harrives.1.symm.trans hpayload)
  exact ⟨r, pt, hb, harrives.2.trans hfsrc, hpt msg hmsg hdata⟩

/-- The three frames of a cycle that hears both meters, on the air. -/
def meterItems : List (List UInt8 × Received) :=
  [(ascii "DEBUG", ⟨housekeeping 2661 0, srcAddr 0x25, 120, -60⟩),
    ([], ⟨report 1 ⟨2340, 10, 14038982⟩, srcAddr 0x25, 118, -61⟩),
    ([], ⟨report 2 ⟨120, 1, 7⟩, srcAddr 0x25, 121, -63⟩)]

/-- Their bytes in three reads, of which the second starts and ends within a frame. -/
def meterRun : List (Rendezvous.Event Read) :=
  let out := (printed colonHexText 256 meterItems).getD []
  [.input ⟨out.take 150, 7⟩, .meet, .turn, .turn, .turn,
    .input ⟨(out.drop 150).take 150, 8⟩, .meet, .turn, .turn, .turn,
    .input ⟨out.drop 300, 9⟩, .meet, .turn, .turn, .turn]

/-- Both meters are heard, and the database has the three points of the cycle. -/
theorem meters_reach_database_bothMeters :
    let s := Run.run (Device.step .plain 0x25) (.start .plain 0x25 .offAtBoot) exampleEvents
    let h := heard .plain 0x25 (.start .plain 0x25 .offAtBoot) exampleEvents
    let sent := sentFrames s.frames
    let written := (Host.run upClient meterRun).consumer.2.calls.written
    (written.length = sent.length ∧
    ∀ k < s.cycle, ∃ bat, List.Forall₂ (Recorded colonHexText 0x25) (batchesOf written sent k)
      (.housekeeping bat (UInt16.ofNat k) :: (carryInto Latest h k).messages (h k))) ∧
    s.cycle = 1 ∧ written.length = 3 ∧
    (carryInto Latest h 0).messages (h 0) =
      [.report 1 ⟨2340, 10, 14038982⟩, .report 2 ⟨120, 1, 7⟩] := by
  have hout : (printed colonHexText 256 meterItems).isSome = true := by decide +kernel
  have hrest : System.AtRest (host upClient) (Host.run upClient meterRun) :=
    atRest_of_receiving (by decide +kernel) (by decide +kernel) (by decide +kernel)
  have hframes : (sentFrames (Run.run (Device.step .plain 0x25) (.start .plain 0x25 .offAtBoot)
      exampleEvents).frames).map (fun f => (f.payload, f.src)) =
      meterItems.map fun x => (some x.2.data, x.2.src) := by decide +kernel
  refine ⟨meters_reach_database Driver.plain_works Driver.plain_accepts 0x25 .offAtBoot
    (by decide +kernel) colonHexText (fun a _ => colonHex_colonHexText a) 256 le_rfl meterItems
    ?_ ?_ ((printed colonHexText 256 meterItems).getD []) ?_ upClient upClient_up
    meterRun (by decide +kernel) (completesAtMostOne_of_getElem (by decide +kernel)) hrest,
    by decide +kernel, by decide +kernel, ?_⟩
  · decide
  · rw [← List.forall₂_eq_eq_eq, List.forall₂_map_left_iff, List.forall₂_map_right_iff] at hframes
    refine hframes.flip.imp fun x f h => ?_
    obtain ⟨hpayload, hsrc⟩ := Prod.mk.inj h
    exact ⟨hpayload, hsrc.symm⟩
  · rw [Option.getD_of_ne_none (Option.isSome_iff_ne_none.mp hout)]
  · decide +kernel

end NodeTeleinfo
end OflMotes.Node
