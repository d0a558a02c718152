import OflMotes.Gateway.EndToEnd
import OflMotes.Gateway.Host
import OflMotes.Gateway.Metricless

/-! What of the packets received over the air reaches the database: the firmware prints them, the
serial line carries the bytes, and the two goroutines of the host write the points. -/
namespace OflMotes.Gateway
open Ascii Framing Fields Rendezvous

/-- The metrics that a payload names, each with the last value under its key. -/
def metrics (data k : List UInt8) : Option Value :=
  (lastValue k (payloadFields data)).map (fieldValue k)

/-- The point of a packet received: it is tagged with the sender's address and holds the metrics of
the payload, beside the quality and the strength of the signal. -/
structure Received.PointOf (addrToStr : List UInt8 → List UInt8) (r : Received) (pt : Point) :
    Prop where
  name : pt.name = ascii "metrics"
  tags : pt.tags = [(ascii "ID", addrToStr r.src)]
  fields : ∀ k, pt.fields.lookup k =
    if k = ascii "LQI" then some (.int r.lqi.toNat)
    else if k = ascii "RSSI" then some (.int r.rssi.toInt) else metrics r.data k

/-- The raw string that the host extracts of a packet printed by the firmware. -/
def Received.raw (addrToStr : List UInt8 → List UInt8) (r : Received) : List UInt8 :=
  ascii "PAYLOAD=" ++ r.body addrToStr

section
variable {addrToStr : List UInt8 → List UInt8}
  (haddr : ∀ a, a.length = 8 → ColonHex a (addrToStr a))
include haddr

theorem payloadText_raw {r : Received} (hr : r.WellFormed) :
    hexDecode (payloadText (r.raw addrToStr)) = some r.data := by
  have hne : byte ';' ≠ byte '=' := by decide
  have hsemi := notMem_flatMap_hexPair (b := byte ';') (by decide) r.data
  have heq := notMem_flatMap_hexPair (b := byte '=') (by decide) r.data
  have hfields : headerFields (r.raw addrToStr) =
      (ascii "PAYLOAD", r.data.flatMap hexPair) :: headerFields (r.link addrToStr) := by
    have hraw : r.raw addrToStr = ascii "PAYLOAD" ++ byte '=' ::
      (r.data.flatMap hexPair ++ byte ';' :: r.link addrToStr) := rfl
    rw [hraw, headerFields, fields_cons _ _ (by decide) ⟨hsemi, heq⟩ hne]
    rfl
  have htext : payloadText (r.raw addrToStr) = r.data.flatMap hexPair := by
    rw [payloadText, hfields, headerFields_link hr haddr]
    rfl
  rw [htext, hexDecode_hexPair]

/-- The point that `push_influx` makes of a printed packet is that of the packet received. -/
theorem pointOf_raw {r : Received} (hr : r.WellFormed) (now : ℕ) :
    r.PointOf addrToStr (decodePacket (.ofRaw (r.raw addrToStr) now)).stamp.point := by
  obtain ⟨-, hsmac, hlqi, hrssi⟩ := readBack_body hr haddr now
  refine ⟨rfl, ?_, fun k => ?_⟩
  · rw [← hsmac]
    rfl
  · have hmetrics : (decodePacket (.ofRaw (r.raw addrToStr) now)).datamap.lookup k =
        metrics r.data k := by
      rw [lookup_decodePacket, payloadText_raw haddr hr]
      rfl
    rw [← hmetrics, ← hlqi, ← hrssi]
    exact lookup_stamp _ k

/-- The host extracts exactly the printed packets, whatever other text stands between them. -/
theorem rawFrames_printed {fuel : ℕ} (hfuel : 256 ≤ fuel) (items : List (List UInt8 × Received))
    (htext : ∀ x ∈ items, ¬ ascii "<PAYLOAD=" <:+: x.1) (hwf : ∀ x ∈ items, x.2.WellFormed) :
    ∃ out, printed addrToStr fuel items = some out ∧
      rawFrames out = items.map fun x => x.2.raw addrToStr := by
  induction items with
  | nil => exact ⟨[], rfl, rfl⟩
  | cons x items ih =>
    obtain ⟨rest, hrest, hall⟩ := ih (fun y hy => htext y (by simp [hy]))
      (fun y hy => hwf y (by simp [hy]))
    have hx := hwf x (by simp)
    refine ⟨x.1 ++ (payloadFrame.frame (x.2.body addrToStr) ++ rest), ?_, ?_⟩
    · simp [printed, dump_received hx hfuel, hrest]
    · rw [rawFrames, payloadFrame.extract_text_frame (htext x (by simp)) (body_isBody hx haddr),
        List.map_cons, rawOf_frame, List.map_cons, ← hall]
      rfl

end

/-- Every packet received by `main` holds nothing but its raw string and its time. -/
theorem passed_ofRaw (client : Client) (es : List (Rendezvous.Event Read)) :
    ∀ p ∈ (Host.run client es).passed, p = .ofRaw p.raw p.timestamp := by
  obtain ⟨hserial, hsent, -⟩ := host_refines client es
  intro p hp
  exact serialworker_sent_ofRaw hserial p (by rw [hsent]; simp [hp])

theorem forall₂_filterMap {α β : Type*} {R : α → β → Prop} {f : α → Option β} {l : List α}
    (h : ∀ a ∈ l, ∃ b, f a = some b ∧ R a b) : List.Forall₂ R l (l.filterMap f) := by
  induction l with
  | nil => exact .nil
  | cons a l ih =>
    obtain ⟨b, hb, hR⟩ := h a (by simp)
    rw [List.filterMap_cons_some hb]
    exact .cons hR (ih fun c hc => h c (by simp [hc]))

/-- The batches written, in their order, are the points of the raw strings written. -/
theorem written_points (client : Client) (es : List (Rendezvous.Event Read)) :
    List.Forall₂ (fun b raw => ∃ now, b.2 = [(decodePacket (.ofRaw raw now)).stamp.point])
      (Host.run client es).consumer.2.calls.written (Host.written (Host.run client es)) := by
  refine forall₂_filterMap fun b hb => ?_
  obtain ⟨p, hp, hpt⟩ := Host.written_point hb
  refine ⟨p.raw, by rw [hp]; rfl, p.timestamp, ?_⟩
  rw [hpt, ← passed_ofRaw client es p (List.mem_of_getElem? hp)]

/-- The batches written hold the points of the packets received that their raw strings come from. -/
theorem pointOf_written {addrToStr : List UInt8 → List UInt8}
    (haddr : ∀ a, a.length = 8 → ColonHex a (addrToStr a)) {items : List (List UInt8 × Received)}
    (hwf : ∀ x ∈ items, x.2.WellFormed) {client : Client} {es : List (Rendezvous.Event Read)}
    (hwritten : Host.written (Host.run client es) = items.map fun x => x.2.raw addrToStr) :
    List.Forall₂ (fun b x => ∃ pt, b.2 = [pt] ∧ x.2.PointOf addrToStr pt)
      (Host.run client es).consumer.2.calls.written items := by
  have hpoints := written_points client es
  rw [hwritten, List.forall₂_map_right_iff] at hpoints
  refine (List.Forall₂.imp ?_ ((List.forall₂_and_left _ _).mpr ⟨hwf, hpoints.flip⟩)).flip
  rintro x b ⟨hx, now, hb⟩
  exact ⟨_, hb, pointOf_raw haddr hx now⟩

/-- Whatever the order of the steps of both goroutines, the cut of the bytes into reads and the
answers of the database, the batches written so far hold exactly the points of the packets
received first over the air, one each and in order. -/
theorem database_holds_received (addrToStr : List UInt8 → List UInt8)
    (haddr : ∀ a, a.length = 8 → ColonHex a (addrToStr a)) (fuel : ℕ) (hfuel : 256 ≤ fuel)
    (items : List (List UInt8 × Received)) (htext : ∀ x ∈ items, ¬ ascii "<PAYLOAD=" <:+: x.1)
    (hwf : ∀ x ∈ items, x.2.WellFormed) (out : List UInt8)
    (hout : printed addrToStr fuel items = some out) (client : Client)
    (es : List (Rendezvous.Event Read)) (hreads : stream (Host.run client es).inputs <+: out) :
    let written := (Host.run client es).consumer.2.calls.written
    List.Forall₂ (fun b x => ∃ pt, b.2 = [pt] ∧ x.2.PointOf addrToStr pt) written
      (items.take written.length) := by
  obtain ⟨out', hout', hframes⟩ := rawFrames_printed haddr hfuel items htext hwf
  obtain rfl : out' = out := Option.some.inj (hout'.symm.trans hout)
  obtain ⟨rest, hrest⟩ := hreads
  have hprefix : Host.written (Host.run client es) <+: items.map fun x => x.2.raw addrToStr := by
    calc Host.written (Host.run client es)
        <+: rawFrames (stream (Host.run client es).inputs) := by
          rw [← Host.frames_eq client es, List.append_assoc, List.append_assoc]
          exact List.prefix_append _ _
      _ <+: rawFrames out' := by
          rw [← hrest]
          exact (payloadFrame.extract_prefix_append _ _).map _
      _ = _ := hframes
  have hlen := (written_points client es).length_eq
  have htake := List.prefix_iff_eq_take.mp hprefix
  rw [← hlen, ← List.map_take] at htake
  exact pointOf_written haddr (fun x hx => hwf x (List.mem_of_mem_take hx)) htake

/-- Two packets off the air. -/
def packetsOffAir : List (List UInt8 × Received) :=
  [(ascii "DEBUG", ⟨ascii "A:1", [0, 0, 0, 0, 0, 0, 0, 37], 120, -61⟩),
    ([], ⟨ascii "TEMP:+21.50", [0, 0, 0, 0, 0, 0, 0, 33], 255, -80⟩)]

/-- Their bytes in three reads, the second with the end of one frame and the start of the other. -/
def packetsOffAirRun : List (Rendezvous.Event Read) :=
  [.input ⟨ascii "DEBUG<PAYLOAD=413A31;SMAC=00:00:00:00:00:00", 7⟩, .turn,
    .input ⟨ascii ":00:25;LQI=120;RSSI=-61>\n<PAYLOAD=54454D50", 8⟩, .meet, .turn,
    .input ⟨ascii "3A2B32312E3530;SMAC=00:00:00:00:00:00:00:21;LQI=255;RSSI=-80>\n", 9⟩, .turn,
    .turn, .meet, .turn, .turn, .turn]

theorem database_holds_received_twoPackets :
    let written := (Host.run upClient packetsOffAirRun).consumer.2.calls.written
    written.length = 2 ∧ List.Forall₂ (fun b x => ∃ pt, b.2 = [pt] ∧ x.2.PointOf colonHexText pt)
      written (packetsOffAir.take written.length) := by
  refine ⟨by decide +kernel, ?_⟩
  refine database_holds_received colonHexText (fun a _ => colonHex_colonHexText a) 256 le_rfl
    packetsOffAir ?_ ?_ _ rfl upClient packetsOffAirRun ?_
  · decide
  · simp [packetsOffAir, Received.WellFormed, ascii]
  · decide +kernel

/-- The metrics of the payload are such as the database takes. -/
def Received.Deliverable (r : Received) : Prop :=
  (∀ f ∈ payloadFields r.data, f.1 ≠ []) ∧
    ∀ name ∈ [ascii "TEMP", ascii "HUMI"], ∀ v ∈ lastValue name (payloadFields r.data),
      (parseFloat v).1.Finite

theorem deliverable_raw {addrToStr : List UInt8 → List UInt8}
    (haddr : ∀ a, a.length = 8 → ColonHex a (addrToStr a)) {r : Received} (hr : r.WellFormed)
    (h : r.Deliverable) : Deliverable (r.raw addrToStr) := by
  intro payload hpayload
  rw [payloadText_raw haddr hr, Option.mem_some_iff] at hpayload
  rw [← hpayload]
  exact h

/-- At rest, with the database up, nothing waits but packets that it refuses. -/
theorem waiting_nil {client : Client} (hup : client.Up) {es : List (Rendezvous.Event Read)}
    (hrest : System.AtRest (host client) (Host.run client es))
    (hall : ∀ p ∈ (Host.run client es).passed, Deliverable p.raw) :
    Host.waiting (Host.run client es) = [] := by
  obtain ⟨-, -, hmain⟩ := host_refines client es
  rw [finish_of_waits hrest.waits] at hmain
  have hps := main_up hup
    (fun p hp => ⟨p.raw, p.timestamp, passed_ofRaw client es p hp, hall p hp⟩) hmain
  rw [Host.waiting, hps, List.map_nil]

/-- With the database up and at most one frame completed by each read, the program is at rest only
when all packets received, which the database takes, are written. -/
theorem written_complete {addrToStr : List UInt8 → List UInt8}
    (haddr : ∀ a, a.length = 8 → ColonHex a (addrToStr a)) {fuel : ℕ} (hfuel : 256 ≤ fuel)
    {items : List (List UInt8 × Received)} (htext : ∀ x ∈ items, ¬ ascii "<PAYLOAD=" <:+: x.1)
    (hwf : ∀ x ∈ items, x.2.WellFormed)
    (hdeliverable : ∀ x ∈ items, Deliverable (x.2.raw addrToStr)) {out : List UInt8}
    (hout : printed addrToStr fuel items = some out) {client : Client} (hup : client.Up)
    {es : List (Rendezvous.Event Read)} (hreads : stream (Host.run client es).inputs = out)
    (hone : ∀ rs r, rs ++ [r] <+: (Host.run client es).inputs → r.bytes ≠ [] →
      CompletesAtMostOne rs r)
    (hrest : System.AtRest (host client) (Host.run client es)) :
    Host.written (Host.run client es) = items.map fun x => x.2.raw addrToStr := by
  obtain ⟨out', hout', hframes⟩ := rawFrames_printed haddr hfuel items htext hwf
  obtain rfl : out' = out := Option.some.inj (hout'.symm.trans hout)
  have hpassed : (Host.run client es).passed.map (·.raw) ++
      rawFrames (Host.run client es).producer.buftotal = items.map fun x => x.2.raw addrToStr := by
    have hall := Host.frames_eq client es
    rw [Host.written_waiting_raw client es, hrest.sending, hreads, hframes] at hall
    simpa using hall
  have hbuf : rawFrames (Host.run client es).producer.buftotal = [] := by
    obtain ⟨hserial, -, -⟩ := host_refines client es
    obtain ⟨s, hs, hd⟩ := delivered_of_completesAtMostOne hone
    obtain rfl := Option.some.inj (hs.symm.trans hserial)
    exact rawFrames_eq_nil_iff.mpr hd.1
  have hwaiting : Host.waiting (Host.run client es) = [] := by
    refine waiting_nil hup hrest fun p hp => ?_
    have hraw : p.raw ∈ items.map fun x => x.2.raw addrToStr := by
      rw [← hpassed]
      exact List.mem_append_left _ (List.mem_map_of_mem hp)
    obtain ⟨x, hx, hxp⟩ := List.mem_map.mp hraw
    rw [← hxp]
    exact hdeliverable x hx
  rw [← hpassed, hbuf, ← Host.written_waiting_raw client es, hwaiting, List.append_nil,
    List.append_nil]

/-- With the database up and at most one frame completed by each read, the program comes to rest
only when every packet received over the air is in the database, once and in order. -/
theorem database_complete (addrToStr : List UInt8 → List UInt8)
    (haddr : ∀ a, a.length = 8 → ColonHex a (addrToStr a)) (fuel : ℕ) (hfuel : 256 ≤ fuel)
    (items : List (List UInt8 × Received)) (htext : ∀ x ∈ items, ¬ ascii "<PAYLOAD=" <:+: x.1)
    (hwf : ∀ x ∈ items, x.2.WellFormed) (hdeliverable : ∀ x ∈ items, x.2.Deliverable)
    (out : List UInt8) (hout : printed addrToStr fuel items = some out) (client : Client)
    (hup : client.Up) (es : List (Rendezvous.Event Read))
    (hreads : stream (Host.run client es).inputs = out)
    (hone : ∀ rs r, rs ++ [r] <+: (Host.run client es).inputs → r.bytes ≠ [] →
      CompletesAtMostOne rs r)
    (hrest : System.AtRest (host client) (Host.run client es)) :
    List.Forall₂ (fun b x => ∃ pt, b.2 = [pt] ∧ x.2.PointOf addrToStr pt)
      (Host.run client es).consumer.2.calls.written items :=
  pointOf_written haddr hwf (written_complete haddr hfuel htext hwf
    (fun x hx => deliverable_raw haddr (hwf x hx) (hdeliverable x hx)) hout hup hreads hone hrest)

instance (reads : List Read) (r : Read) : Decidable (CompletesAtMostOne reads r) :=
  inferInstanceAs (Decidable (_ ≤ _))

/-- No read completes two frames, checked read by read. -/
theorem completesAtMostOne_of_getElem {reads : List Read}
    (h : ∀ i : Fin reads.length, CompletesAtMostOne (reads.take i) reads[i]) :
    ∀ rs r, rs ++ [r] <+: reads → r.bytes ≠ [] → CompletesAtMostOne rs r := by
  rintro rs r ⟨rest, rfl⟩ -
  simpa using h ⟨rs.length, by simp⟩

theorem database_complete_twoPackets :
    List.Forall₂ (fun b x => ∃ pt, b.2 = [pt] ∧ x.2.PointOf colonHexText pt)
      (Host.run upClient packetsOffAirRun).consumer.2.calls.written packetsOffAir := by
  have hrest : System.AtRest (host upClient) (Host.run upClient packetsOffAirRun) :=
    atRest_of_receiving (by decide +kernel) (by decide +kernel) (by decide +kernel)
  refine database_complete colonHexText (fun a _ => colonHex_colonHexText a) 256 le_rfl packetsOffAir
    ?_ ?_ ?_ _ rfl upClient upClient_up packetsOffAirRun (by decide +kernel) ?_ hrest
  · decide
  · simp [packetsOffAir, Received.WellFormed, ascii]
  · intro x hx
    rcases List.mem_pair.mp hx with rfl | rfl
    · exact ⟨by decide, by decide⟩
    · exact ⟨by decide, by decide +kernel⟩
  · exact completesAtMostOne_of_getElem (by decide +kernel)

end OflMotes.Gateway
