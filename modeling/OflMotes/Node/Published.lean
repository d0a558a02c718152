import OflMotes.Gateway.Database
import OflMotes.Node.Messages

/-! From the nodes to the database: the entries that the gateway makes of each text that a node
transmits, and the points that come of a mixture of all of them. -/
namespace OflMotes.Node
open Ascii Fields Gateway Rendezvous

/-- What a node has to say. -/
inductive Message
  | report (label : UInt8) (m : Meter)
  | housekeeping (bat : Int32) (loopCntr : UInt16)
  | moteReport (label : UInt8) (m : Meter)
  | device (bat : Int32)
  | measurement (bat : Int32) (temperature : Int16) (pressure : UInt32) (humidity : UInt16)
  deriving DecidableEq

namespace Message

/-- The text that the node transmits. -/
def text : Message → List UInt8
  | .report label m => Node.report label m
  | .housekeeping bat loopCntr => Node.housekeeping bat loopCntr
  | .moteReport label m => MoteTeleinfo.report label m
  | .device bat => MoteTeleinfo.deviceText bat
  | .measurement bat t p h => txMsg bat (sensorMeasure t p h)

/-- The numbers that it says, fractions as the nearest 64-bit floats. -/
def entries : Message → List (List UInt8 × Value)
  | .report label m => reportEntries label m
  | .housekeeping bat loopCntr => [(ascii "FWRV", .int 1), (ascii "BATL", .int bat.toInt),
      (ascii "LOOP", .int loopCntr.toNat)]
  | .moteReport label m => reportEntries label m
  | .device bat => [(ascii "BATLEV", .int bat.toInt)]
  | .measurement bat t p h => [(ascii "VER", .int 1), (ascii "BATLEV", .int bat.toInt),
      (ascii "TEMP", .float (.num (toFloat64 (t.toInt / 100)))), (ascii "PRES", .int (p.toNat / 100)),
      (ascii "HUMI", .float (.num (toFloat64 (h.toNat / 100))))]

/-- The keys under which it says a word. -/
def words : Message → List (List UInt8)
  | .device _ | .measurement .. => [ascii "DEVICE"]
  | _ => []

/-- The temperature of a measurement is not negative: `sensor_measure` loses the sign. -/
def Unsigned : Message → Prop
  | .measurement _ t _ _ => 0 ≤ t.toInt
  | _ => True

/-- What the database is to hold: the numbers, and a zero for each word. -/
def recorded (msg : Message) : List (List UInt8 × Value) :=
  msg.entries ++ msg.words.map fun k => (k, .int 0)

end Message

theorem payloadFields_deviceText (bat : Int32) :
    payloadFields (MoteTeleinfo.deviceText bat) =
      [(ascii "DEVICE", ascii "TELEINFO"), (ascii "BATLEV", signed bat.toInt)] := by
  have hne : byte ';' ≠ byte ':' := by decide
  have hbat : byte ';' ∉ signed bat.toInt ∧ byte ':' ∉ signed bat.toInt :=
    ⟨notMem_signed (by decide) (by decide) _, notMem_signed (by decide) (by decide) _⟩
  have htext : MoteTeleinfo.deviceText bat = ascii "DEVICE" ++ byte ':' :: (ascii "TELEINFO" ++
      byte ';' :: (ascii "VER=1" ++ byte ';' :: (ascii "BATLEV" ++ byte ':' :: signed bat.toInt))) := by
    simp [MoteTeleinfo.deviceText, ascii]
  have hversion : fields (byte ';') (byte ':') (ascii "VER=1") = [] := by decide
  rw [htext, payloadFields, fields_cons _ _ (by decide) (by decide) hne, fields_append_cons, hversion,
    fields_singleton _ _ (by decide) hbat hne]
  rfl

/-- The measurement that the driver reports as an error. -/
theorem payloadFields_minValue (p : UInt32) (h : UInt16) (bat : Int32) :
    payloadFields (txMsg bat (sensorMeasure Int16.minValue p h)) =
      [(ascii "DEVICE", ascii "DEV"), (ascii "VER", ascii "01"), (ascii "BATLEV", signed bat.toInt),
        (ascii "TEMP", ascii "--327.-68"), (ascii "PRES", fmtNat 4 (p.toNat / 100)),
        (ascii "HUMI", hundredths h.toNat)] := by
  have hsensor : sensorMeasure Int16.minValue p h = ⟨Int16.minValue, p, h⟩ := by
    simp only [sensorMeasure, show Int16.minValue < 0 by decide, decide_true, if_true,
      show -Int16.minValue = Int16.minValue by decide]
  have htemp : [if Int16.minValue < 0 then byte '-' else byte '+'] ++
      fmtInt 2 (Int16.minValue.toInt.tdiv 100) ++ ascii "." ++
        fmtInt 2 (Int16.minValue.toInt.tmod 100) = ascii "--327.-68" := by decide
  have hne : byte ';' ≠ byte ':' := by decide
  have hsemi : hexVal (byte ';') = none := by decide
  have hcolon : hexVal (byte ':') = none := by decide
  have hbat : byte ';' ∉ signed bat.toInt ∧ byte ':' ∉ signed bat.toInt :=
    ⟨notMem_signed hsemi (by decide) _, notMem_signed hcolon (by decide) _⟩
  have htext : txMsg bat (sensorMeasure Int16.minValue p h) =
      ascii "DEVICE" ++ byte ':' :: (ascii "DEV" ++ byte ';' :: (ascii "VER" ++ byte ':' ::
      (ascii "01" ++ byte ';' :: (ascii "BATLEV" ++ byte ':' :: (signed bat.toInt ++ byte ';' ::
      (ascii "TEMP" ++ byte ':' :: (ascii "--327.-68" ++ byte ';' ::
      (ascii "PRES" ++ byte ':' :: (fmtNat 4 (p.toNat / 100) ++ byte ';' ::
      (ascii "HUMI" ++ byte ':' :: hundredths h.toNat)))))))))) := by
    have hdiv : fmtInt 2 ((h.toNat : ℤ).tdiv 100) = fmtNat 2 (h.toNat / 100) := fmtInt_ofNat 2 _
    have hmod : fmtInt 2 ((h.toNat : ℤ).tmod 100) = fmtNat 2 (h.toNat % 100) := fmtInt_ofNat 2 _
    rw [hsensor, ← htemp, txMsg, hdiv, hmod]
    simp [ascii, hundredths, fixedPoint]
  rw [htext, payloadFields, fields_cons _ _ (by decide) (by decide) hne,
    fields_cons _ _ (by decide) (by decide) hne, fields_cons _ _ (by decide) hbat hne,
    fields_cons _ _ (by decide) (by decide) hne,
    fields_cons _ _ (by decide) ⟨notMem_fmtNat hsemi _ _, notMem_fmtNat hcolon _ _⟩ hne,
    fields_singleton _ _ (by decide)
      ⟨notMem_hundredths hsemi (by decide) _, notMem_hundredths hcolon (by decide) _⟩ hne]

theorem fieldValue_measurement (bat : Int32) (p : UInt32) (h : UInt16) :
    fieldValue (ascii "BATLEV") (signed bat.toInt) = .int bat.toInt ∧
      fieldValue (ascii "PRES") (fmtNat 4 (p.toNat / 100)) = .int (p.toNat / 100) ∧
      fieldValue (ascii "HUMI") (hundredths h.toNat) =
        .float (.num (toFloat64 (h.toNat / 100))) := by
  have hblo := bat.le_toInt
  have hbhi := bat.toInt_lt
  have hp := p.toNat_lt
  have hh := h.toNat_lt
  refine ⟨fieldValue_signed (by decide) (by decide) (by omega) (by omega), ?_, ?_⟩
  · rw [fieldValue, fieldValueWith, if_neg (by decide),
      parseInt_digits (fmtNat_ne_nil _ _) (isDigit_fmtNat _ _) (by rw [numeral_fmtNat]; omega),
      numeral_fmtNat]
    rfl
  · rw [fieldValue, fieldValueWith, if_pos (.inr rfl), parseFloat_hundredths (by omega) (.inl rfl)]

/-- The fields of a measurement, whatever the driver reports: a temperature that is not negative is
read as itself. -/
theorem payloadFields_measurement (bat : Int32) (t : Int16) (p : UInt32) (h : UInt16) :
    ∃ temp q, payloadFields (txMsg bat (sensorMeasure t p h)) =
        [(ascii "DEVICE", ascii "DEV"), (ascii "VER", ascii "01"),
          (ascii "BATLEV", signed bat.toInt), (ascii "TEMP", temp),
          (ascii "PRES", fmtNat 4 (p.toNat / 100)), (ascii "HUMI", hundredths h.toNat)] ∧
      fieldValue (ascii "TEMP") temp = .float (.num q) ∧
      (0 ≤ t.toInt → q = toFloat64 (t.toInt / 100)) := by
  by_cases ht : t = Int16.minValue
  · subst ht
    exact ⟨_, 0, payloadFields_minValue p h bat, by decide +kernel, fun h => absurd h (by decide)⟩
  · refine ⟨_, toFloat64 (t.toInt.natAbs / 100), txMsg_sensorMeasure ht p h bat, ?_, fun hpos => ?_⟩
    · have htlo := t.le_toInt
      have hthi := t.toInt_lt
      rw [fieldValue, fieldValueWith, if_pos (.inl rfl),
        parseFloat_hundredths (by omega) (.inr rfl)]
    · rw [Nat.cast_natAbs, abs_of_nonneg hpos]

/-- What the gateway makes of a measurement. -/
theorem holds_measurement {raw : List UInt8} {bat : Int32} {t : Int16} {p : UInt32} {h : UInt16}
    (hraw : hexDecode (payloadText raw) = some (txMsg bat (sensorMeasure t p h))) (now : ℕ) :
    ∃ q, Holds (decodePacket (.ofRaw raw now)).datamap [(ascii "DEVICE", .int 0),
        (ascii "VER", .int 1), (ascii "BATLEV", .int bat.toInt), (ascii "TEMP", .float (.num q)),
        (ascii "PRES", .int (p.toNat / 100)),
        (ascii "HUMI", .float (.num (toFloat64 (h.toNat / 100))))] ∧
      (0 ≤ t.toInt → q = toFloat64 (t.toInt / 100)) := by
  obtain ⟨temp, q, hfields, htemp, hq⟩ := payloadFields_measurement bat t p h
  have hkeys : ((payloadFields (txMsg bat (sensorMeasure t p h))).map Prod.fst).Nodup := by
    rw [hfields]
    simp only [List.map_cons, List.map_nil]
    decide
  have hholds := holds_of_nodup hraw hkeys now
  have hword : fieldValue (ascii "DEVICE") (ascii "DEV") = .int 0 := by decide
  have hversion : fieldValue (ascii "VER") (ascii "01") = .int 1 := by decide
  obtain ⟨hbat, hpres, hhumi⟩ := fieldValue_measurement bat p h
  rw [hfields] at hholds
  simp only [List.map_cons, List.map_nil, hword, hversion, htemp, hbat, hpres, hhumi] at hholds
  exact ⟨q, hholds, hq⟩

theorem holds_device {raw : List UInt8} {bat : Int32}
    (hraw : hexDecode (payloadText raw) = some (MoteTeleinfo.deviceText bat)) (now : ℕ) :
    Holds (decodePacket (.ofRaw raw now)).datamap
      [(ascii "DEVICE", .int 0), (ascii "BATLEV", .int bat.toInt)] := by
  have hfields := payloadFields_deviceText bat
  have hkeys : ((payloadFields (MoteTeleinfo.deviceText bat)).map Prod.fst).Nodup := by
    rw [hfields]
    simp only [List.map_cons, List.map_nil]
    decide
  have hholds := holds_of_nodup hraw hkeys now
  have hword : fieldValue (ascii "DEVICE") (ascii "TELEINFO") = .int 0 := by decide
  rw [hfields] at hholds
  simp only [List.map_cons, List.map_nil, hword, (fieldValue_measurement bat 0 0).1] at hholds
  exact hholds

theorem Holds.of_mem_iff {m : Datamap} {es fs : List (List UInt8 × Value)} (h : Holds m es)
    (hmem : ∀ e, e ∈ es ↔ e ∈ fs) : Holds m fs :=
  fun k v => (h k v).trans (hmem (k, v))

/-- The gateway makes of each text its message's numbers, and zeros of its words. -/
theorem holds_text {msg : Message} (hmsg : msg.Unsigned) {raw : List UInt8}
    (hraw : hexDecode (payloadText raw) = some msg.text) (now : ℕ) :
    Holds (decodePacket (.ofRaw raw now)).datamap msg.recorded := by
  cases msg with
  | report label m =>
    have hfields : payloadFields (Message.report label m).text = payloadFields (reportText label m) := by
      rw [Message.text, report_eq, payloadFields_semicolon]
    exact (holds_reportEntries hraw hfields now).of_mem_iff fun e => by
      simp [Message.recorded, Message.entries, Message.words]
  | housekeeping bat loopCntr =>
    exact (holds_housekeeping hraw now).of_mem_iff fun e => by
      simp [Message.recorded, Message.entries, Message.words]
  | moteReport label m =>
    exact (holds_reportEntries hraw rfl now).of_mem_iff fun e => by
      simp [Message.recorded, Message.entries, Message.words]
  | device bat =>
    exact (holds_device hraw now).of_mem_iff fun e => by
      simp [Message.recorded, Message.entries, Message.words, or_comm]
  | measurement bat t p h =>
    obtain ⟨q, hholds, hq⟩ := holds_measurement hraw now
    rw [hq hmsg] at hholds
    refine hholds.of_mem_iff fun e => ?_
    simp only [Message.recorded, Message.entries, Message.words, List.map_cons, List.map_nil,
      List.mem_append, List.mem_cons, List.not_mem_nil, or_false]
    exact or_comm

/-- The key is none of the radio's, and the database takes it. -/
def Ordinary (k : List UInt8) : Prop := k ≠ [] ∧ k ≠ ascii "LQI" ∧ k ≠ ascii "RSSI"

instance (k : List UInt8) : Decidable (Ordinary k) := by unfold Ordinary; infer_instance

theorem ordinary_of_length {k : List UInt8} (h : 4 < k.length) : Ordinary k := by
  refine ⟨?_, ?_, ?_⟩ <;> rintro rfl <;> exact absurd h (by decide)

theorem ordinary_reportKey (l : Label) (label : UInt8) : Ordinary (reportKey l label) := by
  have hpos := List.length_pos_of_ne_nil (decimal_ne_nil label.toNat)
  have htext : 4 ≤ l.text.length := by cases l <;> decide
  apply ordinary_of_length
  rw [reportKey, List.length_append]
  omega

theorem ordinary_reportEntries (label : UInt8) (m : Meter) :
    ∀ k ∈ (reportEntries label m).map Prod.fst, Ordinary k := by
  have hkeys : (reportEntries label m).map Prod.fst =
      [Label.papp, .base, .iinst].map fun l => reportKey l label := rfl
  intro k hk
  rw [hkeys] at hk
  obtain ⟨l, -, rfl⟩ := List.mem_map.mp hk
  exact ordinary_reportKey l label

theorem Message.ordinary_key (msg : Message) : ∀ k ∈ msg.recorded.map Prod.fst, Ordinary k := by
  cases msg with
  | report label m =>
    simpa [recorded, entries, words] using ordinary_reportEntries label m
  | moteReport label m =>
    simpa [recorded, entries, words] using ordinary_reportEntries label m
  | housekeeping bat loopCntr =>
    simp only [recorded, entries, words, List.map_append, List.map_cons, List.map_nil]
    decide
  | device bat =>
    simp only [recorded, entries, words, List.map_append, List.map_cons, List.map_nil]
    decide
  | measurement bat t p h =>
    simp only [recorded, entries, words, List.map_append, List.map_cons, List.map_nil]
    decide

/-- A datamap whose entries are finite and under proper names makes a point. -/
theorem deliverable_of_holds {raw : List UInt8} {es : List (List UInt8 × Value)}
    (h : Holds (decodePacket (.ofRaw raw 0)).datamap es) (hkeys : [] ∉ es.map Prod.fst)
    (hfinite : ∀ e ∈ es, e.2.Finite) : Deliverable raw := by
  rw [← accepted_decodePacket_iff raw 0, accepted_stamp_iff]
  constructor
  · rw [Option.eq_none_iff_forall_ne_some]
    intro v hv
    exact hkeys (List.mem_map_of_mem ((h [] v).mp hv))
  · intro k v _ _ hv
    exact hfinite _ ((h k v).mp hv)

/-- No text that a node transmits makes the database refuse a point. -/
theorem deliverable_text (msg : Message) {raw : List UInt8}
    (hraw : hexDecode (payloadText raw) = some msg.text) : Deliverable raw := by
  by_cases hmsg : msg.Unsigned
  · refine deliverable_of_holds (holds_text hmsg hraw 0)
      (fun hnil => (msg.ordinary_key [] hnil).1 rfl) ?_
    cases msg <;> simp [Message.recorded, Message.entries, Message.words, reportEntries,
      Value.Finite, Float64.Finite]
  · cases msg with
    | measurement bat t p h =>
      obtain ⟨q, hholds, -⟩ := holds_measurement hraw 0
      refine deliverable_of_holds hholds ?_ (by simp [Value.Finite, Float64.Finite])
      simp only [List.map_cons, List.map_nil]
      decide
    | _ => exact absurd trivial hmsg

/-- The point of a message: tagged with the node's address, with the numbers of the message, a zero
for each of its words, the numbers of the radio, and nothing else. -/
structure PointOfMessage (addrToStr : List UInt8 → List UInt8) (r : Received) (msg : Message)
    (pt : Point) : Prop where
  tags : pt.tags = [(ascii "ID", addrToStr r.src)]
  fields : Holds pt.fields
    (msg.recorded ++ [(ascii "RSSI", .int r.rssi.toInt), (ascii "LQI", .int r.lqi.toNat)])

theorem pointOfMessage_of_pointOf {addrToStr : List UInt8 → List UInt8}
    (haddr : ∀ a, a.length = 8 → ColonHex a (addrToStr a)) {r : Received} (hr : r.WellFormed)
    {msg : Message} (hunsigned : msg.Unsigned) (hmsg : r.data = msg.text) {pt : Point}
    (h : r.PointOf addrToStr pt) :
    PointOfMessage addrToStr r msg pt := by
  refine ⟨h.tags, fun k v => ?_⟩
  have hraw := payloadText_raw haddr hr
  have hmetrics : (decodePacket (.ofRaw (r.raw addrToStr) 0)).datamap.lookup k = metrics r.data k := by
    rw [lookup_decodePacket, hraw]
    rfl
  have hentries : metrics r.data k = some v ↔ (k, v) ∈ msg.recorded := by
    rw [← hmetrics]
    exact holds_text hunsigned (hraw.trans (congrArg some hmsg)) 0 k v
  have hkey (h : (k, v) ∈ msg.recorded) : Ordinary k := msg.ordinary_key k (List.mem_map_of_mem h)
  rw [h.fields k, List.mem_append]
  simp only [List.mem_cons, Prod.mk.injEq, List.not_mem_nil, or_false]
  split_ifs with hlqi hrssi
  · subst hlqi
    have hnot : (ascii "LQI", v) ∉ msg.recorded := fun hmem => (hkey hmem).2.1 rfl
    have hne : ascii "LQI" ≠ ascii "RSSI" := by decide
    simp [hnot, hne, eq_comm]
  · subst hrssi
    have hnot : (ascii "RSSI", v) ∉ msg.recorded := fun hmem => (hkey hmem).2.2 rfl
    simp [hnot, hlqi, eq_comm]
  · rw [hentries]
    simp [hlqi, hrssi]

/-- A batch holds the point of a packet from a node and nothing else: it has the tag of the node, and
it is the point of the packet's message, unless that is a temperature below zero. -/
def Published (addrToStr : List UInt8 → List UInt8) (b : ℕ × List Point) (r : Received) : Prop :=
  ∃ pt, b.2 = [pt] ∧ pt.tags = [(ascii "ID", addrToStr r.src)] ∧
    ∀ msg : Message, msg.Unsigned → r.data = msg.text → PointOfMessage addrToStr r msg pt

/-- With the database up and at most one frame completed by each read, the points of all messages
are written by the time the program comes to rest. -/
theorem points_of_messages {addrToStr : List UInt8 → List UInt8}
    (haddr : ∀ a, a.length = 8 → ColonHex a (addrToStr a)) {fuel : ℕ} (hfuel : 256 ≤ fuel)
    {items : List (List UInt8 × Received)} (htext : ∀ x ∈ items, ¬ ascii "<PAYLOAD=" <:+: x.1)
    (hwf : ∀ x ∈ items, x.2.WellFormed) (hmsg : ∀ x ∈ items, ∃ msg : Message, x.2.data = msg.text)
    {out : List UInt8} (hout : printed addrToStr fuel items = some out) {client : Client}
    (hup : client.Up) {es : List (Rendezvous.Event Read)}
    (hreads : stream (Host.run client es).inputs = out)
    (hone : ∀ rs r, rs ++ [r] <+: (Host.run client es).inputs → r.bytes ≠ [] →
      CompletesAtMostOne rs r)
    (hrest : System.AtRest (host client) (Host.run client es)) :
    List.Forall₂ (fun b x => Published addrToStr b x.2)
      (Host.run client es).consumer.2.calls.written items := by
  have hdeliverable : ∀ x ∈ items, Deliverable (x.2.raw addrToStr) := by
    intro x hx
    obtain ⟨msg, hdata⟩ := hmsg x hx
    exact deliverable_text msg ((payloadText_raw haddr (hwf x hx)).trans (congrArg some hdata))
  have hpoints := pointOf_written haddr hwf
    (written_complete haddr hfuel htext hwf hdeliverable hout hup hreads hone hrest)
  refine (List.Forall₂.imp ?_ ((List.forall₂_and_left _ _).mpr ⟨hwf, hpoints.flip⟩)).flip
  rintro x b ⟨hx, pt, hb, hpt⟩
  exact ⟨pt, hb, hpt.tags,
    fun msg hunsigned hdata => pointOfMessage_of_pointOf haddr hx hunsigned hdata hpt⟩

end OflMotes.Node
