import OflMotes.Node.Bme280
import OflMotes.Node.MeterValue

/-! The texts that the nodes transmit: what the gateway decodes of them, and whether they fit their
buffers and the radio. -/
namespace OflMotes.Node
open Ascii Fields Gateway

/-- `main` of `node-teleinfo`: the housekeeping frame. -/
def housekeeping (bat : Int32) (loopCntr : UInt16) : List UInt8 :=
  ascii "FWRV:01;BATL:" ++ signed bat.toInt ++ ascii ";LOOP:" ++ decimal loopCntr.toNat

/-- `main` of `mote-teleinfo`: the periodic frame. -/
def MoteTeleinfo.deviceText (bat : Int32) : List UInt8 :=
  ascii "DEVICE:TELEINFO;VER=1;BATLEV:" ++ signed bat.toInt

/-- What `data_tx` of `node-teleinfo` does: whether it warns of a large payload, and the payload. -/
structure Tx where
  warned : Bool
  payload : List UInt8
  deriving DecidableEq

/-- `data_tx` of `node-teleinfo`, whose size argument is a `char`. -/
def dataTx (data : List UInt8) (dataSz : UInt8) : Tx :=
  ⟨decide (45 < dataSz.toNat), data.take dataSz.toNat⟩

/-- `data_tx(text, strlen(text))` on a terminated text. -/
def transmit (text : List UInt8) : Tx :=
  dataTx (text ++ [0]) (UInt8.ofNat (strlen (text ++ [0])))

/-- The datamap holds these entries and no others. -/
def Holds (m : Datamap) (entries : List (List UInt8 × Value)) : Prop :=
  ∀ k v, m.lookup k = some v ↔ (k, v) ∈ entries

/-- A payload without repeated keys is decoded to the values of its fields. -/
theorem holds_of_nodup {raw payload : List UInt8} (hraw : hexDecode (payloadText raw) = some payload)
    (hnodup : ((payloadFields payload).map Prod.fst).Nodup) (now : ℕ) :
    Holds (decodePacket (.ofRaw raw now)).datamap
      ((payloadFields payload).map fun f => (f.1, fieldValue f.1 f.2)) := by
  intro k v
  rw [lookup_decodePacket, hraw, Option.bind_some, Option.map_eq_some_iff, List.mem_map]
  constructor
  · rintro ⟨w, hw, rfl⟩
    exact ⟨(k, w), (lastValue_eq_some_iff hnodup).mp hw, rfl⟩
  · rintro ⟨⟨k', w⟩, hw, he⟩
    obtain ⟨rfl, rfl⟩ := Prod.mk.inj he
    exact ⟨w, (lastValue_eq_some_iff hnodup).mpr hw, rfl⟩

theorem fieldValue_signed {k : List UInt8} (htemp : k ≠ ascii "TEMP") (hhumi : k ≠ ascii "HUMI")
    {z : ℤ} (hlo : -2 ^ 63 ≤ z) (hhi : z < 2 ^ 63) : fieldValue k (signed z) = .int z := by
  rw [fieldValue, fieldValueWith, if_neg (by simp [htemp, hhumi]), parseInt_signed hlo hhi]

/-- The key of a label's value in a report. -/
def reportKey (l : Label) (label : UInt8) : List UInt8 := l.text ++ decimal label.toNat

theorem reportKey_injective (label : UInt8) : Function.Injective fun l => reportKey l label := by
  intro k l h
  have htext : k.text = l.text := List.append_cancel_right h
  cases k <;> cases l <;> first | rfl | exact absurd htext (by decide)

/-- The label's digit keeps a key apart from the two fractional ones. -/
theorem reportKey_ne (l : Label) (label : UInt8) :
    reportKey l label ≠ ascii "TEMP" ∧ reportKey l label ≠ ascii "HUMI" := by
  have hpos := List.length_pos_of_ne_nil (decimal_ne_nil label.toNat)
  have hlen : 4 < (reportKey l label).length := by
    have htext : 4 ≤ l.text.length := by cases l <;> decide
    rw [reportKey, List.length_append]
    omega
  constructor
  · rintro h
    rw [h] at hlen
    exact absurd hlen (by decide)
  · rintro h
    rw [h] at hlen
    exact absurd hlen (by decide)

theorem notMem_reportKey {b : UInt8} (hb : hexVal b = none) {l : Label} (hl : b ∉ l.text)
    (label : UInt8) : b ∉ reportKey l label := by
  simp [reportKey, hl, notMem_decimal hb]

theorem payloadFields_reportText (label : UInt8) (m : Meter) :
    payloadFields (reportText label m) = [(reportKey .papp label, signed (m.get .papp)),
      (reportKey .base label, signed (m.get .base)),
      (reportKey .iinst label, signed (m.get .iinst))] := by
  have hne : byte ';' ≠ byte ':' := by decide
  have hsemi : hexVal (byte ';') = none := by decide
  have hcolon : hexVal (byte ':') = none := by decide
  have hkey (l : Label) : byte ';' ∉ reportKey l label ∧ byte ':' ∉ reportKey l label :=
    ⟨notMem_reportKey hsemi (by cases l <;> decide) label,
      notMem_reportKey hcolon (by cases l <;> decide) label⟩
  have hvalue (z : ℤ) : byte ';' ∉ signed z ∧ byte ':' ∉ signed z :=
    ⟨notMem_signed hsemi (by decide) z, notMem_signed hcolon (by decide) z⟩
  have htext : reportText label m =
      reportKey .papp label ++ byte ':' :: (signed (m.get .papp) ++ byte ';' ::
      (reportKey .base label ++ byte ':' :: (signed (m.get .base) ++ byte ';' ::
      (reportKey .iinst label ++ byte ':' :: signed (m.get .iinst))))) := by
    simp [reportText_eq, printedField, reportKey]
  rw [htext, payloadFields, fields_cons _ _ (hkey _) (hvalue _) hne,
    fields_cons _ _ (hkey _) (hvalue _) hne, fields_singleton _ _ (hkey _) (hvalue _) hne]

/-- A semicolon at the end adds no field. -/
theorem payloadFields_semicolon (text : List UInt8) :
    payloadFields (text ++ ascii ";") = payloadFields text := by
  have h := fields_append_cons (byte ';') (byte ':') text []
  have hnil : fields (byte ';') (byte ':') [] = [] := by decide
  rw [hnil, List.append_nil] at h
  exact h

/-- The entries that a report stands for. -/
def reportEntries (label : UInt8) (m : Meter) : List (List UInt8 × Value) :=
  [(ascii "PAPP" ++ decimal label.toNat, .int m.papp.toInt),
    (ascii "BASE" ++ decimal label.toNat, .int m.base.toInt),
    (ascii "IINST" ++ decimal label.toNat, .int m.iinst.toInt)]

theorem Meter.get_mem_int64 (m : Meter) (l : Label) : -2 ^ 63 ≤ m.get l ∧ m.get l < 2 ^ 63 := by
  have hpapp := And.intro m.papp.le_toInt m.papp.toInt_lt
  have hiinst := And.intro m.iinst.le_toInt m.iinst.toInt_lt
  have hbase := And.intro m.base.le_toInt m.base.toInt_lt
  cases l <;> simp only [Meter.get] <;> omega

/-- A payload with the fields of a report is decoded to its three numbers. -/
theorem holds_reportEntries {raw payload : List UInt8} {label : UInt8} {m : Meter}
    (hraw : hexDecode (payloadText raw) = some payload)
    (hfields : payloadFields payload = payloadFields (reportText label m)) (now : ℕ) :
    Holds (decodePacket (.ofRaw raw now)).datamap (reportEntries label m) := by
  rw [payloadFields_reportText] at hfields
  have hkeys : ((payloadFields payload).map Prod.fst).Nodup := by
    have hmap : (payloadFields payload).map Prod.fst =
        [Label.papp, .base, .iinst].map fun l => reportKey l label := by
      rw [hfields]
      rfl
    rw [hmap, List.nodup_map_iff (reportKey_injective label)]
    decide
  have hvalue (l : Label) : fieldValue (reportKey l label) (signed (m.get l)) = .int (m.get l) :=
    fieldValue_signed (reportKey_ne l label).1 (reportKey_ne l label).2 (m.get_mem_int64 l).1
      (m.get_mem_int64 l).2
  have h := holds_of_nodup hraw hkeys now
  rw [hfields] at h
  simp only [List.map_cons, List.map_nil, hvalue] at h
  exact h

theorem payloadFields_housekeeping (bat : Int32) (loopCntr : UInt16) :
    payloadFields (housekeeping bat loopCntr) = [(ascii "FWRV", ascii "01"),
      (ascii "BATL", signed bat.toInt), (ascii "LOOP", decimal loopCntr.toNat)] := by
  have hne : byte ';' ≠ byte ':' := by decide
  have hsemi : hexVal (byte ';') = none := by decide
  have hcolon : hexVal (byte ':') = none := by decide
  have htext : housekeeping bat loopCntr =
      ascii "FWRV" ++ byte ':' :: (ascii "01" ++ byte ';' :: (ascii "BATL" ++ byte ':' ::
      (signed bat.toInt ++ byte ';' :: (ascii "LOOP" ++ byte ':' :: decimal loopCntr.toNat)))) := by
    simp [housekeeping, ascii]
  rw [htext, payloadFields, fields_cons _ _ (by decide) (by decide) hne,
    fields_cons _ _ (by decide)
      ⟨notMem_signed hsemi (by decide) _, notMem_signed hcolon (by decide) _⟩ hne,
    fields_singleton _ _ (by decide) ⟨notMem_decimal hsemi _, notMem_decimal hcolon _⟩ hne]

theorem holds_housekeeping {raw : List UInt8} {bat : Int32} {loopCntr : UInt16}
    (hraw : hexDecode (payloadText raw) = some (housekeeping bat loopCntr)) (now : ℕ) :
    Holds (decodePacket (.ofRaw raw now)).datamap [(ascii "FWRV", .int 1),
      (ascii "BATL", .int bat.toInt), (ascii "LOOP", .int loopCntr.toNat)] := by
  have hlo := bat.le_toInt
  have hhi := bat.toInt_lt
  have hloop := loopCntr.toNat_lt
  have hbat : fieldValue (ascii "BATL") (signed bat.toInt) = .int bat.toInt :=
    fieldValue_signed (by decide) (by decide) (by omega) (by omega)
  have hcntr : fieldValue (ascii "LOOP") (decimal loopCntr.toNat) = .int loopCntr.toNat := by
    rw [fieldValue, fieldValueWith, if_neg (by decide), parseInt_digits (decimal_ne_nil _) (isDigit_decimal _)
      (by rw [numeral_decimal]; omega), numeral_decimal]
  have hfwrv : fieldValue (ascii "FWRV") (ascii "01") = .int 1 := by decide
  have hkeys : ((payloadFields (housekeeping bat loopCntr)).map Prod.fst).Nodup := by
    rw [payloadFields_housekeeping]
    simp only [List.map_cons, List.map_nil]
    decide
  have h := holds_of_nodup hraw hkeys now
  rw [payloadFields_housekeeping] at h
  simpa only [List.map_cons, List.map_nil, hbat, hcntr, hfwrv] using h

/-- The texts of the Teleinfo nodes are decoded to exactly the numbers printed in them. -/
theorem teleinfo_texts_decoded (raw : List UInt8) (now : ℕ) :
    (∀ label m, hexDecode (payloadText raw) = some (report label m) ∨
        hexDecode (payloadText raw) = some (MoteTeleinfo.report label m) →
      Holds (decodePacket (.ofRaw raw now)).datamap (reportEntries label m)) ∧
    ∀ bat loopCntr, hexDecode (payloadText raw) = some (housekeeping bat loopCntr) →
      Holds (decodePacket (.ofRaw raw now)).datamap [(ascii "FWRV", .int 1),
        (ascii "BATL", .int bat.toInt), (ascii "LOOP", .int loopCntr.toNat)] := by
  refine ⟨fun label m hraw => ?_, fun bat loopCntr hraw => holds_housekeeping hraw now⟩
  rcases hraw with hraw | hraw
  · apply holds_reportEntries hraw
    rw [report_eq, payloadFields_semicolon]
  · exact holds_reportEntries hraw rfl now

/-- A report with negative values, and a housekeeping text. -/
theorem teleinfo_texts_decoded_negative :
    Holds (decodePacket (.ofRaw (ascii "PAYLOAD=" ++ (report 2 ⟨-1, 0, -2147483648⟩).flatMap hexPair)
        0)).datamap (reportEntries 2 ⟨-1, 0, -2147483648⟩) ∧
      Holds (decodePacket (.ofRaw (ascii "PAYLOAD=" ++ (housekeeping 2661 65535).flatMap hexPair)
        0)).datamap [(ascii "FWRV", .int 1), (ascii "BATL", .int (2661 : Int32).toInt),
          (ascii "LOOP", .int (65535 : UInt16).toNat)] :=
  ⟨(teleinfo_texts_decoded _ 0).1 2 ⟨-1, 0, -2147483648⟩ (.inl (by decide +kernel)),
    (teleinfo_texts_decoded _ 0).2 2661 65535 (by decide +kernel)⟩

theorem strlen_terminated {text : List UInt8} (h : 0 ∉ text) : strlen (text ++ [0]) = text.length := by
  have htake : (text ++ [0]).takeWhile (· ≠ 0) = text := by
    rw [List.takeWhile_append_of_pos fun b hb => by simpa using fun h0 : b = 0 => h (h0 ▸ hb)]
    simp
  rw [strlen, htake]

/-- The text fits a buffer of 128 bytes with its NUL, and its length is passed on unchanged where
the size argument is a `char`, signed or not. -/
def Fits (text : List UInt8) : Prop :=
  text.length + 1 ≤ 128 ∧ strlen (text ++ [0]) = text.length ∧
    (UInt8.ofNat (strlen (text ++ [0]))).toNat = text.length ∧
    (Int8.ofNat (strlen (text ++ [0]))).toInt = text.length

/-- The text is small enough for the radio: it is sent whole and without a warning. -/
def Sendable (text : List UInt8) : Prop := text.length ≤ 45 ∧ transmit text = ⟨false, text⟩

section
variable {text : List UInt8} (h0 : 0 ∉ text)
include h0

theorem fits_of_length_le (hlen : text.length ≤ 127) : Fits text := by
  rw [Fits, strlen_terminated h0]
  refine ⟨by omega, rfl, ?_, ?_⟩
  · rw [UInt8.toNat_ofNat']
    omega
  · rw [Int8.toInt_ofNat_of_lt (by omega)]

theorem sendable_of_length_le (hlen : text.length ≤ 45) : Sendable text := by
  have hsz := (fits_of_length_le h0 (by omega)).2.2.1
  refine ⟨hlen, ?_⟩
  rw [transmit, dataTx, hsz, Tx.mk.injEq]
  refine ⟨decide_eq_false (by omega), ?_⟩
  rw [List.take_append_of_le_length le_rfl, List.take_length]

end

theorem zero_notMem_signed (z : ℤ) : 0 ∉ signed z := notMem_signed (by decide) (by decide) z

theorem zero_notMem_decimal (n : ℕ) : 0 ∉ decimal n := notMem_decimal (by decide) n

/-- With a label of one digit a report without its last semicolon has at most 44 characters. -/
theorem reportText_length_of_le {label : UInt8} (hlabel : label ≤ 2) (m : Meter) :
    (reportText label m).length ≤ 44 := by
  have hle : label.toNat ≤ 2 := UInt8.le_iff_toNat_le.mp hlabel
  exact reportText_length_le (k := 1) (decimal_length_le (by decide) (by omega)) m

theorem zero_notMem_reportText (label : UInt8) (m : Meter) : 0 ∉ reportText label m := by
  simp only [reportText, List.mem_append, not_or, zero_notMem_signed, zero_notMem_decimal,
    not_false_iff, and_true]
  decide

theorem report_sendable {label : UInt8} (hlabel : label ≤ 2) (m : Meter) :
    Sendable (report label m) := by
  have hlen := reportText_length_of_le hlabel m
  rw [report_eq]
  apply sendable_of_length_le
  · rw [List.mem_append, not_or]
    exact ⟨zero_notMem_reportText label m, by decide⟩
  · have hsemi : (ascii ";").length = 1 := rfl
    rw [List.length_append]
    omega

theorem housekeeping_sendable (bat : Int32) (loopCntr : UInt16) :
    Sendable (housekeeping bat loopCntr) := by
  have hbat := signed_int32_length bat
  have hloop : (decimal loopCntr.toNat).length ≤ 5 :=
    decimal_length_le (by decide) (by have := loopCntr.toNat_lt; omega)
  apply sendable_of_length_le
  · simp only [housekeeping, List.mem_append, not_or, zero_notMem_signed, zero_notMem_decimal,
      not_false_iff, and_true]
    decide
  · simp only [housekeeping, ascii, List.length_append, List.length_map]
    simp
    omega

theorem deviceText_fits (bat : Int32) : Fits (MoteTeleinfo.deviceText bat) := by
  have hbat := signed_int32_length bat
  apply fits_of_length_le
  · rw [MoteTeleinfo.deviceText, List.mem_append, not_or]
    exact ⟨by decide, zero_notMem_signed _⟩
  · simp only [MoteTeleinfo.deviceText, ascii, List.length_append, List.length_map]
    simp
    omega

/-! The sign of a truncated quotient and of its remainder take a character each. -/

theorem fmtInt_length_le {w k : ℕ} {z : ℤ} (hk : 0 < k) (h : z.natAbs < 10 ^ k) :
    (fmtInt w z).length ≤ max w (k + 1) := by
  have hlen := decimal_length_le hk h
  unfold fmtInt
  split_ifs
  · rw [List.length_cons, padZeros_length]
    omega
  · rw [padZeros_length]
    omega

theorem zero_notMem_fmtNat (w n : ℕ) : 0 ∉ fmtNat w n := notMem_fmtNat (by decide) w n

theorem zero_notMem_fmtInt (w : ℕ) (z : ℤ) : 0 ∉ fmtInt w z := by
  unfold fmtInt
  split_ifs
  · have h := zero_notMem_fmtNat (w - 1) z.natAbs
    rw [List.mem_cons, not_or]
    exact ⟨by decide, h⟩
  · exact zero_notMem_fmtNat w z.natAbs

/-- The text of a measurement fits, whatever the sensor and the battery report. -/
theorem txMsg_fits (bat : Int32) (s : Sensor) : Fits (txMsg bat s) := by
  have hbat := signed_int32_length bat
  have htlo := s.temperature.le_toInt
  have hthi := s.temperature.toInt_lt
  have hpres := (s.pressure / 100).toNat_lt
  have hhumi := s.humidity.toNat_lt
  have hint (z : ℤ) (h : z.natAbs < 2 ^ 16) : (fmtInt 2 (z.tdiv 100)).length ≤ 4 ∧
      (fmtInt 2 (z.tmod 100)).length ≤ 3 := by
    have hdiv : (z.tdiv 100).natAbs < 10 ^ 3 := by
      have hquot : (z.tdiv 100).natAbs = z.natAbs / 100 := Int.natAbs_tdiv z 100
      omega
    have hmod : (z.tmod 100).natAbs < 10 ^ 2 := by
      have hrem : (z.tmod 100).natAbs = z.natAbs % 100 := Int.natAbs_tmod z 100
      omega
    exact ⟨fmtInt_length_le (by decide) hdiv, fmtInt_length_le (by decide) hmod⟩
  have htemp := hint s.temperature.toInt (by omega)
  have hhum := hint s.humidity.toNat (by omega)
  have hpress : (fmtNat 4 (s.pressure / 100).toNat).length ≤ 10 := by
    have := decimal_length_le (k := 10) (by decide) (show (s.pressure / 100).toNat < 10 ^ 10 by omega)
    rw [fmtNat, padZeros_length]
    omega
  have hsign : 0 ∉ [if s.temperature < 0 then byte '-' else byte '+'] := by
    split_ifs <;> decide
  apply fits_of_length_le
  · simp only [txMsg, List.mem_append, not_or, hsign, zero_notMem_signed, zero_notMem_fmtInt,
      zero_notMem_fmtNat, not_false_iff, and_true]
    decide
  · have hlen : (txMsg bat s).length = 25 + (signed bat.toInt).length + 6 + 1 +
        (fmtInt 2 (s.temperature.toInt.tdiv 100)).length + 1 +
        (fmtInt 2 (s.temperature.toInt.tmod 100)).length + 6 +
        (fmtNat 4 (s.pressure / 100).toNat).length + 6 +
        (fmtInt 2 ((s.humidity.toNat : ℤ).tdiv 100)).length + 1 +
        (fmtInt 2 ((s.humidity.toNat : ℤ).tmod 100)).length := by
      simp only [txMsg, List.length_append, List.length_singleton]
      rfl
    omega

/-- No text of the nodes is cut, overruns its buffer, or changes its length on the way; those of
`node-teleinfo` stay below the size that `data_tx` warns of. -/
theorem texts_fit (label : UInt8) (hlabel : label ≤ 2) (m : Meter) (bat : Int32) (loopCntr : UInt16)
    (t : Int16) (p : UInt32) (h : UInt16) :
    report label m = reportText label m ++ ascii ";" ∧ Sendable (report label m) ∧
      Sendable (housekeeping bat loopCntr) ∧ Fits (txMsg bat (sensorMeasure t p h)) ∧
      Fits (MoteTeleinfo.report label m) ∧ Fits (MoteTeleinfo.deviceText bat) := by
  have hlen := reportText_length_of_le hlabel m
  exact ⟨report_eq label m, report_sendable hlabel m, housekeeping_sendable bat loopCntr,
    txMsg_fits bat _, fits_of_length_le (zero_notMem_reportText label m) (by
      rw [MoteTeleinfo.report]
      omega), deviceText_fits bat⟩

/-- The longest report has exactly 45 characters. -/
theorem texts_fit_longest :
    (report 2 ⟨-32768, -32768, -2147483648⟩).length = 45 ∧
      Sendable (report 2 ⟨-32768, -32768, -2147483648⟩) :=
  ⟨by decide +kernel, (texts_fit 2 (by decide) ⟨-32768, -32768, -2147483648⟩ 0 0 0 0 0).2.1⟩

end OflMotes.Node
