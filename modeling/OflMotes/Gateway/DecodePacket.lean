import Mathlib.Data.List.AList
import OflMotes.Gateway.Strconv
import OflMotes.Lib.Fields

/-! `decode_packet` of the host gateway: the header fields of a raw frame, the hexadecimal
payload and the metrics written in it. -/
namespace OflMotes.Gateway
open Ascii Fields

/-- A metric as the decoder stores it in `datamap`. -/
inductive Value
  | int (i : ℤ)
  | float (f : Float64)
  deriving DecidableEq

/-- `map[string]interface{}`. -/
abbrev Datamap := AList (fun _ : List UInt8 => Value)

/-- The fields of a packet that the gateway reads or writes; the timestamp is a clock reading. -/
structure Packet where
  raw : List UInt8
  smac : List UInt8
  payload : List UInt8
  lqi : ℤ
  rssi : ℤ
  datamap : Datamap
  timestamp : ℕ

/-- The packet that `serialworker` makes of a raw frame: the other fields are zero. -/
def Packet.ofRaw (raw : List UInt8) (now : ℕ) : Packet := ⟨raw, [], [], 0, 0, ∅, now⟩

/-- One round of the header loop: a piece of the raw text. -/
def decodeHeader (p : Packet) (piece : List UInt8) : Packet :=
  match piece.splitOn (byte '=') with
  | [k, v] =>
    let p := if k = ascii "PAYLOAD" then { p with payload := v } else p
    let p := if k = ascii "SMAC" then { p with smac := v } else p
    let p := if k = ascii "LQI" then { p with lqi := (parseInt v).1 } else p
    if k = ascii "RSSI" then { p with rssi := (parseInt v).1 } else p
  | _ => p

/-- The value stored for a metric: a float for the two fractional keys, else an integer. -/
def fieldValueWith (round : ℚ → ℚ) (k v : List UInt8) : Value :=
  if k = ascii "TEMP" ∨ k = ascii "HUMI" then .float (parseFloatWith round v).1
  else .int (parseInt v).1

/-- One round of the payload loop. -/
def decodeField (round : ℚ → ℚ) (m : Datamap) (piece : List UInt8) : Datamap :=
  match piece.splitOn (byte ':') with
  | [k, v] => m.insert k (fieldValueWith round k v)
  | _ => m

/-- `decode_packet`, for a rounding of the fractions that it reads. On a payload that is no
hexadecimal text it returns early. -/
def decodePacketWith (round : ℚ → ℚ) (p : Packet) : Packet :=
  let p := { p with datamap := ∅ }
  let p := (p.raw.splitOn (byte ';')).foldl decodeHeader p
  match hexDecode p.payload with
  | none => p
  | some k => { p with
      payload := k
      datamap := (k.splitOn (byte ';')).foldl (decodeField round) p.datamap }

/-- `decode_packet`. -/
def decodePacket (p : Packet) : Packet := decodePacketWith toFloat64 p

/-- The value that `decode_packet` stores for a metric. -/
def fieldValue (k v : List UInt8) : Value := fieldValueWith toFloat64 k v

/-- The header fields of a raw frame. -/
def headerFields (raw : List UInt8) : List (List UInt8 × List UInt8) :=
  fields (byte ';') (byte '=') raw

/-- The metrics written in a decoded payload. -/
def payloadFields (payload : List UInt8) : List (List UInt8 × List UInt8) :=
  fields (byte ';') (byte ':') payload

/-- The text of the payload field of a raw frame, empty where there is none. -/
def payloadText (raw : List UInt8) : List UInt8 :=
  (lastValue (ascii "PAYLOAD") (headerFields raw)).getD []

/-- The number that a header field sets, kept where the field is missing. -/
def headerNumber (name raw : List UInt8) : ℤ :=
  ((lastValue name (headerFields raw)).map fun v => (parseInt v).1).getD 0

/-- The header fields set by one field; a repeated key is overwritten. -/
theorem decodeHeader_eq (p : Packet) (piece : List UInt8) :
    decodeHeader p piece =
      ((pair (byte '=') piece).map fun f => { p with
        payload := if f.1 = ascii "PAYLOAD" then f.2 else p.payload
        smac := if f.1 = ascii "SMAC" then f.2 else p.smac
        lqi := if f.1 = ascii "LQI" then (parseInt f.2).1 else p.lqi
        rssi := if f.1 = ascii "RSSI" then (parseInt f.2).1 else p.rssi }).getD p := by
  unfold decodeHeader pair
  rcases piece.splitOn (byte '=') with _ | ⟨k, _ | ⟨v, _ | ⟨w, z⟩⟩⟩
  · rfl
  · rfl
  · simp only [Option.map_some, Option.getD_some]
    split_ifs <;> rfl
  · rfl

theorem decodeField_eq (round : ℚ → ℚ) (m : Datamap) (piece : List UInt8) :
    decodeField round m piece =
      ((pair (byte ':') piece).map fun f => m.insert f.1 (fieldValueWith round f.1 f.2)).getD m := by
  unfold decodeField pair
  rcases piece.splitOn (byte ':') with _ | ⟨k, _ | ⟨v, _ | ⟨w, z⟩⟩⟩ <;> rfl

theorem getD_or_ite {β : Type*} (o : Option β) (c : Prop) [Decidable c] (v x : β) :
    (o.or (if c then some v else none)).getD x = o.getD (if c then v else x) := by
  split_ifs <;> cases o <;> rfl

/-- After the header loop each field holds its last value. -/
theorem decodeHeader_foldl (pieces : List (List UInt8)) (p : Packet) :
    pieces.foldl decodeHeader p = { p with
      payload := (lastValue (ascii "PAYLOAD") (pieces.filterMap (pair (byte '=')))).getD p.payload
      smac := (lastValue (ascii "SMAC") (pieces.filterMap (pair (byte '=')))).getD p.smac
      lqi := ((lastValue (ascii "LQI") (pieces.filterMap (pair (byte '=')))).map
        fun v => (parseInt v).1).getD p.lqi
      rssi := ((lastValue (ascii "RSSI") (pieces.filterMap (pair (byte '=')))).map
        fun v => (parseInt v).1).getD p.rssi } := by
  induction pieces generalizing p with
  | nil => rfl
  | cons piece pieces ih =>
    rw [List.foldl_cons, ih, decodeHeader_eq]
    cases hp : pair (byte '=') piece with
    | none => simp [hp]
    | some f =>
      have hmap (name : List UInt8) : (lastValue name (f :: pieces.filterMap (pair (byte '=')))).map
          (fun v => (parseInt v).1) =
            ((lastValue name (pieces.filterMap (pair (byte '=')))).map fun v => (parseInt v).1).or
              (if f.1 = name then some (parseInt f.2).1 else none) := by
        rw [lastValue_cons, Option.map_or]
        split_ifs <;> rfl
      simp only [List.filterMap_cons, hp, hmap, getD_or_ite, Option.map_some, Option.getD_some]
      simp only [lastValue_cons, getD_or_ite]

/-- A metric of the datamap is the value of the last field with its key. -/
theorem lookup_decodeField_foldl (round : ℚ → ℚ) (pieces : List (List UInt8)) (m : Datamap)
    (k : List UInt8) :
    (pieces.foldl (decodeField round) m).lookup k =
      ((lastValue k (pieces.filterMap (pair (byte ':')))).map (fieldValueWith round k)).or
        (m.lookup k) := by
  induction pieces generalizing m with
  | nil => simp
  | cons piece pieces ih =>
    rw [List.foldl_cons, ih, decodeField_eq]
    cases hp : pair (byte ':') piece with
    | none => simp [hp]
    | some f =>
      simp only [List.filterMap_cons, hp, lastValue_cons, Option.map_some, Option.getD_some]
      by_cases hk : f.1 = k
      · subst hk
        cases lastValue f.1 (pieces.filterMap (pair (byte ':'))) <;> simp
      · rw [AList.lookup_insert_ne (Ne.symm hk), if_neg hk]
        cases lastValue k (pieces.filterMap (pair (byte ':'))) <;> simp

variable (round : ℚ → ℚ) (raw : List UInt8) (now : ℕ)

theorem decodePacketWith_ofRaw :
    decodePacketWith round (.ofRaw raw now) =
      { raw := raw
        smac := (lastValue (ascii "SMAC") (headerFields raw)).getD []
        payload := (hexDecode (payloadText raw)).getD (payloadText raw)
        lqi := headerNumber (ascii "LQI") raw
        rssi := headerNumber (ascii "RSSI") raw
        datamap := (hexDecode (payloadText raw)).elim ∅ fun k =>
          (k.splitOn (byte ';')).foldl (decodeField round) ∅
        timestamp := now } := by
  simp only [decodePacketWith, Packet.ofRaw, decodeHeader_foldl]
  change (match hexDecode (payloadText raw) with | none => _ | some k => _) = _
  cases hexDecode (payloadText raw) <;> rfl

/-- The metrics of a decoded packet are the last values of the fields in its payload. -/
theorem lookup_decodePacketWith (k : List UInt8) :
    (decodePacketWith round (.ofRaw raw now)).datamap.lookup k =
      (hexDecode (payloadText raw)).bind fun payload =>
        (lastValue k (payloadFields payload)).map (fieldValueWith round k) := by
  rw [decodePacketWith_ofRaw]
  cases hexDecode (payloadText raw) with
  | none => rfl
  | some payload =>
    simp only [Option.elim_some, Option.bind_some, lookup_decodeField_foldl]
    exact Option.or_none

theorem decodePacket_ofRaw :
    decodePacket (.ofRaw raw now) =
      { raw := raw
        smac := (lastValue (ascii "SMAC") (headerFields raw)).getD []
        payload := (hexDecode (payloadText raw)).getD (payloadText raw)
        lqi := headerNumber (ascii "LQI") raw
        rssi := headerNumber (ascii "RSSI") raw
        datamap := (hexDecode (payloadText raw)).elim ∅ fun k =>
          (k.splitOn (byte ';')).foldl (decodeField toFloat64) ∅
        timestamp := now } :=
  decodePacketWith_ofRaw toFloat64 raw now

theorem lookup_decodePacket (k : List UInt8) :
    (decodePacket (.ofRaw raw now)).datamap.lookup k =
      (hexDecode (payloadText raw)).bind fun payload =>
        (lastValue k (payloadFields payload)).map (fieldValue k) :=
  lookup_decodePacketWith toFloat64 raw now k

end OflMotes.Gateway
