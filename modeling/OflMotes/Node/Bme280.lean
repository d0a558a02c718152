import Mathlib.Tactic.Linarith
import OflMotes.Gateway.DecodePacket
import OflMotes.Node.Clib

/-! `node-bme280`: one cycle of measuring and formatting, and what the gateway decodes of it. -/
namespace OflMotes.Node
open Ascii Fields Gateway

/-- The sensor variables of the node. -/
structure Sensor where
  temperature : Int16
  pressure : UInt32
  humidity : UInt16

/-- `sensor_measure`, given what the driver returns. -/
def sensorMeasure (temperature : Int16) (pressure : UInt32) (humidity : UInt16) : Sensor :=
  let negative := decide (temperature < 0)
  { temperature := if negative then -temperature else temperature
    pressure := pressure
    humidity := humidity }

/-- The text that `main` prints into `tx_msg`. -/
def txMsg (bat : Int32) (s : Sensor) : List UInt8 :=
  ascii "DEVICE:DEV;VER:01;BATLEV:" ++ signed bat.toInt ++
    ascii ";TEMP:" ++ [if s.temperature < 0 then byte '-' else byte '+'] ++
      fmtInt 2 (s.temperature.toInt.tdiv 100) ++ ascii "." ++
      fmtInt 2 (s.temperature.toInt.tmod 100) ++
    ascii ";PRES:" ++ fmtNat 4 (s.pressure / 100).toNat ++
    ascii ";HUMI:" ++ fmtInt 2 ((s.humidity.toNat : ℤ).tdiv 100) ++ ascii "." ++
      fmtInt 2 ((s.humidity.toNat : ℤ).tmod 100)

/-- The number of hundredths `n` printed as `%02d.%02d`. -/
def hundredths (n : ℕ) : List UInt8 := fixedPoint (fmtNat 2 (n / 100)) (fmtNat 2 (n % 100))

theorem lt_overflow {q : ℚ} (h : q < 2 ^ 32) : q < overflow := by
  have hpow : (2 : ℚ) ^ 32 ≤ 2 ^ 970 := pow_le_pow_right₀ (by norm_num) (by norm_num)
  have hone : (1 : ℚ) ≤ 2 ^ 54 - 1 := by norm_num
  calc q < 2 ^ 32 := h
    _ ≤ 1 * 2 ^ 970 := by rw [one_mul]; exact hpow
    _ ≤ overflow := mul_le_mul_of_nonneg_right hone (by positivity)

/-- A number printed in hundredths is read as that number, with or without a plus sign. -/
theorem parseFloat_hundredths {n : ℕ} (h : n < 2 ^ 32) {s : List UInt8}
    (hs : s = hundredths n ∨ s = byte '+' :: hundredths n) (round : ℚ → ℚ) :
    parseFloatWith round s = (.num (round (n / 100)), none) := by
  have hfrac : (fmtNat 2 (n % 100)).length = 2 := fmtNat_length (by decide) (by omega)
  have hsign : readSign s = (false, hundredths n) := by
    rcases hs with rfl | rfl
    · exact readSign_fixedPoint (isDigit_fmtNat 2 (n / 100)) (fmtNat_ne_nil 2 (n / 100))
    · rfl
  have hval : numeral (fmtNat 2 (n / 100) ++ fmtNat 2 (n % 100)) = n := by
    rw [numeral_append, hfrac, numeral_fmtNat, numeral_fmtNat]
    omega
  have hlt : (n : ℚ) / 100 < 2 ^ 32 := by
    have hn : (n : ℚ) < 2 ^ 32 := by exact_mod_cast h
    linarith
  have hpos : (0 : ℚ) ≤ (n : ℚ) / 100 := by positivity
  have hov : (0 : ℚ) < overflow := by norm_num [overflow]
  refine parseFloat_decimal (isDigit_fmtNat 2 (n / 100)) (isDigit_fmtNat 2 (n % 100))
    (by simp [fmtNat_ne_nil]) (.inr (by rw [hsign]; rfl)) ?_ (by linarith) (lt_overflow hlt)
    round
  rw [hsign, hval, hfrac]
  norm_num

/-- After `sensor_measure` the sign of the temperature is gone, unless the driver reports an
error. -/
theorem sensorMeasure_temperature {t : Int16} (ht : t ≠ Int16.minValue) (p : UInt32) (h : UInt16) :
    (sensorMeasure t p h).temperature.toInt = t.toInt.natAbs := by
  have hzero : (t < 0) ↔ t.toInt < 0 := Int16.lt_iff_toInt_lt
  unfold sensorMeasure
  by_cases hneg : t < 0
  · have hne : t.toBitVec ≠ BitVec.intMin 16 := fun he => ht (Int16.toBitVec.inj he)
    have hnegate : (-t).toInt = -t.toInt := BitVec.toInt_neg_of_ne_intMin hne
    have hlt := hzero.mp hneg
    simp only [hneg, decide_true, if_true, hnegate]
    omega
  · have hge : ¬ t.toInt < 0 := fun hlt => hneg (hzero.mpr hlt)
    simp only [hneg, decide_false, Bool.false_eq_true, if_false]
    omega

/-- The fields of the payload, by name. -/
def txFields (bat : ℤ) (t p h : ℕ) : List (List UInt8 × List UInt8) :=
  [(ascii "DEVICE", ascii "DEV"), (ascii "VER", ascii "01"), (ascii "BATLEV", signed bat),
    (ascii "TEMP", byte '+' :: hundredths t), (ascii "PRES", fmtNat 4 p),
    (ascii "HUMI", hundredths h)]

theorem notMem_hundredths {b : UInt8} (hb : hexVal b = none) (hdot : b ≠ byte '.') (n : ℕ) :
    b ∉ hundredths n := by
  simp [hundredths, fixedPoint, notMem_fmtNat hb, hdot]

/-- The text of one measurement, with the temperature as `sensor_measure` leaves it. -/
theorem txMsg_sensorMeasure {t : Int16} (ht : t ≠ Int16.minValue) (p : UInt32) (h : UInt16)
    (bat : Int32) :
    payloadFields (txMsg bat (sensorMeasure t p h)) =
      txFields bat.toInt t.toInt.natAbs (p.toNat / 100) h.toNat := by
  have htemp := sensorMeasure_temperature ht p h
  have hsign : ¬ (sensorMeasure t p h).temperature < 0 := by
    rw [Int16.lt_iff_toInt_lt, htemp]
    simp
  have htext : txMsg bat (sensorMeasure t p h) =
      ascii "DEVICE" ++ byte ':' :: (ascii "DEV" ++ byte ';' :: (ascii "VER" ++ byte ':' ::
      (ascii "01" ++ byte ';' :: (ascii "BATLEV" ++ byte ':' :: (signed bat.toInt ++ byte ';' ::
      (ascii "TEMP" ++ byte ':' :: ((byte '+' :: hundredths t.toInt.natAbs) ++ byte ';' ::
      (ascii "PRES" ++ byte ':' :: (fmtNat 4 (p.toNat / 100) ++ byte ';' ::
      (ascii "HUMI" ++ byte ':' :: hundredths h.toNat)))))))))) := by
    have hdiv (n : ℕ) : fmtInt 2 ((n : ℤ).tdiv 100) = fmtNat 2 (n / 100) := fmtInt_ofNat 2 (n / 100)
    have hmod (n : ℕ) : fmtInt 2 ((n : ℤ).tmod 100) = fmtNat 2 (n % 100) := fmtInt_ofNat 2 (n % 100)
    rw [txMsg, if_neg hsign, htemp, hdiv, hmod, hdiv, hmod]
    simp [sensorMeasure, ascii, hundredths, fixedPoint]
  have hne : byte ';' ≠ byte ':' := by decide
  have hsemi : hexVal (byte ';') = none := by decide
  have hcolon : hexVal (byte ':') = none := by decide
  have hdigits (w n : ℕ) : byte ';' ∉ fmtNat w n ∧ byte ':' ∉ fmtNat w n :=
    ⟨notMem_fmtNat hsemi w n, notMem_fmtNat hcolon w n⟩
  have hfixed (n : ℕ) : byte ';' ∉ hundredths n ∧ byte ':' ∉ hundredths n :=
    ⟨notMem_hundredths hsemi (by decide) n, notMem_hundredths hcolon (by decide) n⟩
  have hplus (n : ℕ) : byte ';' ∉ byte '+' :: hundredths n ∧ byte ':' ∉ byte '+' :: hundredths n := by
    simp [hfixed n, show byte ';' ≠ byte '+' by decide, show byte ':' ≠ byte '+' by decide]
  have hbat : byte ';' ∉ signed bat.toInt ∧ byte ':' ∉ signed bat.toInt :=
    ⟨notMem_signed hsemi (by decide) _, notMem_signed hcolon (by decide) _⟩
  rw [htext, payloadFields, fields_cons _ _ (by decide) (by decide) hne,
    fields_cons _ _ (by decide) (by decide) hne, fields_cons _ _ (by decide) hbat hne,
    fields_cons _ _ (by decide) (hplus _) hne, fields_cons _ _ (by decide) (hdigits _ _) hne,
    fields_singleton _ _ (by decide) (hfixed _) hne]
  rfl

/-- The datamap holds the four metrics of a measurement. -/
def Reads (m : Datamap) (temp : ℚ) (pres : ℕ) (humi : ℚ) (bat : ℤ) : Prop :=
  m.lookup (ascii "TEMP") = some (.float (.num temp)) ∧ m.lookup (ascii "PRES") = some (.int pres) ∧
    m.lookup (ascii "HUMI") = some (.float (.num humi)) ∧
    m.lookup (ascii "BATLEV") = some (.int bat)

section
variable (round : ℚ → ℚ) (raw : List UInt8) (now : ℕ)

/-- The metrics that a payload with the fields of a measurement puts into the datamap. -/
theorem lookup_txFields {payload : List UInt8} {bat : ℤ} {t p h : ℕ}
    (hraw : hexDecode (payloadText raw) = some payload)
    (hfields : payloadFields payload = txFields bat t p h) (name : List UInt8) {v : List UInt8}
    (hv : lastValue name (txFields bat t p h) = some v) :
    (decodePacketWith round (.ofRaw raw now)).datamap.lookup name =
      some (fieldValueWith round name v) := by
  rw [lookup_decodePacketWith, hraw, Option.bind_some, hfields, hv]
  rfl

/-- What the gateway decodes of one measurement, for any rounding of the fractions: all numbers as
measured, but for the sign of the temperature. -/
theorem datamap_txMsg {t : Int16} (ht : t ≠ Int16.minValue) (p : UInt32) (h : UInt16) (bat : Int32)
    (hraw : hexDecode (payloadText raw) = some (txMsg bat (sensorMeasure t p h))) :
    Reads (decodePacketWith round (.ofRaw raw now)).datamap (round (t.toInt.natAbs / 100))
      (p.toNat / 100) (round (h.toNat / 100)) bat.toInt := by
  have hfields := txMsg_sensorMeasure ht p h bat
  have htlo := t.le_toInt
  have hthi := t.toInt_lt
  have hp := p.toNat_lt
  have hh := h.toNat_lt
  have hblo := bat.le_toInt
  have hbhi := bat.toInt_lt
  have htemp := lookup_txFields round raw now hraw hfields (ascii "TEMP") rfl
  have hpres := lookup_txFields round raw now hraw hfields (ascii "PRES") rfl
  have hhumi := lookup_txFields round raw now hraw hfields (ascii "HUMI") rfl
  have hbat := lookup_txFields round raw now hraw hfields (ascii "BATLEV") rfl
  refine ⟨htemp.trans ?_, hpres.trans ?_, hhumi.trans ?_, hbat.trans ?_⟩
  · rw [fieldValueWith, if_pos (.inl rfl), parseFloat_hundredths (by omega) (.inr rfl)]
  · rw [fieldValueWith, if_neg (by decide), parseInt_digits (fmtNat_ne_nil _ _) (isDigit_fmtNat _ _)
      (by rw [numeral_fmtNat]; omega), numeral_fmtNat]
  · rw [fieldValueWith, if_pos (.inr rfl), parseFloat_hundredths (by omega) (.inl rfl)]
  · rw [fieldValueWith, if_neg (by decide), parseInt_signed (by omega) (by omega)]

end

/-- A measurement survives the trip, where the rounding tells the temperature from its opposite,
exactly if the temperature is not negative. -/
theorem reads_iff (round : ℚ → ℚ) {t : Int16}
    (hround : round (t.toInt.natAbs / 100) = round (t.toInt / 100) → 0 ≤ t.toInt)
    (ht : t ≠ Int16.minValue) (p : UInt32) (h : UInt16) (bat : Int32) {raw : List UInt8}
    (hraw : hexDecode (payloadText raw) = some (txMsg bat (sensorMeasure t p h))) (now : ℕ) :
    Reads (decodePacketWith round (.ofRaw raw now)).datamap (round (t.toInt / 100)) (p.toNat / 100)
      (round (h.toNat / 100)) bat.toInt ↔ 0 ≤ t.toInt := by
  have hreads := datamap_txMsg round raw now ht p h bat hraw
  constructor
  · rintro ⟨htemp, -⟩
    have he := hreads.1.symm.trans htemp
    simp only [Option.some.injEq, Value.float.injEq, Float64.num.injEq] at he
    exact hround he
  · intro hpos
    rwa [Nat.cast_natAbs, abs_of_nonneg hpos] at hreads

theorem nonneg_of_natAbs_eq {z : ℤ} (h : (z.natAbs : ℚ) / 100 = z / 100) : 0 ≤ z := by
  rw [Nat.cast_natAbs] at h
  have hq : ((|z| : ℤ) : ℚ) = z := by linarith
  have hz : |z| = z := by exact_mod_cast hq
  exact abs_eq_self.mp hz

/-- The rounding to 64 bits does not confuse a number of hundredths with its opposite. -/
theorem nonneg_of_toFloat64_eq {z : ℤ} (h : toFloat64 (z.natAbs / 100) = toFloat64 (z / 100)) :
    0 ≤ z := by
  by_contra hneg
  have habs : ((z.natAbs : ℕ) : ℚ) = -z := by
    rw [Nat.cast_natAbs, abs_of_neg (not_le.mp hneg), Int.cast_neg]
  have hone : (1 : ℚ) ≤ -z := by exact_mod_cast Int.neg_le_neg (Int.le_sub_one_of_lt (not_le.mp hneg))
  have hlow : (2 : ℚ) ^ (-7 : ℤ) ≤ |(z : ℚ) / 100| := by
    rw [abs_of_neg (by linarith)]
    norm_num
    linarith
  rw [habs, neg_div] at h
  exact Rounding.nearest_neg_ne (by norm_num) (by norm_num) hlow h

/-- A measurement survives the trip to the gateway if and only if its temperature is not negative,
with its fractions read exactly, and also with the rounding to the nearest floats. -/
theorem txMsg_decoded_iff (t : Int16) (ht : t ≠ Int16.minValue) (p : UInt32) (h : UInt16)
    (bat : Int32) (raw : List UInt8)
    (hraw : hexDecode (payloadText raw) = some (txMsg bat (sensorMeasure t p h))) (now : ℕ) :
    (Reads (decodePacketWith id (.ofRaw raw now)).datamap (t.toInt / 100) (p.toNat / 100)
      (h.toNat / 100) bat.toInt ↔ 0 ≤ t.toInt) ∧
    (Reads (decodePacket (.ofRaw raw now)).datamap (toFloat64 (t.toInt / 100)) (p.toNat / 100)
      (toFloat64 (h.toNat / 100)) bat.toInt ↔ 0 ≤ t.toInt) :=
  ⟨reads_iff id nonneg_of_natAbs_eq ht p h bat hraw now,
    reads_iff toFloat64 nonneg_of_toFloat64_eq ht p h bat hraw now⟩

/-- A day of 21.50 degrees, 1013.25 hPa and 45.02 percent. -/
theorem txMsg_decoded_iff_warm :
    Reads (decodePacketWith id (.ofRaw (ascii "PAYLOAD=" ++
      (txMsg 2661 (sensorMeasure 2150 101325 4502)).flatMap hexPair) 0)).datamap
      ((2150 : Int16).toInt / 100) ((101325 : UInt32).toNat / 100) ((4502 : UInt16).toNat / 100)
      (2661 : Int32).toInt ↔ 0 ≤ (2150 : Int16).toInt :=
  (txMsg_decoded_iff 2150 (by decide) 101325 4502 2661 _ (by decide) 0).1

/-- Five hundredths below zero are decoded as five above. -/
theorem sign_of_temperature_lost :
    ∃ raw, hexDecode (payloadText raw) = some (txMsg 2661 (sensorMeasure (-5) 101325 4502)) ∧
      (decodePacketWith id (.ofRaw raw 0)).datamap.lookup (ascii "TEMP") = some (.float (.num (5 / 100))) ∧
      ¬ Reads (decodePacketWith id (.ofRaw raw 0)).datamap (((-5 : Int16).toInt : ℚ) / 100)
        ((101325 : UInt32).toNat / 100) ((4502 : UInt16).toNat / 100) (2661 : Int32).toInt := by
  have hraw : hexDecode (payloadText (ascii "PAYLOAD=" ++
      (txMsg 2661 (sensorMeasure (-5) 101325 4502)).flatMap hexPair)) =
        some (txMsg 2661 (sensorMeasure (-5) 101325 4502)) := by decide
  have hreads := datamap_txMsg id _ 0 (by decide) 101325 4502 2661 hraw
  refine ⟨_, hraw, hreads.1, fun h => ?_⟩
  have hz : (-5 : Int16).toInt = -5 := rfl
  have he := h.1.symm.trans hreads.1
  simp only [Option.some.injEq, Value.float.injEq, Float64.num.injEq, hz] at he
  norm_num at he

end OflMotes.Node
