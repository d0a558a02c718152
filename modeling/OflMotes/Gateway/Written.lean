import OflMotes.Gateway.DecodePacket
import OflMotes.Gateway.Literals

/-! Whether the decoder invents numbers. A text that writes no number of its key's kind should
contribute nothing; the decoder stores what the number reader returns beside its error. -/
namespace OflMotes.Gateway
open Ascii Fields Rounding

instance (ds : List UInt8) : Decidable (∀ b ∈ ds, IsDigit b) := List.decidableBAll _ ds

/-- The 64-bit integer that a text writes in decimal digits, with an optional sign. -/
def writtenInt (s : List UInt8) : Option ℤ :=
  let ds := (readSign s).2
  let z : ℤ := if (readSign s).1 then -numeral ds else numeral ds
  if ds ≠ [] ∧ (∀ b ∈ ds, IsDigit b) ∧ -2 ^ 63 ≤ z ∧ z < 2 ^ 63 then some z else none

/-- The digits in front of the point and those behind it. -/
def aroundPoint (t : List UInt8) : Option (List UInt8 × List UInt8) :=
  match t.splitOn (byte '.') with
  | [a] => some (a, [])
  | [a, b] => some (a, b)
  | _ => none

/-- The decimal fraction that a text writes in digits with at most one point among them and an
optional sign, if it is in the range of a float. -/
def writtenFraction (s : List UInt8) : Option ℚ := do
  let (a, b) ← aroundPoint (readSign s).2
  let n : ℚ := (numeral (a ++ b) : ℚ) / 10 ^ b.length
  let q := if (readSign s).1 then -n else n
  if a ++ b ≠ [] ∧ (∀ c ∈ a ++ b, IsDigit c) ∧ -overflow < q ∧ q < overflow then some q else none

/-- The value that a text writes for a metric, where `stored` is the float that counts as a
fraction: the fraction itself, or the 64-bit float nearest to it. -/
def writtenValue (stored : ℚ → ℚ) (k v : List UInt8) : Option Value :=
  if k = ascii "TEMP" ∨ k = ascii "HUMI" then
    (writtenFraction v).map fun q => .float (.num (stored q))
  else (writtenInt v).map .int

/-- Everything the decoder reports is the number written in the last field with the key that
writes one. -/
def Literal (stored : ℚ → ℚ) (raw : List UInt8) : Prop :=
  ∀ now, let p := decodePacket (.ofRaw raw now)
    (∀ k, p.datamap.lookup k = (hexDecode (payloadText raw)).bind fun payload =>
      lastWritten (writtenValue stored k) k (payloadFields payload)) ∧
    p.lqi = (lastWritten writtenInt (ascii "LQI") (headerFields raw)).getD 0 ∧
    p.rssi = (lastWritten writtenInt (ascii "RSSI") (headerFields raw)).getD 0

theorem parseInt_of_written {s : List UInt8} {z : ℤ} (h : writtenInt s = some z) :
    parseInt s = (z, none) := by
  obtain ⟨⟨hne, hdigits, hlo, hhi⟩, hz⟩ := Option.ite_none_right_eq_some.mp h
  rw [Option.some.inj hz] at hlo hhi
  have hs : s ≠ [] := by
    rintro rfl
    exact hne rfl
  have hz : z = if (readSign s).1 then -(numeral (readSign s).2 : ℤ) else numeral (readSign s).2 :=
    (Option.some.inj hz).symm
  have hlt : numeral (readSign s).2 < 2 ^ 64 := by
    split_ifs at hz <;> omega
  rw [parseInt, if_neg hs, parseUint_digits hne hdigits hlt]
  cases hsign : (readSign s).1 with
  | true =>
    simp only [hsign, if_true] at hz
    simp only [Bool.true_eq_false, false_and, if_false, true_and, if_true]
    rw [if_neg (by omega), hz]
  | false =>
    simp only [hsign, Bool.false_eq_true, if_false] at hz
    simp only [true_and, Bool.false_eq_true, false_and, if_false]
    rw [if_neg (by omega), hz]

/-- A text of digits beyond the 64-bit integers, or one that begins with digits beyond 64 bits. -/
def TooLarge (v : List UInt8) : Prop :=
  let ds := (readSign v).2
  let z : ℤ := if (readSign v).1 then -numeral ds else numeral ds
  Overflows 0 ds ∨ ds ≠ [] ∧ (∀ b ∈ ds, IsDigit b) ∧ ¬ (-2 ^ 63 ≤ z ∧ z < 2 ^ 63)

/-- What a text that writes no integer is taken for: the limit on its side where it is too large,
else 0. -/
def MisreadInt (v : List UInt8) (z : ℤ) : Prop :=
  TooLarge v ∧ z = (if (readSign v).1 then -2 ^ 63 else 2 ^ 63 - 1) ∨ ¬ TooLarge v ∧ z = 0

/-- What a text that writes no decimal fraction is taken for: 0 where it is neither a special value
nor a literal, and the float of the literal where it is one of another notation. -/
def MisreadFraction (v : List UInt8) (q : ℚ) : Prop :=
  special v = none ∧ (∀ l : FloatLiteral, l.WellFormed → l.text ≠ v) ∧ q = 0 ∨
    ∃ l : FloatLiteral, l.WellFormed ∧ l.text = v ∧ -overflow < l.value ∧ l.value < overflow ∧
      q = toFloat64 l.value

/-- The same for a metric, whose key tells its kind. -/
def Misread (k v : List UInt8) (w : Value) : Prop :=
  if k = ascii "TEMP" ∨ k = ascii "HUMI" then ∃ q, w = .float (.num q) ∧ MisreadFraction v q
  else ∃ z, w = .int z ∧ MisreadInt v z

theorem parseInt_of_tooLarge {v : List UInt8} (h : TooLarge v) :
    parseInt v = (if (readSign v).1 then -2 ^ 63 else 2 ^ 63 - 1, some .errRange) := by
  have hds : (readSign v).2 ≠ [] := by
    rcases h with ⟨ds, hprefix, -, hle⟩ | ⟨hne, -⟩
    · intro he
      rw [he] at hprefix
      rw [List.prefix_nil.mp hprefix] at hle
      simp at hle
    · exact hne
  have hv : v ≠ [] := by
    rintro rfl
    exact hds rfl
  rw [parseInt, if_neg hv, parseUint, if_neg hds]
  rcases parseUintLoop_cases (n := 0) (by norm_num) (readSign v).2 with
    ⟨hdigits, hover, hloop⟩ | ⟨hdigits, hover, -⟩ | ⟨-, hloop⟩
  · obtain ⟨-, -, hrange⟩ := h.resolve_left hover
    have hnumeral : numeralFrom 0 (readSign v).2 = numeral (readSign v).2 := rfl
    rw [hloop]
    simp only [hnumeral]
    cases hsign : (readSign v).1 with
    | true =>
      simp only [hsign, if_true] at hrange
      rw [if_neg (by simp), if_pos ⟨rfl, by omega⟩]
      rfl
    | false =>
      simp only [hsign, Bool.false_eq_true, if_false] at hrange
      rw [if_pos ⟨rfl, by omega⟩]
      rfl
  · exact absurd (h.resolve_left hover).2.1 hdigits
  · rw [hloop]
    cases hsign : (readSign v).1 <;> simp

theorem parseInt_of_malformed {v : List UInt8} (h : writtenInt v = none) (hlarge : ¬ TooLarge v) :
    parseInt v = (0, some .errSyntax) := by
  by_cases hv : v = []
  · rw [parseInt, if_pos hv]
  rw [parseInt, if_neg hv, parseUint]
  by_cases hds : (readSign v).2 = []
  · rw [if_pos hds]
  rw [if_neg hds]
  rcases parseUintLoop_cases (n := 0) (by norm_num) (readSign v).2 with
    ⟨hdigits, -, -⟩ | ⟨-, -, hloop⟩ | ⟨hover, -⟩
  · refine absurd (.inr ⟨hds, hdigits, fun hrange => ?_⟩) hlarge
    rw [writtenInt, if_pos ⟨hds, hdigits, hrange⟩] at h
    contradiction
  · rw [hloop]
  · exact absurd (.inl hover) hlarge

theorem parseInt_eq_iff_misread {v : List UInt8} (h : writtenInt v = none) (z : ℤ) :
    (parseInt v).1 = z ↔ MisreadInt v z := by
  unfold MisreadInt
  by_cases hlarge : TooLarge v
  · rw [parseInt_of_tooLarge hlarge]
    simp only [hlarge, true_and, not_true_eq_false, false_and, or_false]
    exact eq_comm
  · rw [parseInt_of_malformed h hlarge]
    simp only [hlarge, false_and, not_false_eq_true, true_and, false_or]
    exact eq_comm

theorem eq_of_aroundPoint {t a b : List UInt8} (h : aroundPoint t = some (a, b)) :
    t = a ∧ b = [] ∨ t = fixedPoint a b := by
  have hjoin : [byte '.'].intercalate (t.splitOn (byte '.')) = t :=
    List.intercalate_splitOn (byte '.')
  unfold aroundPoint at h
  split at h
  · next heq =>
    rw [heq] at hjoin
    cases h
    exact .inl ⟨by simpa [List.intercalate] using hjoin.symm, rfl⟩
  · next heq =>
    rw [heq] at hjoin
    cases h
    exact .inr (by simpa [List.intercalate, fixedPoint] using hjoin.symm)
  · contradiction

theorem parseFloat_of_written {s : List UInt8} {q : ℚ} (h : writtenFraction s = some q) :
    parseFloat s = (.num (toFloat64 q), none) := by
  unfold writtenFraction at h
  cases hpoint : aroundPoint (readSign s).2 with
  | none => simp [hpoint] at h
  | some ab =>
    obtain ⟨a, b⟩ := ab
    simp only [hpoint, Option.bind_eq_bind, Option.bind_some] at h
    obtain ⟨⟨hne, hdigits, hlo, hhi⟩, hq⟩ := Option.ite_none_right_eq_some.mp h
    rw [Option.some.inj hq] at hlo hhi
    rw [List.forall_mem_append] at hdigits
    exact parseFloat_decimal hdigits.1 hdigits.2 hne (eq_of_aroundPoint hpoint)
      (Option.some.inj hq).symm hlo hhi toFloat64

theorem special_ne_num {v : List UInt8} {f : Float64} (h : special v = some f) (q : ℚ) :
    f ≠ .num q := by
  unfold special at h
  simp only at h
  split at h
  · cases h
    simp
  · split at h
    · cases h
      simp
    · contradiction

theorem not_misread_of_special {v : List UInt8} {f : Float64} (h : special v = some f) (q : ℚ) :
    ¬ MisreadFraction v q := by
  rintro (⟨hnone, -⟩ | ⟨l, hl, rfl, -⟩)
  · rw [hnone] at h
    contradiction
  · rw [special_text hl] at h
    contradiction

theorem misread_of_not_literal {v : List UInt8} (hspecial : special v = none)
    (h : readFloat v = none) (q : ℚ) : MisreadFraction v q ↔ q = 0 := by
  have hnot (l : FloatLiteral) (hl : l.WellFormed) : l.text ≠ v := by
    rintro rfl
    rw [readFloat_eq_some_iff.mpr ⟨l, hl, rfl, rfl⟩] at h
    contradiction
  constructor
  · rintro (⟨-, -, hq⟩ | ⟨l, hl, htext, -⟩)
    · exact hq
    · exact absurd htext (hnot l hl)
  · exact fun hq => .inl ⟨hspecial, hnot, hq⟩

theorem misread_of_literal {v : List UInt8} {r : ℚ} (h : readFloat v = some r) (q : ℚ) :
    MisreadFraction v q ↔ -overflow < r ∧ r < overflow ∧ q = toFloat64 r := by
  obtain ⟨l, hl, htext, hvalue⟩ := readFloat_eq_some_iff.mp h
  constructor
  · rintro (⟨-, hnot, -⟩ | ⟨l', hl', htext', hlo, hhi, hq⟩)
    · exact absurd htext (hnot l hl)
    · rw [readFloat_eq_some_iff.mpr ⟨l', hl', htext', rfl⟩] at h
      rw [Option.some.inj h] at hlo hhi hq
      exact ⟨hlo, hhi, hq⟩
  · rintro ⟨hlo, hhi, hq⟩
    rw [← hvalue] at hlo hhi hq
    exact .inr ⟨l, hl, htext, hlo, hhi, hq⟩

theorem parseFloat_eq_iff_misread (v : List UInt8) (q : ℚ) :
    (parseFloat v).1 = .num q ↔ MisreadFraction v q := by
  unfold parseFloat parseFloatWith
  cases hspecial : special v with
  | some f => exact iff_of_false (special_ne_num hspecial q) (not_misread_of_special hspecial q)
  | none =>
    cases hread : readFloat v with
    | none =>
      rw [misread_of_not_literal hspecial hread, eq_comm, Float64.num.injEq]
    | some r =>
      rw [misread_of_literal hread]
      simp only
      split_ifs with hhi hlo
      · simp [not_lt.mpr hhi]
      · simp [not_lt.mpr hlo]
      · simp [not_le.mp hhi, not_le.mp hlo, eq_comm]

/-- The stored number is one that some text writes only if the text is taken for it. -/
theorem fieldValue_eq_iff_misread {stored : ℚ → ℚ} {k u v : List UInt8} {w : Value}
    (hv : writtenValue stored k v = none) (hu : writtenValue stored k u = some w) :
    fieldValue k v = w ↔ Misread k v w := by
  unfold writtenValue at hu hv
  unfold fieldValue fieldValueWith Misread
  split_ifs at hu hv ⊢ with hk
  · obtain ⟨q, -, rfl⟩ := Option.map_eq_some_iff.mp hu
    have hread := parseFloat_eq_iff_misread v (stored q)
    rw [parseFloat] at hread
    simp [hread]
  · obtain ⟨z, -, rfl⟩ := Option.map_eq_some_iff.mp hu
    simp [parseInt_eq_iff_misread (Option.map_eq_none_iff.mp hv)]

/-- The text writes a number of the key's kind, a fraction that is kept. -/
def Writes (kept : ℚ → Prop) (k v : List UInt8) : Prop :=
  if k = ascii "TEMP" ∨ k = ascii "HUMI" then ∃ q, writtenFraction v = some q ∧ kept q
  else (writtenInt v).isSome

theorem writtenValue_fieldValue_iff {stored : ℚ → ℚ} {kept : ℚ → Prop}
    (hkept : ∀ q, toFloat64 q = stored q ↔ kept q) (k v : List UInt8) :
    writtenValue stored k v = some (fieldValue k v) ↔ Writes kept k v := by
  unfold writtenValue fieldValue fieldValueWith Writes
  split_ifs with hk
  · cases hq : writtenFraction v with
    | none => simp
    | some q =>
      have hread := parseFloat_of_written hq
      rw [parseFloat] at hread
      simp [hread, eq_comm, ← hkept]
  · cases hz : writtenInt v with
    | none => simp
    | some z => simp [parseInt_of_written hz]

/-- The last field with the key writes a number, or its text writes none and is taken for the
number that was written before. -/
def ReadsWritten (stored : ℚ → ℚ) (kept : ℚ → Prop) (k : List UInt8)
    (fs : List (List UInt8 × List UInt8)) : Prop :=
  ∀ v ∈ lastValue k fs, Writes kept k v ∨ writtenValue stored k v = none ∧
    ∃ w, lastWritten (writtenValue stored k) k fs = some w ∧ Misread k v w

/-- The same for a number of the header, which is 0 where none is written. -/
def HeaderWritten (name : List UInt8) (fs : List (List UInt8 × List UInt8)) : Prop :=
  ∀ v ∈ lastValue name fs, (writtenInt v).isSome ∨
    MisreadInt v ((lastWritten writtenInt name fs).getD 0)

/-- The same for all numbers of a frame. -/
def FrameWritten (stored : ℚ → ℚ) (kept : ℚ → Prop) (raw : List UInt8) : Prop :=
  (∀ payload ∈ hexDecode (payloadText raw), ∀ k, ReadsWritten stored kept k (payloadFields payload)) ∧
    HeaderWritten (ascii "LQI") (headerFields raw) ∧
    HeaderWritten (ascii "RSSI") (headerFields raw)

theorem readsWritten_iff {stored : ℚ → ℚ} {kept : ℚ → Prop}
    (hkept : ∀ q, toFloat64 q = stored q ↔ kept q) (k : List UInt8)
    (fs : List (List UInt8 × List UInt8)) :
    (lastValue k fs).map (fieldValue k) = lastWritten (writtenValue stored k) k fs ↔
      ReadsWritten stored kept k fs := by
  rw [map_lastValue_eq_iff]
  refine forall₂_congr fun v _ => or_congr (writtenValue_fieldValue_iff hkept k v) ?_
  refine and_congr_right fun hv => ⟨fun h => ?_, fun h => ?_⟩
  · obtain ⟨u, hu⟩ := exists_of_lastWritten h
    exact ⟨_, h, (fieldValue_eq_iff_misread hv hu).mp rfl⟩
  · obtain ⟨w, hw, hmisread⟩ := h
    obtain ⟨u, hu⟩ := exists_of_lastWritten hw
    rw [hw, (fieldValue_eq_iff_misread hv hu).mpr hmisread]

theorem headerWritten_iff (name raw : List UInt8) :
    headerNumber name raw = (lastWritten writtenInt name (headerFields raw)).getD 0 ↔
      HeaderWritten name (headerFields raw) := by
  have hread (v : List UInt8) (z : ℤ) (hz : writtenInt v = some z) : (parseInt v).1 = z := by
    rw [parseInt_of_written hz]
  rw [headerNumber, getD_lastValue_eq_iff hread]
  refine forall₂_congr fun v _ => ?_
  cases hv : writtenInt v with
  | some z => simp
  | none => exact or_congr_right (eq_comm.trans (parseInt_eq_iff_misread hv _))

theorem literal_iff_frameWritten {stored : ℚ → ℚ} {kept : ℚ → Prop}
    (hkept : ∀ q, toFloat64 q = stored q ↔ kept q) (raw : List UInt8) :
    Literal stored raw ↔ FrameWritten stored kept raw := by
  have hmap (now : ℕ) : (∀ k, (decodePacket (.ofRaw raw now)).datamap.lookup k =
      (hexDecode (payloadText raw)).bind fun payload =>
        lastWritten (writtenValue stored k) k (payloadFields payload)) ↔
      ∀ payload ∈ hexDecode (payloadText raw), ∀ k,
        ReadsWritten stored kept k (payloadFields payload) := by
    simp only [lookup_decodePacket]
    cases hexDecode (payloadText raw) with
    | none => simp
    | some payload =>
      simp only [Option.bind_some, Option.mem_def, Option.some.injEq, forall_eq']
      exact forall_congr' fun k => readsWritten_iff hkept k _
  have hlqi (now : ℕ) :
      (decodePacket (.ofRaw raw now)).lqi = headerNumber (ascii "LQI") raw := by
    rw [decodePacket_ofRaw]
  have hrssi (now : ℕ) :
      (decodePacket (.ofRaw raw now)).rssi = headerNumber (ascii "RSSI") raw := by
    rw [decodePacket_ofRaw]
  simp only [Literal, FrameWritten, hmap, hlqi, hrssi, headerWritten_iff, forall_const]

/-- The decoder invents no number exactly if the last field of every key writes one, up to texts
that are taken for the number written before. Where the fractions themselves are to be stored,
and not the floats nearest to them, they must be floats. -/
theorem literal_iff (raw : List UInt8) :
    (Literal toFloat64 raw ↔ FrameWritten toFloat64 (fun _ => True) raw) ∧
      (Literal id raw ↔ FrameWritten id (Representable 53 (-1074)) raw) := by
  constructor
  · exact literal_iff_frameWritten (fun q => by simp) raw
  · exact literal_iff_frameWritten (fun q => nearest_eq_self_iff (by norm_num) q) raw

/-- The payload `DEVICE:DEV` that every sensor sends is recorded as a metric of value 0. -/
theorem device_is_recorded_as_zero :
    (decodePacket (.ofRaw (ascii "PAYLOAD=4445564943453A444556") 0)).datamap.lookup
        (ascii "DEVICE") = some (.int 0) ∧
      ∀ stored, ¬ Literal stored (ascii "PAYLOAD=4445564943453A444556") := by
  have hzero : (decodePacket (.ofRaw (ascii "PAYLOAD=4445564943453A444556") 0)).datamap.lookup
      (ascii "DEVICE") = some (.int 0) := by decide +kernel
  refine ⟨hzero, fun stored h => ?_⟩
  have hnone := (h 0).1 (ascii "DEVICE")
  have hwrite : writtenValue stored (ascii "DEVICE") = fun v => (writtenInt v).map .int := by
    funext v
    rw [writtenValue, if_neg (by decide)]
  rw [hzero, hwrite] at hnone
  exact absurd hnone (by decide +kernel)

end OflMotes.Gateway
