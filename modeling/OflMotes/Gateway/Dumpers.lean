import OflMotes.Gateway.Myutils

/-! On which buffers the dumpers end, read every byte once and nothing else, and print two digits
for it. Their counters are 8 bits wide and the length is not. -/
namespace OflMotes.Gateway
open Ascii

/-- The indices below the length are read once each and in order, no other index is, and the
digits printed are two for each of these bytes. -/
structure Exact (mem : ℕ → UInt8) (pLen : ℕ) (acts : List Act) : Prop where
  reads : reads acts = List.range pLen
  digits : (digits acts).map hexDecode = (List.range pLen).map fun i => some [mem i]

/-- A dumper ends, and it has dumped its buffer. -/
def Dumps (mem : ℕ → UInt8) (pLen : ℕ) (dumper : ℕ → Option (List Act)) : Prop :=
  ∃ fuel acts, dumper fuel = some acts ∧ Exact mem pLen acts

section
variable {mem : ℕ → UInt8} {pLen fuel : ℕ}

/-- Digits that are printed for each byte read, by a conversion that can be read back. -/
theorem exact_of_reads {acts : List Act} {conv : UInt8 → List UInt8}
    (hconv : ∀ c, hexDecode (conv c) = some [c]) (hreads : reads acts = List.range pLen)
    (hdigits : digits acts = (reads acts).map fun i => conv (mem i)) : Exact mem pLen acts := by
  refine ⟨hreads, ?_⟩
  rw [hdigits, hreads, List.map_map]
  exact List.map_congr_left fun i _ => hconv (mem i)

theorem reads_rowActs (i k : ℕ) :
    reads (rowActs mem i k) = (List.range k).map fun j => i * perRow + j := by
  rw [rowActs, reads_cons_text, reads_flatMap, List.map_eq_flatMap]
  rfl

theorem digits_rowActs (i k : ℕ) :
    digits (rowActs mem i k) = (reads (rowActs mem i k)).map fun i => hexPairLower (mem i) := by
  rw [reads_rowActs, rowActs, digits_cons_text, digits_flatMap, List.map_map, List.map_eq_flatMap]
  rfl

/-- The rows are put together from the first index on. -/
theorem range_rows (q k : ℕ) :
    ((List.range q).flatMap fun i => (List.range perRow).map fun j => i * perRow + j) ++
      (List.range k).map (fun j => q * perRow + j) = List.range (q * perRow + k) := by
  have hrows : ((List.range q).flatMap fun i => (List.range perRow).map fun j => i * perRow + j) =
      List.range (q * perRow) := by
    induction q with
    | zero => rfl
    | succ q ih =>
      rw [List.range_succ, List.flatMap_append, List.flatMap_singleton, ih, Nat.succ_mul,
        List.range_add]
  rw [hrows, List.range_add]

theorem reads_fullRow (i : ℕ) :
    reads (fullRow mem i) = (List.range perRow).map fun j => i * perRow + j := by
  simp [fullRow, reads_rowActs]

theorem digits_fullRow (i : ℕ) :
    digits (fullRow mem i) = (reads (fullRow mem i)).map fun i => hexPairLower (mem i) := by
  simp [fullRow, digits_rowActs]

theorem reads_lastRow (i k : ℕ) :
    reads (lastRow mem i k) = (List.range k).map fun j => i * perRow + j := by
  simp [lastRow, reads_rowActs]

theorem digits_lastRow (i k : ℕ) :
    digits (lastRow mem i k) = (reads (lastRow mem i k)).map fun i => hexPairLower (mem i) := by
  simp [lastRow, digits_rowActs]

/-- `dump_hex` is exact up to 255 bytes. -/
theorem dumpHex_exact (hlen : pLen ≤ 255) : Dumps mem pLen (dumpHex mem pLen) := by
  refine ⟨_, _, dumpHex_of_le hlen (Nat.lt_succ_self perRow),
    exact_of_reads hexDecode_hexPairLower ?_ ?_⟩
  · simp only [reads_append, reads_flatMap, reads_fullRow, reads_lastRow]
    rw [range_rows, Nat.div_add_mod']
  · simp only [digits_append, digits_flatMap, digits_fullRow, digits_lastRow, reads_append,
      reads_flatMap, List.map_append, List.map_flatMap]

/-- From 256 to 4079 bytes `dump_hex` reads on to the end of a row that is not there. -/
theorem dumpHex_reads_behind (hlen : 256 ≤ pLen) (hrows : pLen / perRow < 255)
    (hfuel : pLen / perRow + 1 < fuel) :
    ∃ acts, dumpHex mem pLen fuel = some acts ∧
      reads acts = List.range ((pLen / perRow + 1) * perRow) := by
  refine ⟨_, dumpHex_of_gt hlen hrows hfuel, ?_⟩
  have hall := range_rows (pLen / perRow + 1) 0
  simp only [reads_append, reads_flatMap, reads_fullRow]
  exact hall

/-- `dump_hex` ends on less than 4080 bytes. -/
theorem dumpHex_ends_iff : (∃ fuel acts, dumpHex mem pLen fuel = some acts) ↔ pLen < 4080 := by
  constructor
  · rintro ⟨fuel, acts, hacts⟩
    by_contra hlen
    rw [dumpHex_eq_none (by omega)] at hacts
    contradiction
  · intro hlen
    by_cases h255 : pLen ≤ 255
    · exact ⟨_, _, dumpHex_of_le h255 (Nat.lt_succ_self perRow)⟩
    · exact ⟨_, _, dumpHex_of_gt (by omega) (by rw [perRow]; omega) (Nat.lt_succ_self _)⟩

theorem dumpHex_dumps_iff : Dumps mem pLen (dumpHex mem pLen) ↔ pLen ≤ 255 := by
  constructor
  · rintro ⟨fuel, acts, hacts, hexact⟩
    by_contra hlen
    have hrows : pLen < 4080 := dumpHex_ends_iff.mp ⟨fuel, acts, hacts⟩
    obtain ⟨acts', hacts', hreads⟩ : ∃ acts', dumpHex mem pLen (fuel + 256) = some acts' ∧
        reads acts' = List.range ((pLen / perRow + 1) * perRow) :=
      dumpHex_reads_behind (by omega) (by rw [perRow]; omega) (by rw [perRow]; omega)
    have hsame := dumpHex_mono (Nat.le_add_right fuel 256) hacts
    rw [hacts', Option.some.injEq] at hsame
    rw [hsame, hexact.reads] at hreads
    have hlength := congrArg List.length hreads
    rw [List.length_range, List.length_range, perRow] at hlength
    omega
  · exact dumpHex_exact

/-- `_dump` prints what the loop does for a payload, and a semicolon. -/
theorem dumpSnip_eq_output (addrToStr : List UInt8 → List UInt8) (data : List UInt8) :
    dumpSnip addrToStr fuel (.undef data) =
      (dumpBytes (fun i => data.getD i 0) data.length fuel).map fun acts =>
        output acts ++ ascii ";" := by
  rw [dumpSnip, dumpBytes, Option.map_map]
  congr 1
  ext1 ps
  simp [output, List.flatMap_assoc]

theorem dumpBytes_eq_none (hlen : 256 ≤ pLen) : dumpBytes mem pLen fuel = none := by
  rw [dumpBytes, forU8_eq_none hlen, Option.map_none]

/-- Up to 255 bytes are dumped one after the other. -/
theorem dumpBytes_of_le (hlen : pLen ≤ 255) (hfuel : pLen < fuel) :
    dumpBytes mem pLen fuel =
      some ((List.range pLen).flatMap fun i => [.read i, .digits (hexPair (mem i))]) := by
  rw [dumpBytes, forU8_eq_some hlen hfuel, Option.map_some, List.flatMap_map]
  congr 1
  apply List.flatMap_congr
  intro i hi
  have htoNat : (UInt8.ofNat i).toNat = i := by
    have := List.mem_range.mp hi
    rw [UInt8.toNat_ofNat']
    omega
  rw [htoNat]

theorem dumpBytes_dumps_iff : Dumps mem pLen (dumpBytes mem pLen) ↔ pLen ≤ 255 := by
  constructor
  · rintro ⟨fuel, acts, hacts, -⟩
    by_contra hlen
    rw [dumpBytes_eq_none (by omega)] at hacts
    contradiction
  · intro hlen
    have hreads : reads ((List.range pLen).flatMap
        fun i => [.read i, .digits (hexPair (mem i))]) = List.range pLen := by simp
    refine ⟨_, _, dumpBytes_of_le hlen (Nat.lt_succ_self pLen), exact_of_reads
      (fun c => by simpa using hexDecode_hexPair [c]) hreads ?_⟩
    rw [hreads, digits_flatMap, List.map_eq_flatMap]
    rfl

/-- `dump_hex_compact` has the loop in brackets. -/
theorem dumpHexCompact_dumps_iff : Dumps mem pLen (dumpHexCompact mem pLen) ↔ pLen ≤ 255 := by
  have hbrackets (acts : List Act) :
      Exact mem pLen (.text (ascii "<") :: acts ++ [.text (ascii ">\n")]) ↔
        Exact mem pLen acts := by
    constructor
    · exact fun h => ⟨by simpa using h.reads, by simpa using h.digits⟩
    · exact fun h => ⟨by simpa using h.reads, by simpa using h.digits⟩
  have hloop : Dumps mem pLen (dumpHexCompact mem pLen) ↔ Dumps mem pLen (dumpBytes mem pLen) := by
    constructor
    · rintro ⟨fuel, _, hcompact, hexact⟩
      obtain ⟨acts, hacts, rfl⟩ := Option.map_eq_some_iff.mp hcompact
      exact ⟨fuel, acts, hacts, (hbrackets acts).mp hexact⟩
    · rintro ⟨fuel, acts, hacts, hexact⟩
      exact ⟨fuel, _, congrArg (Option.map _) hacts, (hbrackets acts).mpr hexact⟩
  exact hloop.trans dumpBytes_dumps_iff

end

/-- The dumpers end, stay in the buffer and print each of its bytes once exactly if the length
fits their 8-bit counters. The first of them is the loop of `_dump`, which prints what it prints of a
payload, and a semicolon. -/
theorem dumpers_exact_iff (mem : ℕ → UInt8) (pLen : ℕ) :
    (Dumps mem pLen (dumpBytes mem pLen) ↔ pLen ≤ 255) ∧
      (Dumps mem pLen (dumpHexCompact mem pLen) ↔ pLen ≤ 255) ∧
      (Dumps mem pLen (dumpHex mem pLen) ↔ pLen ≤ 255) ∧
      ∀ addrToStr fuel data, dumpSnip addrToStr fuel (.undef data) =
        (dumpBytes (fun i => data.getD i 0) data.length fuel).map fun acts =>
          output acts ++ ascii ";" :=
  ⟨dumpBytes_dumps_iff, dumpHexCompact_dumps_iff, dumpHex_dumps_iff,
    fun addrToStr _ data => dumpSnip_eq_output addrToStr data⟩

/-- Of 256 bytes two dumpers find no end, and the third one reads 16 bytes behind them. -/
theorem dumpers_fail_on_256_bytes :
    (¬ Dumps (fun _ => 0) 256 (dumpBytes (fun _ => 0) 256) ∧
      ¬ Dumps (fun _ => 0) 256 (dumpHexCompact (fun _ => 0) 256) ∧
      ¬ Dumps (fun _ => 0) 256 (dumpHex (fun _ => 0) 256)) ∧
    (∀ fuel, dumpBytes (fun _ => 0) 256 fuel = none ∧ dumpHexCompact (fun _ => 0) 256 fuel = none) ∧
    ∃ acts, dumpHex (fun _ => 0) 256 18 = some acts ∧ reads acts = List.range 272 := by
  refine ⟨⟨?_, ?_, ?_⟩, ?_, dumpHex_reads_behind le_rfl (by decide) (by decide)⟩
  · rw [dumpBytes_dumps_iff]
    decide
  · rw [dumpHexCompact_dumps_iff]
    decide
  · rw [dumpHex_dumps_iff]
    decide
  · intro fuel
    have hnone : dumpBytes (fun _ => 0) 256 fuel = none := dumpBytes_eq_none le_rfl
    exact ⟨hnone, by rw [dumpHexCompact, hnone, Option.map_none]⟩

end OflMotes.Gateway
