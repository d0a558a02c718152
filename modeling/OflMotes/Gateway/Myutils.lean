import OflMotes.Gateway.Pktdump
import OflMotes.Lib.Loop

/-! The hexadecimal dumpers of the gateway firmware: `myutils.c` and the payload loop of `_dump`.
The buffer is the memory from its first byte on, so that a read behind it is a read too. `char` is
unsigned, as on the board of the gateway. -/
namespace OflMotes.Gateway
open Ascii

/-- What a dumper does: it reads a byte of the buffer, or it prints the hexadecimal digits of a
byte or another text. -/
inductive Act
  | read (i : ℕ)
  | digits (s : List UInt8)
  | text (s : List UInt8)
  deriving DecidableEq

/-- The indices read, in order. -/
def reads (acts : List Act) : List ℕ :=
  acts.filterMap fun
    | .read i => some i
    | _ => none

/-- The digits printed for bytes, in order. -/
def digits (acts : List Act) : List (List UInt8) :=
  acts.filterMap fun
    | .digits s => some s
    | _ => none

/-- The whole text printed. -/
def output (acts : List Act) : List UInt8 :=
  acts.flatMap fun
    | .read _ => []
    | .digits s => s
    | .text s => s

section
variable (mem : ℕ → UInt8) (pLen fuel : ℕ)

/-- The loop that `_dump` has for a payload and `dump_hex_compact` for its buffer. -/
def dumpBytes : Option (List Act) :=
  (forU8 pLen fuel 0).map fun ps =>
    ps.flatMap fun p => [.read p.toNat, .digits (hexPair (mem p.toNat))]

/-- `dump_hex_compact` -/
def dumpHexCompact : Option (List Act) :=
  (dumpBytes mem pLen fuel).map fun acts => .text (ascii "<") :: acts ++ [.text (ascii ">\n")]

/-- `PER_ROW` -/
def perRow : ℕ := 16

/-- The variables of `dump_hex`, and what it has done. -/
structure HexDump where
  idxLigne : UInt8
  idxChar : UInt8
  offset : UInt8
  sss : List UInt8
  acts : List Act

/-- The characters of a row that `printf ("%s")` prints. -/
def HexDump.column (h : HexDump) : List UInt8 := h.sss.takeWhile (· ≠ 0)

/-- What stands in the column for a byte. -/
def shown (c : UInt8) : UInt8 := if byte ' ' ≤ c ∧ c ≤ byte '~' then c else byte '.'

/-- A round of the loop over a row. It ends the row or, behind the last byte, all of `dump_hex`. -/
def dumpChar (h : HexDump) : (List Act ⊕ HexDump) ⊕ HexDump :=
  if h.idxChar.toNat < perRow then
    if pLen ≤ h.offset.toNat then
      .inl (.inl (h.acts ++
        List.replicate (perRow - (h.idxChar.toNat + 1)) (.text (ascii "   ")) ++
        [.text (ascii "   " ++ h.column ++ ascii "\r\n")]))
    else
      let i := h.idxLigne.toNat * perRow + h.idxChar.toNat
      let c := mem i
      .inr { h with
        idxChar := h.idxChar + 1
        offset := h.offset + 1
        sss := h.sss.set h.idxChar.toNat (shown c)
        acts := h.acts ++ [.read i, .digits (hexPairLower c), .text (ascii " ")] }
  else
    .inl (.inr { h with
      idxLigne := h.idxLigne + 1
      acts := h.acts ++ [.text (h.column ++ ascii "\r\n")] })

/-- A round of the loop over the rows. -/
def dumpRow (h : HexDump) : Option (List Act ⊕ HexDump) :=
  if h.idxLigne.toNat ≤ pLen / perRow then
    Loop.run (fun h => some (dumpChar mem pLen h)) fuel { h with
      idxChar := 0
      sss := List.replicate (perRow + 1) 0
      acts := h.acts ++ [.text (ascii "~ ")] }
  else some (.inl (h.acts ++ [.text (ascii "\r\n")]))

/-- `dump_hex`. What its variables hold before the first row is never read. -/
def dumpHex : Option (List Act) := Loop.run (dumpRow mem pLen fuel) fuel ⟨0, 0, 0, [], []⟩

end

section
variable (i : ℕ) (s : List UInt8) (acts : List Act)

@[simp] theorem reads_nil : reads [] = [] := rfl

@[simp] theorem reads_cons_read : reads (.read i :: acts) = i :: reads acts := rfl

@[simp] theorem reads_cons_digits : reads (.digits s :: acts) = reads acts := rfl

@[simp] theorem reads_cons_text : reads (.text s :: acts) = reads acts := rfl

@[simp] theorem digits_nil : digits [] = [] := rfl

@[simp] theorem digits_cons_read : digits (.read i :: acts) = digits acts := rfl

@[simp] theorem digits_cons_digits : digits (.digits s :: acts) = s :: digits acts := rfl

@[simp] theorem digits_cons_text : digits (.text s :: acts) = digits acts := rfl

@[simp] theorem reads_replicate_text : reads (List.replicate i (.text s)) = [] := by simp [reads]

@[simp] theorem digits_replicate_text : digits (List.replicate i (.text s)) = [] := by
  simp [digits]

end

@[simp] theorem reads_append (xs ys : List Act) : reads (xs ++ ys) = reads xs ++ reads ys :=
  List.filterMap_append

@[simp] theorem digits_append (xs ys : List Act) : digits (xs ++ ys) = digits xs ++ digits ys :=
  List.filterMap_append

@[simp] theorem reads_flatMap {α : Type*} (l : List α) (f : α → List Act) :
    reads (l.flatMap f) = l.flatMap fun a => reads (f a) := List.filterMap_flatMap

@[simp] theorem digits_flatMap {α : Type*} (l : List α) (f : α → List Act) :
    digits (l.flatMap f) = l.flatMap fun a => digits (f a) := List.filterMap_flatMap

theorem toNat_add_one (p : UInt8) : (p + 1).toNat = (p.toNat + 1) % 256 := by
  rw [UInt8.toNat_add]
  rfl

theorem shown_ne_zero (c : UInt8) : shown c ≠ 0 := by
  unfold shown
  split_ifs with h
  · rintro rfl
    exact absurd h.1 (by decide)
  · decide

section
variable (mem : ℕ → UInt8)

/-- What is done for one byte. -/
def byteActs (i : ℕ) : List Act :=
  [.read i, .digits (hexPairLower (mem i)), .text (ascii " ")]

/-- What is done for the first `k` bytes of row `i`. -/
def rowActs (i k : ℕ) : List Act :=
  .text (ascii "~ ") :: (List.range k).flatMap fun j => byteActs mem (i * perRow + j)

/-- The column of the first `k` bytes of row `i`. -/
def rowText (i k : ℕ) : List UInt8 := (List.range k).map fun j => shown (mem (i * perRow + j))

/-- A row of 16 bytes. -/
def fullRow (i : ℕ) : List Act :=
  rowActs mem i perRow ++ [.text (rowText mem i perRow ++ ascii "\r\n")]

/-- The last row, of less than 16 bytes. -/
def lastRow (i k : ℕ) : List Act :=
  rowActs mem i k ++ List.replicate (perRow - (k + 1)) (.text (ascii "   ")) ++
    [.text (ascii "   " ++ rowText mem i k ++ ascii "\r\n")]

/-- The rows in front of row `i`, with the numbers that their counter shows. -/
def fullRows (i : ℕ) : List Act := (List.range i).flatMap fun i => fullRow mem (i % 256)

/-- In front of row `i`. The counters of rows and bytes wrap around. -/
structure AtRow (i : ℕ) (h : HexDump) : Prop where
  idxLigne : h.idxLigne.toNat = i % 256
  offset : h.offset.toNat = i * perRow % 256
  acts : h.acts = fullRows mem i

/-- In front of byte `j` of row `i`. -/
structure AtChar (i j : ℕ) (h : HexDump) : Prop where
  idxLigne : h.idxLigne.toNat = i % 256
  idxChar : h.idxChar.toNat = j
  offset : h.offset.toNat = (i * perRow + j) % 256
  sss : h.sss = rowText mem (i % 256) j ++ List.replicate (perRow + 1 - j) 0
  acts : h.acts = fullRows mem i ++ rowActs mem (i % 256) j

end

section
variable {mem : ℕ → UInt8} {pLen fuel i j : ℕ} {h : HexDump}

theorem AtChar.column (hat : AtChar mem i j h) (hj : j ≤ perRow) :
    h.column = rowText mem (i % 256) j := by
  have hzeros : (List.replicate (perRow + 1 - j) (0 : UInt8)).takeWhile (· ≠ 0) = [] := by
    rw [Nat.sub_add_comm hj, List.replicate_succ, List.takeWhile_cons_of_neg (by decide)]
  have hne : ∀ c ∈ rowText mem (i % 256) j, decide (c ≠ 0) = true := by
    intro c hc
    obtain ⟨j, -, rfl⟩ := List.mem_map.mp hc
    exact decide_eq_true (shown_ne_zero _)
  rw [HexDump.column, hat.sss, List.takeWhile_append_of_pos hne, hzeros, List.append_nil]

theorem rowText_succ (i j : ℕ) :
    rowText mem i (j + 1) = rowText mem i j ++ [shown (mem (i * perRow + j))] := by
  rw [rowText, List.range_succ, List.map_append]
  rfl

theorem rowActs_succ (i j : ℕ) :
    rowActs mem i (j + 1) = rowActs mem i j ++ byteActs mem (i * perRow + j) := by
  rw [rowActs, List.range_succ, List.flatMap_append, List.flatMap_singleton]
  rfl

theorem fullRows_succ (i : ℕ) :
    fullRows mem (i + 1) = fullRows mem i ++ fullRow mem (i % 256) := by
  rw [fullRows, List.range_succ, List.flatMap_append, List.flatMap_singleton]
  rfl

/-- A byte of the row. -/
theorem dumpChar_next (hat : AtChar mem i j h) (hj : j < perRow) (hoffset : h.offset.toNat < pLen) :
    ∃ h', dumpChar mem pLen h = .inr h' ∧ AtChar mem i (j + 1) h' := by
  have hlen : (rowText mem (i % 256) j).length = j := by simp [rowText]
  have hzeros : perRow + 1 - j = (perRow + 1 - (j + 1)) + 1 := by omega
  rw [dumpChar, if_pos (by rw [hat.idxChar]; exact hj), if_neg (by omega)]
  refine ⟨_, rfl, ?_⟩
  simp only [hat.idxLigne, hat.idxChar, hat.sss, hat.acts]
  refine ⟨hat.idxLigne, ?_, ?_, ?_, ?_⟩
  · rw [toNat_add_one, hat.idxChar]
    simp only [perRow] at hj
    omega
  · rw [toNat_add_one, hat.offset]
    omega
  · rw [hzeros, List.replicate_succ, List.set_append_right _ _ hlen.le, hlen, Nat.sub_self,
      List.set_cons_zero, rowText_succ]
    simp
  · rw [rowActs_succ, List.append_assoc]
    rfl

/-- The end of a row. -/
theorem dumpChar_row (pLen : ℕ) (hat : AtChar mem i perRow h) :
    ∃ h', dumpChar mem pLen h = .inl (.inr h') ∧ AtRow mem (i + 1) h' := by
  rw [dumpChar, if_neg (by rw [hat.idxChar]; exact lt_irrefl _)]
  refine ⟨_, rfl, ?_⟩
  simp only [hat.column le_rfl, hat.acts]
  refine ⟨?_, ?_, ?_⟩
  · rw [toNat_add_one, hat.idxLigne]
    omega
  · rw [hat.offset, Nat.succ_mul]
  · rw [fullRows_succ, List.append_assoc]
    rfl

/-- The way out of `dump_hex` behind the last byte. -/
theorem dumpChar_return (hat : AtChar mem i j h) (hj : j < perRow)
    (hoffset : pLen ≤ h.offset.toNat) :
    dumpChar mem pLen h = .inl (.inl
      (fullRows mem i ++ lastRow mem (i % 256) j)) := by
  rw [dumpChar, if_pos (by rw [hat.idxChar]; exact hj), if_pos hoffset, hat.column hj.le,
    hat.acts, hat.idxChar, lastRow]
  simp only [List.append_assoc]

/-- The first byte of a row. -/
theorem atChar_zero (hat : AtRow mem i h) : AtChar mem i 0 { h with
    idxChar := 0
    sss := List.replicate (perRow + 1) 0
    acts := h.acts ++ [.text (ascii "~ ")] } where
  idxLigne := hat.idxLigne
  idxChar := rfl
  offset := hat.offset
  sss := rfl
  acts := by rw [hat.acts]; rfl

/-- A row goes on for the bytes in front of the length, as far as the counter tells, and ends as
the round behind them does. -/
theorem dumpRow_of_rounds {k : ℕ} {Q : List Act ⊕ HexDump → Prop} (hat : AtRow mem i h)
    (hrow : i % 256 ≤ pLen / perRow) (hk : k ≤ perRow)
    (hbytes : ∀ j < k, (i * perRow + j) % 256 < pLen)
    (hend : ∀ h, AtChar mem i k h → ∃ r, dumpChar mem pLen h = .inl r ∧ Q r)
    (hfuel : perRow < fuel) : ∃ r, dumpRow mem pLen fuel h = some r ∧ Q r := by
  rw [dumpRow, if_pos (by rw [hat.idxLigne]; exact hrow)]
  refine Loop.run_of_rounds (I := AtChar mem i) ?_ ?_ (hk.trans_lt hfuel) (atChar_zero hat)
  · intro j h hj hchar
    obtain ⟨h', hh', hnext⟩ := dumpChar_next hchar (hj.trans_le hk)
      (by rw [hchar.offset]; exact hbytes j hj)
    exact ⟨h', congrArg some hh', hnext⟩
  · intro h hchar
    obtain ⟨r, hr, hQ⟩ := hend h hchar
    exact ⟨r, congrArg some hr, hQ⟩

theorem dumpRow_full (hat : AtRow mem i h) (hrow : i % 256 ≤ pLen / perRow)
    (hbytes : ∀ j < perRow, (i * perRow + j) % 256 < pLen) (hfuel : perRow < fuel) :
    ∃ h', dumpRow mem pLen fuel h = some (.inr h') ∧ AtRow mem (i + 1) h' := by
  have hend (h : HexDump) (hchar : AtChar mem i perRow h) :
      ∃ r, dumpChar mem pLen h = .inl r ∧ ∃ h', r = .inr h' ∧ AtRow mem (i + 1) h' := by
    obtain ⟨h', hh', hnext⟩ := dumpChar_row pLen hchar
    exact ⟨.inr h', hh', h', rfl, hnext⟩
  obtain ⟨r, hr, h', rfl, hnext⟩ := dumpRow_of_rounds hat hrow le_rfl hbytes hend hfuel
  exact ⟨h', hr, hnext⟩

/-- The row that the length ends in. -/
theorem dumpRow_last {k : ℕ} (hat : AtRow mem i h) (hlen : pLen = i * perRow + k) (hk : k < perRow)
    (h255 : pLen ≤ 255) (hfuel : perRow < fuel) :
    dumpRow mem pLen fuel h = some (.inl (fullRows mem i ++ lastRow mem (i % 256) k)) := by
  have hrow : i % 256 ≤ pLen / perRow := by
    rw [hlen, perRow]
    omega
  have hend (h : HexDump) (hchar : AtChar mem i k h) : ∃ r, dumpChar mem pLen h = .inl r ∧
      r = .inl (fullRows mem i ++ lastRow mem (i % 256) k) :=
    ⟨_, dumpChar_return hchar hk (by rw [hchar.offset]; omega), rfl⟩
  obtain ⟨r, hr, rfl⟩ := dumpRow_of_rounds hat hrow hk.le (fun j hj => by omega) hend hfuel
  exact hr

/-- Behind the rows. -/
theorem dumpRow_behind (hat : AtRow mem i h) (hrow : pLen / perRow < i % 256) :
    dumpRow mem pLen fuel h = some (.inl (fullRows mem i ++ [.text (ascii "\r\n")])) := by
  rw [dumpRow, if_neg (by rw [hat.idxLigne]; omega), hat.acts]

theorem atRow_zero : AtRow mem 0 ⟨0, 0, 0, [], []⟩ := ⟨rfl, rfl, rfl⟩

theorem dumpRow_mono {fuel' : ℕ} (hle : fuel ≤ fuel') {x : List Act ⊕ HexDump}
    (hx : dumpRow mem pLen fuel h = some x) : dumpRow mem pLen fuel' h = some x := by
  rw [dumpRow] at hx ⊢
  split_ifs at hx ⊢
  · exact Loop.run_mono (fun _ _ hs => hs) hle hx
  · exact hx

/-- More fuel does not change what `dump_hex` does. -/
theorem dumpHex_mono {fuel' : ℕ} (hle : fuel ≤ fuel') {acts : List Act}
    (hacts : dumpHex mem pLen fuel = some acts) : dumpHex mem pLen fuel' = some acts :=
  Loop.run_mono (fun _ _ hx => dumpRow_mono hle hx) hle hacts

/-- Up to 256 rows are told apart by their counter. -/
theorem fullRows_eq {k : ℕ} (hk : k ≤ 256) :
    fullRows mem k = (List.range k).flatMap fun i => fullRow mem i := by
  apply List.flatMap_congr
  intro i hi
  rw [Nat.mod_eq_of_lt ((List.mem_range.mp hi).trans_le hk)]

/-- Up to 255 bytes are dumped in full rows and a last one with less than 16 bytes. -/
theorem dumpHex_of_le (hlen : pLen ≤ 255) (hfuel : perRow < fuel) :
    dumpHex mem pLen fuel = some (((List.range (pLen / perRow)).flatMap fun i => fullRow mem i) ++
      lastRow mem (pLen / perRow) (pLen % perRow)) := by
  have hmod : pLen / perRow % 256 = pLen / perRow := by
    rw [perRow]
    omega
  have hrows : pLen / perRow < fuel := by
    rw [perRow] at *
    omega
  have hdump : ∃ acts, dumpHex mem pLen fuel = some acts ∧ acts =
      fullRows mem (pLen / perRow) ++ lastRow mem (pLen / perRow % 256) (pLen % perRow) := by
    refine Loop.run_of_rounds (I := AtRow mem) ?_ ?_ hrows atRow_zero
    · intro i h hi hat
      rw [perRow] at hi
      exact dumpRow_full hat (by rw [perRow]; omega) (by intro j hj; rw [perRow] at *; omega) hfuel
    · intro h hat
      exact ⟨_, dumpRow_last hat (Nat.div_add_mod' pLen perRow).symm (Nat.mod_lt _ (by decide))
        hlen hfuel, rfl⟩
  obtain ⟨acts, hacts, rfl⟩ := hdump
  rw [fullRows_eq (by rw [perRow]; omega), hmod] at hacts
  exact hacts

/-- The last row is filled up with spaces in front of its column. -/
example : (dumpHex (fun i => UInt8.ofNat (i + 64)) 3 17).map output =
    some (ascii "~ 40 41 42 " ++ List.replicate 39 (byte ' ') ++ ascii "@AB\r\n") := by decide

/-- From 256 bytes on every row is dumped in full, and one more where the length ends. -/
theorem dumpHex_of_gt (hlen : 256 ≤ pLen) (hrows : pLen / perRow < 255)
    (hfuel : pLen / perRow + 1 < fuel) :
    dumpHex mem pLen fuel = some
      (((List.range (pLen / perRow + 1)).flatMap fun i => fullRow mem i) ++
        [.text (ascii "\r\n")]) := by
  have hdump : ∃ acts, dumpHex mem pLen fuel = some acts ∧
      acts = fullRows mem (pLen / perRow + 1) ++ [.text (ascii "\r\n")] := by
    refine Loop.run_of_rounds (I := AtRow mem) ?_ ?_ hfuel atRow_zero
    · intro i h hi hat
      exact dumpRow_full hat (by omega) (by intro j _; omega) (by rw [perRow] at *; omega)
    · exact fun h hat => ⟨_, dumpRow_behind hat (by omega), rfl⟩
  obtain ⟨acts, hacts, rfl⟩ := hdump
  rw [fullRows_eq (by omega)] at hacts
  exact hacts

/-- From 4080 bytes on the counter of the rows never gets behind the last one. -/
theorem dumpRow_goes_on (hlen : 4080 ≤ pLen) (hat : AtRow mem i h) {x : List Act ⊕ HexDump}
    (hx : dumpRow mem pLen fuel h = some x) : ∃ h', x = .inr h' ∧ AtRow mem (i + 1) h' := by
  obtain ⟨h', hh', hnext⟩ : ∃ h', dumpRow mem pLen (fuel + (perRow + 1)) h = some (.inr h') ∧
      AtRow mem (i + 1) h' :=
    dumpRow_full hat (by rw [perRow]; omega) (by intro j _; omega) (by omega)
  rw [dumpRow_mono (Nat.le_add_right fuel (perRow + 1)) hx] at hh'
  exact ⟨h', Option.some.inj hh', hnext⟩

theorem dumpHex_eq_none (hlen : 4080 ≤ pLen) : dumpHex mem pLen fuel = none := by
  apply Loop.run_eq_none (I := fun h => ∃ i, AtRow mem i h)
  · rintro h acts ⟨i, hat⟩ hx
    obtain ⟨h', hh', -⟩ := dumpRow_goes_on hlen hat hx
    contradiction
  · rintro h h' ⟨i, hat⟩ hx
    obtain ⟨h'', hh'', hnext⟩ := dumpRow_goes_on hlen hat hx
    cases hh''
    exact ⟨i + 1, hnext⟩
  · exact ⟨0, atRow_zero⟩

end

end OflMotes.Gateway
