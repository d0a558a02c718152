import Mathlib.Algebra.Order.Ring.Nat
import Mathlib.Tactic.Ring
import Mathlib.Tactic.NormNum

/-! Texts as lists of bytes: literals, decimal and hexadecimal numerals, and the numbers that
they write. -/
namespace OflMotes.Ascii

/-- The byte of an ASCII character. -/
def byte (c : Char) : UInt8 := UInt8.ofNat c.toNat

/-- The bytes of a literal of the source; one byte for each of its characters. -/
def ascii (s : String) : List UInt8 := s.toList.map byte

def IsDigit (b : UInt8) : Prop := 48 ≤ b.toNat ∧ b.toNat ≤ 57

instance (b : UInt8) : Decidable (IsDigit b) := inferInstanceAs (Decidable (_ ∧ _))

/-- The value of a decimal digit, none for any other byte. -/
def digitVal (b : UInt8) : Option ℕ := if IsDigit b then some (b.toNat - 48) else none

/-- The number written by further digits behind those that wrote `n`. -/
def numeralFrom (n : ℕ) (ds : List UInt8) : ℕ := ds.foldl (fun n b => n * 10 + (b.toNat - 48)) n

/-- The natural number written by a list of decimal digits. -/
def numeral (ds : List UInt8) : ℕ := numeralFrom 0 ds

/-- The shortest decimal numeral of a natural number. -/
def decimal (n : ℕ) : List UInt8 := (Nat.toDigits 10 n).map fun c => UInt8.ofNat c.toNat

/-- Leading zeros up to the given width. -/
def padZeros (w : ℕ) (ds : List UInt8) : List UInt8 := List.replicate (w - ds.length) 48 ++ ds

/-- The decimal numeral of an integer, with a minus sign in front of a negative one. -/
def signed (z : ℤ) : List UInt8 := if z < 0 then 45 :: decimal z.natAbs else decimal z.natAbs

theorem digitVal_of_isDigit {b : UInt8} (h : IsDigit b) : digitVal b = some (b.toNat - 48) :=
  if_pos h

/-- A property of all ten digits. -/
theorem forall_isDigit {p : UInt8 → Prop} (h : ∀ n < 10, p (UInt8.ofNat (48 + n))) {b : UInt8}
    (hb : IsDigit b) : p b := by
  obtain ⟨hlo, hhi⟩ := hb
  have he : UInt8.ofNat (48 + (b.toNat - 48)) = b := by
    rw [Nat.add_sub_cancel' hlo, UInt8.ofNat_toNat]
  rw [← he]
  exact h _ (by omega)

@[simp] theorem numeralFrom_nil (n : ℕ) : numeralFrom n [] = n := rfl

@[simp] theorem numeralFrom_cons (n : ℕ) (b : UInt8) (ds : List UInt8) :
    numeralFrom n (b :: ds) = numeralFrom (n * 10 + (b.toNat - 48)) ds := by
  simp only [numeralFrom, List.foldl_cons]

theorem numeralFrom_append (n : ℕ) (ds es : List UInt8) :
    numeralFrom n (ds ++ es) = numeralFrom (numeralFrom n ds) es := by
  simp [numeralFrom]

theorem numeralFrom_eq (n : ℕ) (ds : List UInt8) :
    numeralFrom n ds = n * 10 ^ ds.length + numeral ds := by
  induction ds generalizing n with
  | nil => simp [numeral]
  | cons b ds ih =>
    rw [numeral, numeralFrom_cons, numeralFrom_cons, ih, ih (0 * 10 + _), List.length_cons, pow_succ]
    ring

theorem numeral_append (ds es : List UInt8) :
    numeral (ds ++ es) = numeral ds * 10 ^ es.length + numeral es := by
  rw [numeral, numeralFrom_append, numeralFrom_eq]
  rfl

theorem le_numeralFrom (n : ℕ) (ds : List UInt8) : n ≤ numeralFrom n ds := by
  rw [numeralFrom_eq]
  exact (Nat.le_mul_of_pos_right n (by positivity)).trans (Nat.le_add_right _ _)

theorem numeral_lt {ds : List UInt8} (h : ∀ b ∈ ds, IsDigit b) :
    numeral ds < 10 ^ ds.length := by
  induction ds with
  | nil => simp [numeral]
  | cons b ds ih =>
    have hb := h b (by simp)
    have hds := ih fun c hc => h c (by simp [hc])
    simp only [IsDigit] at hb
    rw [numeral, numeralFrom_cons, numeralFrom_eq, List.length_cons, pow_succ]
    have : (0 * 10 + (b.toNat - 48)) * 10 ^ ds.length ≤ 9 * 10 ^ ds.length :=
      Nat.mul_le_mul_right _ (by omega)
    omega

@[simp] theorem numeral_replicate_zero (k : ℕ) (ds : List UInt8) :
    numeral (List.replicate k 48 ++ ds) = numeral ds := by
  induction k with
  | zero => simp
  | succ k ih =>
    rw [List.replicate_succ, List.cons_append, numeral, numeralFrom_cons]
    exact ih

@[simp] theorem numeral_padZeros (w : ℕ) (ds : List UInt8) :
    numeral (padZeros w ds) = numeral ds := numeral_replicate_zero _ _

theorem isDigit_padZeros {w : ℕ} {ds : List UInt8} (h : ∀ b ∈ ds, IsDigit b) :
    ∀ b ∈ padZeros w ds, IsDigit b := by
  intro b hb
  rcases List.mem_append.mp hb with hz | hb
  · obtain rfl := List.eq_of_mem_replicate hz
    decide
  · exact h b hb

theorem padZeros_length (w : ℕ) (ds : List UInt8) :
    (padZeros w ds).length = max w ds.length := by
  simp [padZeros]; omega

theorem decimal_ne_nil (n : ℕ) : decimal n ≠ [] := by simp [decimal]

theorem isDigit_decimal (n : ℕ) : ∀ b ∈ decimal n, IsDigit b := by
  intro b hb
  obtain ⟨c, hc, rfl⟩ := List.mem_map.mp hb
  have hd := Nat.isDigit_of_mem_toDigits (by decide) (by decide) hc
  simp only [Char.isDigit, ge_iff_le, Bool.and_eq_true, decide_eq_true_eq, UInt32.le_iff_toNat_le] at hd
  simp only [IsDigit, UInt8.toNat_ofNat']
  change 48 ≤ c.toNat ∧ c.toNat ≤ 57 at hd
  omega

theorem decimal_length_le {n k : ℕ} (hk : 0 < k) (h : n < 10 ^ k) : (decimal n).length ≤ k := by
  rw [decimal, List.length_map]
  exact (Nat.length_toDigits_le_iff (by decide) hk).mpr h

/-- Reading a printed number gives the number back. -/
@[simp] theorem numeral_decimal (n : ℕ) : numeral (decimal n) = n := by
  have hmap : ∀ (l : List Char) (acc : ℕ), (∀ c ∈ l, c.toNat < 256) →
      numeralFrom acc (l.map fun c => UInt8.ofNat c.toNat) = Nat.ofDigitChars 10 l acc := by
    intro l
    induction l with
    | nil => simp
    | cons c l ih =>
      intro acc hl
      have hc := hl c (by simp)
      rw [List.map_cons, numeralFrom_cons, Nat.ofDigitChars_cons, ← ih _ fun d hd => hl d (by simp [hd])]
      rw [UInt8.toNat_ofNat', Nat.mod_eq_of_lt hc, Nat.mul_comm]
      rfl
  rw [numeral, decimal, hmap, Nat.ofDigitChars_ten_toDigits]
  intro c hc
  have hd := Nat.isDigit_of_mem_toDigits (by decide) (by decide) hc
  simp only [Char.isDigit, ge_iff_le, Bool.and_eq_true, decide_eq_true_eq, UInt32.le_iff_toNat_le] at hd
  have : c.toNat ≤ 57 := hd.2
  omega

/-- The upper-case hexadecimal digit of a number below 16. -/
def hexDigit (n : ℕ) : UInt8 := if n < 10 then UInt8.ofNat (48 + n) else UInt8.ofNat (55 + n)

/-- Value of a hexadecimal digit of either case, none for any other byte. -/
def hexVal (b : UInt8) : Option ℕ :=
  if IsDigit b then some (b.toNat - 48)
  else if 97 ≤ b.toNat ∧ b.toNat ≤ 102 then some (b.toNat - 87)
  else if 65 ≤ b.toNat ∧ b.toNat ≤ 70 then some (b.toNat - 55)
  else none

/-- Two upper-case hexadecimal digits. -/
def hexPair (b : UInt8) : List UInt8 := [hexDigit (b.toNat / 16), hexDigit (b.toNat % 16)]

/-- The lower-case hexadecimal digit of a number below 16. -/
def hexDigitLower (n : ℕ) : UInt8 := if n < 10 then UInt8.ofNat (48 + n) else UInt8.ofNat (87 + n)

/-- Two lower-case hexadecimal digits. -/
def hexPairLower (b : UInt8) : List UInt8 :=
  [hexDigitLower (b.toNat / 16), hexDigitLower (b.toNat % 16)]

/-- The bytes written by pairs of hexadecimal digits; none for an odd length or a byte that is
no hexadecimal digit. -/
def hexDecode : List UInt8 → Option (List UInt8)
  | [] => some []
  | [_] => none
  | a :: b :: s =>
    match hexVal a, hexVal b, hexDecode s with
    | some x, some y, some t => some (UInt8.ofNat (16 * x + y) :: t)
    | _, _, _ => none

/-- A text of hexadecimal digits holds no other byte. -/
theorem notMem_of_hexVal {b : UInt8} (hb : hexVal b = none) {s : List UInt8}
    (h : ∀ c ∈ s, (hexVal c).isSome) : b ∉ s := by
  intro hmem
  simpa [hb] using h b hmem

theorem hexVal_of_isDigit {b : UInt8} (h : IsDigit b) : (hexVal b).isSome := by
  rw [hexVal, if_pos h]
  rfl

/-- A decimal numeral holds digits only, a printed integer at most a minus sign more. -/
theorem notMem_signed {b : UInt8} (hb : hexVal b = none) (hm : b ≠ 45) (z : ℤ) : b ∉ signed z := by
  have hd : b ∉ decimal z.natAbs :=
    notMem_of_hexVal hb fun c hc => hexVal_of_isDigit (isDigit_decimal _ c hc)
  unfold signed
  split_ifs
  · simp [hm, hd]
  · exact hd

theorem notMem_decimal {b : UInt8} (hb : hexVal b = none) (n : ℕ) : b ∉ decimal n :=
  notMem_of_hexVal hb fun c hc => hexVal_of_isDigit (isDigit_decimal n c hc)

theorem hexVal_hexDigit {n : ℕ} (h : n < 16) : hexVal (hexDigit n) = some n := by
  have : ∀ n < 16, hexVal (hexDigit n) = some n := by decide
  exact this n h

theorem hexVal_hexDigitLower {n : ℕ} (h : n < 16) : hexVal (hexDigitLower n) = some n := by
  have : ∀ n < 16, hexVal (hexDigitLower n) = some n := by decide
  exact this n h

/-- Two digits in front are the two halves of a byte. -/
theorem hexDecode_cons_cons {x y b : UInt8} (hx : hexVal x = some (b.toNat / 16))
    (hy : hexVal y = some (b.toNat % 16)) (s : List UInt8) :
    hexDecode (x :: y :: s) = (hexDecode s).map (b :: ·) := by
  have hsplit : 16 * (b.toNat / 16) + b.toNat % 16 = b.toNat := by omega
  cases hs : hexDecode s with
  | none => simp [hexDecode, hx, hy, hs]
  | some t => simp [hexDecode, hx, hy, hs, hsplit]

/-- Decoding the printed pairs gives the bytes back, whatever they are. -/
@[simp] theorem hexDecode_hexPair (bs : List UInt8) : hexDecode (bs.flatMap hexPair) = some bs := by
  induction bs with
  | nil => rfl
  | cons b bs ih =>
    have hb := b.toNat_lt
    rw [List.flatMap_cons, hexPair, List.cons_append, List.cons_append, List.nil_append,
      hexDecode_cons_cons (hexVal_hexDigit (by omega)) (hexVal_hexDigit (by omega)), ih]
    rfl

theorem hexDecode_hexPairLower (b : UInt8) : hexDecode (hexPairLower b) = some [b] := by
  have hb := b.toNat_lt
  rw [hexPairLower,
    hexDecode_cons_cons (hexVal_hexDigitLower (by omega)) (hexVal_hexDigitLower (by omega))]
  rfl

/-- Only hexadecimal digits can be decoded. -/
theorem hexVal_of_hexDecode {s t : List UInt8} (h : hexDecode s = some t) :
    ∀ c ∈ s, (hexVal c).isSome := by
  induction s using hexDecode.induct generalizing t with
  | case1 => simp
  | case2 a => simp [hexDecode] at h
  | case3 a b s x y u hu hy hx ih =>
    intro c hc
    rcases List.mem_cons.mp hc with rfl | hc
    · simp [hx]
    · rcases List.mem_cons.mp hc with rfl | hc
      · simp [hy]
      · exact ih hu c hc
  | case4 a b s hnone _ =>
    unfold hexDecode at h
    split at h
    · rename_i x y u hx hy hu
      exact (hnone x y u hx hy hu).elim
    · contradiction

theorem mem_hexPair {b c : UInt8} (h : c ∈ hexPair b) : (hexVal c).isSome := by
  have hb := b.toNat_lt
  simp only [hexPair, List.mem_cons, List.not_mem_nil, or_false] at h
  rcases h with rfl | rfl
  · rw [hexVal_hexDigit (by omega)]; rfl
  · rw [hexVal_hexDigit (by omega)]; rfl

theorem notMem_flatMap_hexPair {b : UInt8} (hb : hexVal b = none) (bs : List UInt8) :
    b ∉ bs.flatMap hexPair := by
  refine notMem_of_hexVal hb fun c hc => ?_
  obtain ⟨a, -, ha⟩ := List.mem_flatMap.mp hc
  exact mem_hexPair ha

end OflMotes.Ascii
