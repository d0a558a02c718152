import OflMotes.Lib.Ascii

/-! The parts of the C library that the nodes use: the integer conversions of `printf`, the
length of a string in a buffer, and `atoi`. -/
namespace OflMotes.Node
open Ascii

/-- `%0wd`: zeros up to the width, which counts the minus sign. -/
def fmtInt (w : ℕ) (z : ℤ) : List UInt8 :=
  if z < 0 then byte '-' :: padZeros (w - 1) (decimal z.natAbs) else padZeros w (decimal z.natAbs)

/-- `%0wlu` -/
def fmtNat (w n : ℕ) : List UInt8 := padZeros w (decimal n)

theorem fmtInt_ofNat (w n : ℕ) : fmtInt w n = fmtNat w n := by
  rw [fmtInt, if_neg (by omega)]
  rfl

theorem isDigit_fmtNat (w n : ℕ) : ∀ b ∈ fmtNat w n, IsDigit b :=
  isDigit_padZeros (isDigit_decimal n)

theorem fmtNat_ne_nil (w n : ℕ) : fmtNat w n ≠ [] := by
  simp [fmtNat, padZeros, decimal_ne_nil]

@[simp] theorem numeral_fmtNat (w n : ℕ) : numeral (fmtNat w n) = n := by simp [fmtNat]

theorem fmtNat_length {w n : ℕ} (hw : 0 < w) (h : n < 10 ^ w) : (fmtNat w n).length = w := by
  rw [fmtNat, padZeros_length]
  exact max_eq_left (decimal_length_le hw h)

theorem notMem_fmtNat {b : UInt8} (hb : hexVal b = none) (w n : ℕ) : b ∉ fmtNat w n :=
  notMem_of_hexVal hb fun c hc => hexVal_of_isDigit (isDigit_fmtNat w n c hc)

/-- `strlen` of a buffer. The C function reads on behind a buffer without a NUL; the callers only
compare the length with bounds inside the buffer. -/
def strlen (s : List UInt8) : ℕ := (s.takeWhile (· ≠ 0)).length

/-- `strncmp(s, t, strlen(t)) == 0` for a literal `t`. -/
def strncmpEq (s t : List UInt8) : Bool := t.isPrefixOf s

/-- `isspace` in the C locale. -/
def isSpace (b : UInt8) : Bool := b = 32 || (9 ≤ b.toNat && b.toNat ≤ 13)

/-- The sign and the rest of the text behind the white space. -/
def atoiSign (s : List UInt8) : Bool × List UInt8 :=
  match s.dropWhile isSpace with
  | [] => (false, [])
  | c :: t => if c = byte '-' then (true, t) else if c = byte '+' then (false, t) else (false, c :: t)

/-- `atoi`, which the C library of the nodes computes by `strtol`: the digits behind white space
and a sign, clamped to the 32 bits of a `long`. -/
def atoi (s : List UInt8) : ℤ :=
  let (negative, t) := atoiSign s
  let n := numeral (t.takeWhile fun b => decide (IsDigit b))
  if negative then max (-2 ^ 31) (-n : ℤ) else min (2 ^ 31 - 1) (n : ℤ)

theorem isSpace_of_isDigit {b : UInt8} (h : IsDigit b) : isSpace b = false :=
  forall_isDigit (p := fun b => isSpace b = false) (by decide) h

/-- A digit text in front of a NUL is read as the number it writes, if it fits. -/
theorem atoi_digits {ds : List UInt8} (h : ∀ b ∈ ds, IsDigit b) (hlt : numeral ds < 2 ^ 31)
    (rest : List UInt8) : atoi (ds ++ 0 :: rest) = numeral ds := by
  have hrest : (0 :: rest).takeWhile (fun b => decide (IsDigit b)) = [] := by
    rw [List.takeWhile_cons_of_neg (by decide)]
  have htake : (ds ++ 0 :: rest).takeWhile (fun b => decide (IsDigit b)) = ds := by
    rw [List.takeWhile_append_of_pos (by simpa using h), hrest, List.append_nil]
  have hsign : atoiSign (ds ++ 0 :: rest) = (false, ds ++ 0 :: rest) := by
    cases ds with
    | nil => rfl
    | cons b ds =>
      have hb := h b (by simp)
      have hm : b ≠ byte '-' := forall_isDigit (p := (· ≠ byte '-')) (by decide) hb
      have hp : b ≠ byte '+' := forall_isDigit (p := (· ≠ byte '+')) (by decide) hb
      rw [atoiSign, List.cons_append, List.dropWhile_cons_of_neg (by simp [isSpace_of_isDigit hb])]
      simp [hm, hp]
  simp only [atoi, hsign, htake, Bool.false_eq_true, if_false]
  omega

end OflMotes.Node
