import Mathlib.Data.Rat.Cast.Order
import Mathlib.Tactic.FieldSimp
import Mathlib.Tactic.Positivity
import OflMotes.Lib.Ascii
import OflMotes.Lib.Rounding

/-! The number readers of Go's standard library that the host gateway calls. Both return a
number also where they report an error; the gateway drops the error. -/
namespace OflMotes.Gateway
open Ascii Rounding

/-- Why a text was not read as the number it writes. -/
inductive NumError
  | errSyntax
  | errRange
  deriving DecidableEq, Repr

/-- The digit loop of `strconv.ParseUint` in base 10, which stops at the first overflow. -/
def parseUintLoop : ℕ → List UInt8 → ℕ × Option NumError
  | n, [] => (n, none)
  | n, c :: s =>
    match digitVal c with
    | none => (0, some .errSyntax)
    | some d =>
      if 2 ^ 64 ≤ n * 10 + d then (2 ^ 64 - 1, some .errRange)
      else parseUintLoop (n * 10 + d) s

/-- `strconv.ParseUint(s, 10, 64)`. -/
def parseUint (s : List UInt8) : ℕ × Option NumError :=
  if s = [] then (0, some .errSyntax) else parseUintLoop 0 s

/-- An optional sign in front: whether it is a minus, and what follows it. -/
def readSign : List UInt8 → Bool × List UInt8
  | [] => (false, [])
  | c :: s =>
    if c = byte '+' then (false, s) else if c = byte '-' then (true, s) else (false, c :: s)

/-- `strconv.ParseInt(s, 10, 64)`. -/
def parseInt (s : List UInt8) : ℤ × Option NumError :=
  if s = [] then (0, some .errSyntax)
  else
    let neg := (readSign s).1
    match parseUint (readSign s).2 with
    | (_, some .errSyntax) => (0, some .errSyntax)
    | (un, _) =>
      if neg = false ∧ 2 ^ 63 ≤ un then (2 ^ 63 - 1, some .errRange)
      else if neg = true ∧ 2 ^ 63 < un then (-2 ^ 63, some .errRange)
      else (if neg then -un else un, none)

/-- A 64-bit float: a special value or a finite number. -/
inductive Float64
  | nan
  | inf (negative : Bool)
  | num (q : ℚ)
  deriving DecidableEq, Repr

def Float64.Finite : Float64 → Prop
  | .num _ => True
  | _ => False

instance : (f : Float64) → Decidable f.Finite
  | .nan => isFalse id
  | .inf _ => isFalse id
  | .num _ => isTrue trivial

/-- Letters to lower case, as the byte comparisons of `strconv` do it. -/
def lower (c : UInt8) : UInt8 := c ||| 0x20

/-- The spellings of the special values, without regard to case. -/
def special (s : List UInt8) : Option Float64 :=
  let t := (readSign s).2.map lower
  if s.map lower = ascii "nan" then some .nan
  else if t = ascii "inf" ∨ t = ascii "infinity" then some (.inf (readSign s).1)
  else none

/-- What the digit loop of `readFloat` has collected. -/
structure Mantissa where
  value : ℕ
  frac : ℕ
  sawdot : Bool
  sawdigits : Bool
  underscores : Bool
  deriving DecidableEq

/-- The digits, the point and the underscores, and what follows them. -/
def scanMantissa (hex : Bool) : Mantissa → List UInt8 → Mantissa × List UInt8
  | m, [] => (m, [])
  | m, c :: s =>
    if c = byte '_' then scanMantissa hex { m with underscores := true } s
    else if c = byte '.' then
      if m.sawdot then (m, c :: s) else scanMantissa hex { m with sawdot := true } s
    else
      match if hex then hexVal c else digitVal c with
      | none => (m, c :: s)
      | some d =>
        scanMantissa hex { m with
          value := m.value * (if hex then 16 else 10) + d
          frac := if m.sawdot then m.frac + 1 else m.frac
          sawdigits := true } s

/-- The exponent's digits, which must reach the end, and whether underscores were among them. From
five digits on the exponent grows no more. -/
def exponentLoop : ℕ → Bool → List UInt8 → Option (ℕ × Bool)
  | e, underscores, [] => some (e, underscores)
  | e, underscores, c :: s =>
    if c = byte '_' then exponentLoop e true s
    else
      match digitVal c with
      | none => none
      | some d => exponentLoop (if e < 10000 then e * 10 + d else e) underscores s

/-- The exponent behind the mantissa, mandatory for a hexadecimal one. -/
def readExponent (hex : Bool) : List UInt8 → Option (ℤ × Bool)
  | [] => if hex then none else some (0, false)
  | c :: s =>
    if lower c ≠ byte (if hex then 'p' else 'e') then none
    else
      match (readSign s).2 with
      | [] => none
      | d :: t =>
        if IsDigit d then
          (exponentLoop 0 false (d :: t)).map fun r =>
            (if (readSign s).1 then -(r.1 : ℤ) else r.1, r.2)
        else none

/-- The last symbol class seen by `underscoreOK`. -/
inductive Saw
  | start
  | digit
  | underscore
  | other
  deriving DecidableEq

def underscoreLoop (hex : Bool) : Saw → List UInt8 → Bool
  | saw, [] => saw ≠ .underscore
  | saw, c :: s =>
    if IsDigit c ∨ (hex ∧ byte 'a' ≤ lower c ∧ lower c ≤ byte 'f') then underscoreLoop hex .digit s
    else if c = byte '_' then
      if saw ≠ .digit then false else underscoreLoop hex .underscore s
    else if saw = .underscore then false
    else underscoreLoop hex .other s

/-- Underscores may only separate digits, or follow a base prefix. -/
def underscoreOK (s : List UInt8) : Bool :=
  match (readSign s).2 with
  | a :: b :: t =>
    if a = byte '0' ∧ (lower b = byte 'b' ∨ lower b = byte 'o' ∨ lower b = byte 'x') then
      underscoreLoop (lower b = byte 'x') .digit t
    else underscoreLoop false .start (a :: b :: t)
  | t => underscoreLoop false .start t

/-- Whether a base prefix is followed by at least one more symbol. -/
def hexPrefix : List UInt8 → Bool
  | a :: b :: _ :: _ => a = byte '0' ∧ lower b = byte 'x'
  | _ => false

/-- The number written by a decimal or hexadecimal floating-point literal, none where the text
is no such literal. -/
def readFloat (s : List UInt8) : Option ℚ :=
  let t := (readSign s).2
  let hex := hexPrefix t
  let (m, rest) := scanMantissa hex ⟨0, 0, false, false, false⟩ (if hex then t.drop 2 else t)
  if m.sawdigits = false then none
  else
    match readExponent hex rest with
    | none => none
    | some (e, underscores) =>
      if (m.underscores || underscores) && !underscoreOK s then none
      else
        let q : ℚ := m.value * (if hex then (1 / 16) ^ m.frac * 2 ^ e else (1 / 10) ^ m.frac * 10 ^ e)
        some (if (readSign s).1 then -q else q)

/-- From this magnitude on a number rounds to infinity. -/
def overflow : ℚ := (2 ^ 54 - 1) * 2 ^ 970

/-- The 64-bit float nearest to a number below the overflow. -/
def toFloat64 (q : ℚ) : ℚ := nearest 53 (-1074) q

/-- `strconv.ParseFloat(s, 64)`, for a rounding of the number that is read. -/
def parseFloatWith (round : ℚ → ℚ) (s : List UInt8) : Float64 × Option NumError :=
  match special s with
  | some f => (f, none)
  | none =>
    match readFloat s with
    | none => (.num 0, some .errSyntax)
    | some q =>
      if overflow ≤ q then (.inf false, some .errRange)
      else if q ≤ -overflow then (.inf true, some .errRange)
      else (.num (round q), none)

/-- `strconv.ParseFloat(s, 64)`. -/
def parseFloat (s : List UInt8) : Float64 × Option NumError := parseFloatWith toFloat64 s

/-- 2^53 + 1 is halfway between two floats. -/
example : parseFloat (ascii "9007199254740993") = (.num 9007199254740992, none) := by
  decide +kernel

theorem parseUintLoop_digits {ds : List UInt8} (h : ∀ b ∈ ds, IsDigit b) {n : ℕ}
    (hlt : numeralFrom n ds < 2 ^ 64) : parseUintLoop n ds = (numeralFrom n ds, none) := by
  induction ds generalizing n with
  | nil => rfl
  | cons b ds ih =>
    have hle := le_numeralFrom (n * 10 + (b.toNat - 48)) ds
    rw [numeralFrom_cons] at hlt
    rw [parseUintLoop, digitVal_of_isDigit (h b (by simp))]
    simp only
    rw [if_neg (by omega), ih (fun c hc => h c (by simp [hc])) hlt, numeralFrom_cons]

/-- The text begins with digits that write a number beyond 64 bits. -/
def Overflows (n : ℕ) (s : List UInt8) : Prop :=
  ∃ ds, ds <+: s ∧ (∀ b ∈ ds, IsDigit b) ∧ 2 ^ 64 ≤ numeralFrom n ds

theorem overflows_cons {n : ℕ} (hn : n < 2 ^ 64) {c : UInt8} {s : List UInt8} (hc : IsDigit c) :
    Overflows n (c :: s) ↔ Overflows (n * 10 + (c.toNat - 48)) s := by
  constructor
  · rintro ⟨ds, hprefix, hdigits, hle⟩
    rcases List.prefix_cons_iff.mp hprefix with rfl | ⟨ds, rfl, hds⟩
    · exact absurd hle (not_le.mpr hn)
    · exact ⟨ds, hds, fun b hb => hdigits b (by simp [hb]), by rwa [numeralFrom_cons] at hle⟩
  · rintro ⟨ds, hprefix, hdigits, hle⟩
    exact ⟨c :: ds, List.cons_prefix_cons.mpr ⟨rfl, hprefix⟩,
      List.forall_mem_cons.mpr ⟨hc, hdigits⟩, by rwa [numeralFrom_cons]⟩

/-- The three ways in which the digit loop ends. -/
theorem parseUintLoop_cases {n : ℕ} (hn : n < 2 ^ 64) (s : List UInt8) :
    ((∀ b ∈ s, IsDigit b) ∧ ¬ Overflows n s ∧ parseUintLoop n s = (numeralFrom n s, none)) ∨
      ((¬ ∀ b ∈ s, IsDigit b) ∧ ¬ Overflows n s ∧ parseUintLoop n s = (0, some .errSyntax)) ∨
      (Overflows n s ∧ parseUintLoop n s = (2 ^ 64 - 1, some .errRange)) := by
  induction s generalizing n with
  | nil =>
    refine .inl ⟨by simp, ?_, rfl⟩
    rintro ⟨ds, hprefix, -, hle⟩
    rw [List.prefix_nil.mp hprefix] at hle
    exact absurd hle (not_le.mpr hn)
  | cons c s ih =>
    rw [parseUintLoop]
    by_cases hc : IsDigit c
    · rw [digitVal_of_isDigit hc, overflows_cons hn hc, numeralFrom_cons]
      simp only [List.forall_mem_cons, hc, true_and]
      split_ifs with hover
      · exact .inr (.inr ⟨⟨[], List.nil_prefix, by simp, hover⟩, rfl⟩)
      · exact ih (not_le.mp hover)
    · rw [digitVal, if_neg hc]
      refine .inr (.inl ⟨fun h => hc (h c (by simp)), ?_, rfl⟩)
      rintro ⟨ds, hprefix, hdigits, hle⟩
      rcases List.prefix_cons_iff.mp hprefix with rfl | ⟨ds, rfl, -⟩
      · exact absurd hle (not_le.mpr hn)
      · exact hc (hdigits c (by simp))

theorem parseUint_digits {ds : List UInt8} (hne : ds ≠ []) (h : ∀ b ∈ ds, IsDigit b)
    (hlt : numeral ds < 2 ^ 64) : parseUint ds = (numeral ds, none) := by
  rw [parseUint, if_neg hne]
  exact parseUintLoop_digits h hlt

theorem ne_sign_of_isDigit {b : UInt8} (h : IsDigit b) : b ≠ byte '+' ∧ b ≠ byte '-' :=
  forall_isDigit (p := fun b => b ≠ byte '+' ∧ b ≠ byte '-') (by decide) h

theorem readSign_digits {ds : List UInt8} (h : ∀ b ∈ ds, IsDigit b) :
    readSign ds = (false, ds) := by
  cases ds with
  | nil => rfl
  | cons b ds =>
    obtain ⟨hp, hm⟩ := ne_sign_of_isDigit (h b (by simp))
    rw [readSign, if_neg hp, if_neg hm]

/-- A digit text is read as the number it writes, leading zeros included. -/
theorem parseInt_digits {ds : List UInt8} (hne : ds ≠ []) (h : ∀ b ∈ ds, IsDigit b)
    (hlt : numeral ds < 2 ^ 63) : parseInt ds = ((numeral ds : ℤ), none) := by
  rw [parseInt, if_neg hne, readSign_digits h, parseUint_digits hne h (by omega)]
  simp only [true_and]
  rw [if_neg (by omega)]
  simp

/-- Every 64-bit integer is read back from its printed form. -/
theorem parseInt_signed {z : ℤ} (hlo : -2 ^ 63 ≤ z) (hhi : z < 2 ^ 63) :
    parseInt (signed z) = (z, none) := by
  unfold signed
  split_ifs with hz
  · have hp := parseUint_digits (decimal_ne_nil z.natAbs) (isDigit_decimal z.natAbs)
      (by rw [numeral_decimal]; omega)
    have hs : readSign (45 :: decimal z.natAbs) = (true, decimal z.natAbs) := rfl
    rw [parseInt, if_neg (by simp), hs, hp, numeral_decimal]
    simp only [Bool.true_eq_false, false_and, if_false, true_and, if_true]
    rw [if_neg (by omega)]
    simp only [Prod.mk.injEq, and_true]
    omega
  · have hp := parseInt_digits (decimal_ne_nil z.natAbs) (isDigit_decimal z.natAbs)
      (by rw [numeral_decimal]; omega)
    rw [hp, numeral_decimal]
    simp only [Prod.mk.injEq, and_true]
    omega

/-- The digit loop of a decimal mantissa consumes digits one by one. -/
theorem scanMantissa_digits {ds : List UInt8} (h : ∀ b ∈ ds, IsDigit b) (m : Mantissa)
    (s : List UInt8) :
    scanMantissa false m (ds ++ s) = scanMantissa false
      { m with
        value := numeralFrom m.value ds
        frac := if m.sawdot then m.frac + ds.length else m.frac
        sawdigits := m.sawdigits || !ds.isEmpty } s := by
  induction ds generalizing m with
  | nil => simp
  | cons b ds ih =>
    have hb := h b (by simp)
    have hu : b ≠ byte '_' := forall_isDigit (p := (· ≠ byte '_')) (by decide) hb
    have hd : b ≠ byte '.' := forall_isDigit (p := (· ≠ byte '.')) (by decide) hb
    rw [List.cons_append, scanMantissa, if_neg hu, if_neg hd, digitVal_of_isDigit hb]
    simp only [Bool.false_eq_true, if_false]
    rw [ih fun c hc => h c (by simp [hc])]
    congr 1
    simp only [numeralFrom_cons, Mantissa.mk.injEq, true_and, List.length_cons]
    refine ⟨?_, by simp⟩
    split_ifs <;> omega

/-- A fixed-point literal without its sign. -/
def fixedPoint (a b : List UInt8) : List UInt8 := a ++ byte '.' :: b

theorem readSign_fixedPoint {a b : List UInt8} (ha : ∀ c ∈ a, IsDigit c) (hne : a ≠ []) :
    readSign (fixedPoint a b) = (false, fixedPoint a b) := by
  obtain ⟨c, a, rfl⟩ := List.exists_cons_of_ne_nil hne
  obtain ⟨hp, hm⟩ := ne_sign_of_isDigit (ha c (by simp))
  rw [fixedPoint, List.cons_append, readSign, if_neg hp, if_neg hm]

theorem hexPrefix_of_notMem {t : List UInt8} (hx : byte 'x' ∉ t.map lower) :
    hexPrefix t = false := by
  rcases t with _ | ⟨a, _ | ⟨b, _ | ⟨c, t⟩⟩⟩
  · rfl
  · rfl
  · rfl
  · have hb : lower b ≠ byte 'x' := fun he => hx (by simp [← he])
    simp [hexPrefix, hb]

section
variable {s t : List UInt8} (h : ∀ c ∈ t, IsDigit c ∨ c = byte '.')
include h

theorem lower_notMem {x : UInt8} (hdigit : ∀ n < 10, lower (UInt8.ofNat (48 + n)) ≠ x)
    (hpoint : lower (byte '.') ≠ x) : x ∉ t.map lower := by
  intro hx
  obtain ⟨c, hc, rfl⟩ := List.mem_map.mp hx
  rcases h c hc with hd | rfl
  · exact forall_isDigit (p := fun b => lower b ≠ lower c) hdigit hd rfl
  · exact hpoint rfl

theorem special_eq_none (hs : (readSign s).2 = t) : special s = none := by
  have hi : byte 'i' ∉ t.map lower := lower_notMem h (by decide) (by decide)
  have hn : byte 'n' ∉ t.map lower := lower_notMem h (by decide) (by decide)
  have hinf : t.map lower ≠ ascii "inf" := by
    intro he
    exact hi (by rw [he]; decide)
  have hinfinity : t.map lower ≠ ascii "infinity" := by
    intro he
    exact hi (by rw [he]; decide)
  have hnan : s.map lower ≠ ascii "nan" := by
    intro he
    have hsign : readSign s = (false, s) := by
      cases s with
      | nil => rfl
      | cons c s =>
        have hc : lower c = byte 'n' := (List.cons.inj he).1
        have hplus : c ≠ byte '+' := by
          rintro rfl
          exact absurd hc (by decide)
        have hminus : c ≠ byte '-' := by
          rintro rfl
          exact absurd hc (by decide)
        rw [readSign, if_neg hplus, if_neg hminus]
    rw [hsign] at hs
    exact hn (by rw [← hs, he]; decide)
  rw [special, hs, if_neg hnan, if_neg (by simp [hinf, hinfinity])]

theorem hexPrefix_eq_false : hexPrefix t = false :=
  hexPrefix_of_notMem (lower_notMem h (by decide) (by decide))

end

/-- The digits of a literal, with or without a point among them, are collected to its end. -/
theorem scanMantissa_decimal {a b t : List UInt8} (ha : ∀ c ∈ a, IsDigit c)
    (hb : ∀ c ∈ b, IsDigit c) (hne : a ++ b ≠ []) (ht : t = a ∧ b = [] ∨ t = fixedPoint a b) :
    ∃ sawdot, scanMantissa false ⟨0, 0, false, false, false⟩ t =
      (⟨numeral (a ++ b), b.length, sawdot, true, false⟩, []) := by
  have hnumeral : numeralFrom 0 a = numeral a := rfl
  rcases ht with ⟨rfl, rfl⟩ | rfl
  · have ha' := scanMantissa_digits ha ⟨0, 0, false, false, false⟩ []
    rw [List.append_nil] at ha' hne
    refine ⟨false, ?_⟩
    rw [ha', hnumeral]
    simp [scanMantissa, List.isEmpty_eq_false_iff.mpr hne]
  · have hdot : byte '.' ≠ byte '_' := by decide
    have hb' := scanMantissa_digits hb ⟨numeral a, 0, true, !a.isEmpty, false⟩ []
    have hsaw : (!a.isEmpty || !b.isEmpty) = true := by
      rcases a with _ | ⟨c, a⟩
      · simpa using hne
      · rfl
    rw [List.append_nil] at hb'
    refine ⟨true, ?_⟩
    rw [fixedPoint, scanMantissa_digits ha, scanMantissa, if_neg hdot, if_pos rfl]
    simp only [Bool.false_eq_true, if_false, Bool.false_or, hnumeral]
    rw [hb']
    have hval : numeralFrom (numeral a) b = numeral (a ++ b) := (numeralFrom_append 0 a b).symm
    simp [scanMantissa, hval, hsaw]

/-- A literal of digits with at most one point is read as the decimal fraction that it writes. -/
theorem parseFloat_decimal {s a b : List UInt8} (ha : ∀ c ∈ a, IsDigit c)
    (hb : ∀ c ∈ b, IsDigit c) (hne : a ++ b ≠ [])
    (hs : (readSign s).2 = a ∧ b = [] ∨ (readSign s).2 = fixedPoint a b) {q : ℚ}
    (hq : q = if (readSign s).1 then -((numeral (a ++ b) : ℚ) / 10 ^ b.length)
      else (numeral (a ++ b) : ℚ) / 10 ^ b.length)
    (hlo : -overflow < q) (hhi : q < overflow) (round : ℚ → ℚ) :
    parseFloatWith round s = (.num (round q), none) := by
  have hplain : ∀ c ∈ (readSign s).2, IsDigit c ∨ c = byte '.' := by
    intro c hc
    rcases hs with ⟨he, -⟩ | he <;> rw [he] at hc
    · exact .inl (ha c hc)
    · rcases List.mem_append.mp hc with hc | hc
      · exact .inl (ha c hc)
      · rcases List.mem_cons.mp hc with rfl | hc
        · exact .inr rfl
        · exact .inl (hb c hc)
  obtain ⟨sawdot, hscan⟩ := scanMantissa_decimal ha hb hne hs
  have hread : readFloat s = some q := by
    simp only [readFloat, hexPrefix_eq_false hplain, Bool.false_eq_true, if_false, hscan]
    simp [readExponent, hq, div_eq_mul_inv]
  rw [parseFloatWith, special_eq_none hplain rfl, hread]
  simp only
  rw [if_neg (not_le.mpr hhi), if_neg (not_le.mpr hlo)]

end OflMotes.Gateway
