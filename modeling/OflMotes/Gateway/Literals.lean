import OflMotes.Gateway.Strconv

/-! The floating-point literals of Go as syntax trees, with the text and the number of each. The
float reader accepts their texts and no others. -/
namespace OflMotes.Gateway
open Ascii

/-- The sign in front of a number. -/
inductive Sign
  | none
  | plus
  | minus
  deriving DecidableEq

def Sign.text : Sign → List UInt8
  | .none => []
  | .plus => [byte '+']
  | .minus => [byte '-']

/-- The value of a digit, hexadecimal or decimal. -/
def digitOf (hex : Bool) (c : UInt8) : Option ℕ := if hex then hexVal c else digitVal c

/-- Digits of a literal: underscores may stand among them. -/
def DigitText (hex : Bool) (s : List UInt8) : Prop :=
  ∀ c ∈ s, c = byte '_' ∨ (digitOf hex c).isSome

/-- The digits of a text without its underscores. -/
def digitsOf (hex : Bool) (s : List UInt8) : List ℕ := s.filterMap (digitOf hex)

/-- The number that further digits write behind those of `n`. -/
def numberFrom (hex : Bool) (n : ℕ) (ds : List ℕ) : ℕ :=
  ds.foldl (fun n d => n * (if hex then 16 else 10) + d) n

/-- The digits of an exponent; those behind the fifth count nothing. -/
def exponentFrom (e : ℕ) (ds : List ℕ) : ℕ :=
  ds.foldl (fun e d => if e < 10000 then e * 10 + d else e) e

/-- An exponent: its letter, its sign and its digits. -/
structure Exponent where
  letter : UInt8
  sign : Sign
  digits : List UInt8

/-- A literal: its sign, the letter of a hexadecimal prefix, the digits in front of the point, those
behind it where there is a point, and its exponent. -/
structure FloatLiteral where
  sign : Sign
  hex : Option UInt8
  whole : List UInt8
  frac : Option (List UInt8)
  exponent : Option Exponent

def Exponent.text (x : Exponent) : List UInt8 := x.letter :: (x.sign.text ++ x.digits)

def Exponent.value (x : Exponent) : ℤ :=
  let e := exponentFrom 0 (digitsOf false x.digits)
  if x.sign = .minus then -e else e

/-- The letter fits the base, and digits follow, the first at once. -/
structure Exponent.WellFormed (hex : Bool) (x : Exponent) : Prop where
  letter : lower x.letter = byte (if hex then 'p' else 'e')
  head : ∃ d ∈ x.digits.head?, IsDigit d
  digits : DigitText false x.digits

def pointText : Option (List UInt8) → List UInt8
  | none => []
  | some ds => byte '.' :: ds

namespace FloatLiteral

def prefixText (l : FloatLiteral) : List UInt8 := l.hex.elim [] fun x => [byte '0', x]

def exponentText (l : FloatLiteral) : List UInt8 := l.exponent.elim [] Exponent.text

/-- The text without its sign. -/
def body (l : FloatLiteral) : List UInt8 :=
  l.prefixText ++ (l.whole ++ pointText l.frac ++ l.exponentText)

def text (l : FloatLiteral) : List UInt8 := l.sign.text ++ l.body

/-- All digits of the mantissa. -/
def mantissa (l : FloatLiteral) : List UInt8 := l.whole ++ l.frac.getD []

/-- The number of the mantissa under an exponent. -/
def scaled (l : FloatLiteral) (e : ℤ) : ℚ :=
  let hex := l.hex.isSome
  let places := (digitsOf hex (l.frac.getD [])).length
  let q : ℚ := numberFrom hex 0 (digitsOf hex l.mantissa) *
    (if hex then (1 / 16) ^ places * 2 ^ e else (1 / 10) ^ places * 10 ^ e)
  if l.sign = .minus then -q else q

/-- The number that a literal means. -/
def value (l : FloatLiteral) : ℚ := l.scaled ((l.exponent.map Exponent.value).getD 0)

structure WellFormed (l : FloatLiteral) : Prop where
  hex : ∀ x ∈ l.hex, lower x = byte 'x'
  mantissa : DigitText l.hex.isSome l.mantissa
  digit : digitsOf l.hex.isSome l.mantissa ≠ []
  exponent : ∀ x ∈ l.exponent, x.WellFormed l.hex.isSome
  binary : l.hex.isSome → l.exponent.isSome
  underscores : byte '_' ∈ l.text → underscoreOK l.text

end FloatLiteral

theorem digitOf_underscore (hex : Bool) : digitOf hex (byte '_') = none := by
  cases hex <;> decide

theorem digitOf_point (hex : Bool) : digitOf hex (byte '.') = none := by
  cases hex <;> decide

theorem digitText_cons {hex : Bool} {c : UInt8} {s : List UInt8} :
    DigitText hex (c :: s) ↔ (c = byte '_' ∨ (digitOf hex c).isSome) ∧ DigitText hex s :=
  List.forall_mem_cons

theorem digitText_append {hex : Bool} {s t : List UInt8} :
    DigitText hex (s ++ t) ↔ DigitText hex s ∧ DigitText hex t :=
  List.forall_mem_append

@[simp] theorem digitsOf_append (hex : Bool) (s t : List UInt8) :
    digitsOf hex (s ++ t) = digitsOf hex s ++ digitsOf hex t := by
  simp [digitsOf]

/-- Nothing that the digit loop would take. -/
def Stops (hex : Bool) (s : List UInt8) : Prop :=
  ∀ c ∈ s.head?, c ≠ byte '_' ∧ digitOf hex c = none

/-- A text begins with a longest piece of digits. -/
theorem exists_digitText (hex : Bool) (s : List UInt8) :
    ∃ ds t, s = ds ++ t ∧ DigitText hex ds ∧ Stops hex t := by
  induction s with
  | nil => exact ⟨[], [], rfl, by simp [DigitText], by simp [Stops]⟩
  | cons c s ih =>
    by_cases hc : c = byte '_' ∨ (digitOf hex c).isSome
    · obtain ⟨ds, t, rfl, hds, ht⟩ := ih
      exact ⟨c :: ds, t, rfl, digitText_cons.mpr ⟨hc, hds⟩, ht⟩
    · rw [not_or, Option.not_isSome_iff_eq_none] at hc
      exact ⟨[], c :: s, rfl, by simp [DigitText], by simpa [Stops] using hc⟩

/-- The digit loop collects a piece of digits. -/
theorem scanMantissa_digitText {hex : Bool} {ds : List UInt8} (h : DigitText hex ds)
    (m : Mantissa) (t : List UInt8) :
    scanMantissa hex m (ds ++ t) = scanMantissa hex
      { m with
        value := numberFrom hex m.value (digitsOf hex ds)
        frac := if m.sawdot then m.frac + (digitsOf hex ds).length else m.frac
        sawdigits := m.sawdigits || digitsOf hex ds ≠ []
        underscores := m.underscores || byte '_' ∈ ds } t := by
  induction ds generalizing m with
  | nil => simp [digitsOf, numberFrom]
  | cons c ds ih =>
    obtain ⟨hc, hds⟩ := digitText_cons.mp h
    rw [List.cons_append, scanMantissa]
    by_cases hu : c = byte '_'
    · rw [if_pos hu, ih hds, hu]
      simp [digitsOf, digitOf_underscore]
    · obtain ⟨d, hd⟩ := Option.isSome_iff_exists.mp (hc.resolve_left hu)
      have hpoint : c ≠ byte '.' := by
        rintro rfl
        rw [digitOf_point] at hd
        contradiction
      have hval : (if hex then hexVal c else digitVal c) = some d := hd
      rw [if_neg hu, if_neg hpoint, hval]
      simp only
      rw [ih hds]
      congr 1
      simp only [digitsOf, List.filterMap_cons, hd, numberFrom, List.foldl_cons, List.length_cons,
        List.mem_cons, Ne.symm hu, false_or, Mantissa.mk.injEq, true_and, and_true]
      refine ⟨?_, by simp⟩
      split_ifs <;> omega

/-- It ends in front of anything else. -/
theorem scanMantissa_of_stops {hex : Bool} {t : List UInt8} (h : Stops hex t) (m : Mantissa)
    (hpoint : m.sawdot ∨ byte '.' ∉ t.head?) : scanMantissa hex m t = (m, t) := by
  cases t with
  | nil => rfl
  | cons c t =>
    obtain ⟨hu, hd⟩ := h c rfl
    have hval : (if hex then hexVal c else digitVal c) = none := hd
    rw [scanMantissa, if_neg hu, hval]
    by_cases hc : c = byte '.'
    · have hdot : m.sawdot = true := hpoint.resolve_right fun h => h (by simp [hc])
      rw [if_pos hc, if_pos hdot]
    · rw [if_neg hc]

/-- The mantissa of a literal is collected up to what follows it. -/
theorem scanMantissa_parts {hex : Bool} {ds t : List UInt8} {frac : Option (List UInt8)}
    (hds : DigitText hex (ds ++ frac.getD [])) (ht : Stops hex t)
    (hpoint : frac.isSome ∨ byte '.' ∉ t.head?) :
    scanMantissa hex ⟨0, 0, false, false, false⟩ (ds ++ pointText frac ++ t) =
      (⟨numberFrom hex 0 (digitsOf hex (ds ++ frac.getD [])), (digitsOf hex (frac.getD [])).length,
        frac.isSome, digitsOf hex (ds ++ frac.getD []) ≠ [], byte '_' ∈ ds ++ frac.getD []⟩, t) := by
  obtain ⟨hwhole, hfrac⟩ := digitText_append.mp hds
  rw [List.append_assoc, scanMantissa_digitText hwhole]
  cases frac with
  | none =>
    rw [pointText, List.nil_append, scanMantissa_of_stops ht _ (.inr (by simpa using hpoint))]
    simp [digitsOf]
  | some es =>
    have hu : byte '.' ≠ byte '_' := by decide
    rw [Option.getD_some] at hfrac
    rw [pointText, List.cons_append, scanMantissa, if_neg hu, if_pos rfl]
    simp only [Bool.false_eq_true, if_false]
    rw [scanMantissa_digitText hfrac, scanMantissa_of_stops ht _ (.inl rfl)]
    simp [numberFrom, Bool.decide_or]

/-- The exponent loop accepts digits only. -/
theorem exponentLoop_eq_some_iff {e : ℕ} {u : Bool} {s : List UInt8} {r : ℕ × Bool} :
    exponentLoop e u s = some r ↔
      DigitText false s ∧ r = (exponentFrom e (digitsOf false s), u || byte '_' ∈ s) := by
  induction s generalizing e u with
  | nil =>
    have hnil : DigitText false [] := by simp [DigitText]
    simp [exponentLoop, hnil, digitsOf, exponentFrom, eq_comm]
  | cons c s ih =>
    rw [exponentLoop]
    by_cases hu : c = byte '_'
    · rw [if_pos hu, ih, hu]
      simp [digitText_cons, digitsOf, digitOf_underscore]
    · rw [if_neg hu]
      cases hd : digitVal c with
      | none =>
        have hc : ¬ DigitText false (c :: s) := by
          intro h
          have := (digitText_cons.mp h).1.resolve_left hu
          simp [digitOf, hd] at this
        simp [hc]
      | some d =>
        have hval : digitOf false c = some d := hd
        simp only [ih, digitText_cons, hval, Option.isSome_some, or_true, true_and,
          digitsOf, List.filterMap_cons, exponentFrom, List.foldl_cons, List.mem_cons, Ne.symm hu,
          false_or]

theorem readSign_split (s : List UInt8) :
    ∃ sign : Sign, s = sign.text ++ (readSign s).2 ∧ (readSign s).1 = decide (sign = .minus) := by
  cases s with
  | nil => exact ⟨.none, rfl, rfl⟩
  | cons c s =>
    rw [readSign]
    split_ifs with hp hm
    · exact ⟨.plus, by rw [hp]; rfl, rfl⟩
    · exact ⟨.minus, by rw [hm]; rfl, rfl⟩
    · exact ⟨.none, rfl, rfl⟩

theorem readSign_text (sign : Sign) {t : List UInt8}
    (h : ∀ c ∈ t.head?, c ≠ byte '+' ∧ c ≠ byte '-') :
    readSign (sign.text ++ t) = (decide (sign = .minus), t) := by
  cases sign with
  | none =>
    cases t with
    | nil => rfl
    | cons c t =>
      obtain ⟨hp, hm⟩ := h c rfl
      change readSign (c :: t) = _
      rw [readSign, if_neg hp, if_neg hm]
      rfl
  | plus => rfl
  | minus => rfl

theorem Sign.underscore_notMem (sign : Sign) : byte '_' ∉ sign.text := by
  cases sign <;> decide

theorem Sign.lower_ne (sign : Sign) {c : UInt8} (hc : c ∈ sign.text) : lower c ≠ byte 'x' := by
  cases sign with
  | none => contradiction
  | plus =>
    rw [List.mem_singleton.mp hc]
    decide
  | minus =>
    rw [List.mem_singleton.mp hc]
    decide

theorem readExponent_cons {hex : Bool} {c : UInt8}
    (hc : lower c = byte (if hex then 'p' else 'e')) (sign : Sign) {d : UInt8} (hd : IsDigit d)
    (t : List UInt8) :
    readExponent hex (c :: (sign.text ++ d :: t)) = (exponentLoop 0 false (d :: t)).map fun r =>
      (if sign = .minus then -(r.1 : ℤ) else r.1, r.2) := by
  have hsign : readSign (sign.text ++ d :: t) = (decide (sign = .minus), d :: t) := by
    refine readSign_text sign ?_
    rintro b ⟨⟩
    exact ne_sign_of_isDigit hd
  rw [readExponent, if_neg (not_not.mpr hc), hsign]
  simp [hd]

/-- An exponent is read as its value. -/
theorem readExponent_eq_some_iff_exists {hex : Bool} {c : UInt8} {s : List UInt8} {r : ℤ × Bool} :
    readExponent hex (c :: s) = some r ↔ ∃ x : Exponent, x.WellFormed hex ∧ x.text = c :: s ∧
      r = (x.value, decide (byte '_' ∈ c :: s)) := by
  have hmem {sign : Sign} {d : UInt8} {t : List UInt8}
      (hc : lower c = byte (if hex then 'p' else 'e')) :
      byte '_' ∈ c :: (sign.text ++ d :: t) ↔ byte '_' ∈ d :: t := by
    have hu : byte '_' ≠ c := by
      rintro rfl
      cases hex <;> exact absurd hc (by decide)
    simp [hu, sign.underscore_notMem]
  constructor
  · intro h
    have hc : lower c = byte (if hex then 'p' else 'e') := by
      by_contra hc
      rw [readExponent, if_pos hc] at h
      contradiction
    obtain ⟨sign, hs, -⟩ := readSign_split s
    obtain ⟨d, t, ht, hd⟩ : ∃ d t, (readSign s).2 = d :: t ∧ IsDigit d := by
      rw [readExponent, if_neg (not_not.mpr hc)] at h
      split at h
      · contradiction
      · next d t ht =>
        refine ⟨d, t, ht, ?_⟩
        by_contra hd
        rw [if_neg hd] at h
        contradiction
    rw [ht] at hs
    rw [hs, readExponent_cons hc sign hd] at h
    obtain ⟨e, he, rfl⟩ := Option.map_eq_some_iff.mp h
    obtain ⟨hdigits, rfl⟩ := exponentLoop_eq_some_iff.mp he
    refine ⟨⟨c, sign, d :: t⟩, ⟨hc, ⟨d, rfl, hd⟩, hdigits⟩, by rw [hs]; rfl, ?_⟩
    rw [hs, Prod.mk.injEq]
    exact ⟨rfl, by simp [hmem hc]⟩
  · rintro ⟨⟨letter, sign, ds⟩, ⟨hletter, ⟨d, hhead, hd⟩, hdigits⟩, htext, rfl⟩
    obtain ⟨t, rfl⟩ := List.head?_eq_some_iff.mp hhead
    obtain ⟨rfl, rfl⟩ := List.cons.inj htext
    rw [readExponent_cons hletter sign hd, exponentLoop_eq_some_iff.mpr ⟨hdigits, rfl⟩]
    simp [Exponent.value, hmem hletter]

/-- The float reader on a sign, a prefix, a mantissa and whatever follows it. -/
theorem readFloat_of_parts {s t : List UInt8} {l : FloatLiteral}
    (hsign : readSign s = (decide (l.sign = .minus),
      l.prefixText ++ (l.whole ++ pointText l.frac ++ t)))
    (hmark : hexPrefix (l.prefixText ++ (l.whole ++ pointText l.frac ++ t)) = l.hex.isSome)
    (hdigits : DigitText l.hex.isSome l.mantissa) (ht : Stops l.hex.isSome t)
    (hpoint : l.frac.isSome ∨ byte '.' ∉ t.head?) :
    readFloat s =
      if digitsOf l.hex.isSome l.mantissa = [] then none
      else (readExponent l.hex.isSome t).bind fun r =>
        if (byte '_' ∈ l.mantissa ∨ r.2) ∧ ¬ underscoreOK s then none else some (l.scaled r.1) := by
  have hdrop : (if l.hex.isSome then
      (l.prefixText ++ (l.whole ++ pointText l.frac ++ t)).drop 2
      else l.prefixText ++ (l.whole ++ pointText l.frac ++ t)) =
        l.whole ++ pointText l.frac ++ t := by
    unfold FloatLiteral.prefixText
    cases l.hex <;> rfl
  have hscan : scanMantissa l.hex.isSome ⟨0, 0, false, false, false⟩
      (l.whole ++ pointText l.frac ++ t) =
        (⟨numberFrom l.hex.isSome 0 (digitsOf l.hex.isSome l.mantissa),
          (digitsOf l.hex.isSome (l.frac.getD [])).length, l.frac.isSome,
          digitsOf l.hex.isSome l.mantissa ≠ [], byte '_' ∈ l.mantissa⟩, t) :=
    scanMantissa_parts hdigits ht hpoint
  simp only [readFloat, hsign, hmark, hdrop, hscan]
  by_cases hne : digitsOf l.hex.isSome l.mantissa = []
  · simp [hne]
  · cases readExponent l.hex.isSome t with
    | none => simp [hne]
    | some r => simp [hne, FloatLiteral.scaled]

/-- Behind a mantissa an exponent is read, or nothing where the mantissa is decimal. -/
theorem exists_exponent {hex : Bool} {t : List UInt8} {r : ℤ × Bool}
    (h : readExponent hex t = some r) : ∃ x : Option Exponent, (∀ y ∈ x, y.WellFormed hex) ∧
      (hex → x.isSome) ∧ x.elim [] Exponent.text = t ∧
      r = ((x.map Exponent.value).getD 0, decide (byte '_' ∈ t)) := by
  cases t with
  | nil =>
    cases hex with
    | true => contradiction
    | false => exact ⟨none, by simp, by simp, rfl, (Option.some.inj h).symm⟩
  | cons c t =>
    obtain ⟨x, hx, ht, rfl⟩ := readExponent_eq_some_iff_exists.mp h
    exact ⟨some x, by simpa using hx, by simp, ht, rfl⟩

theorem plain_of_letter {hex : Bool} {c : UInt8} (h : lower c = byte (if hex then 'p' else 'e')) :
    c ≠ byte '_' ∧ c ≠ byte '.' ∧ lower c ≠ byte 'x' ∧ digitOf hex c = none := by
  obtain ⟨b⟩ := c
  revert b
  cases hex <;> decide +kernel

theorem plain_of_digit {hex : Bool} {c : UInt8} (h : (digitOf hex c).isSome) :
    c ≠ byte '+' ∧ c ≠ byte '-' ∧ (hex = false → lower c ≠ byte 'x') := by
  obtain ⟨b⟩ := c
  revert b
  cases hex <;> decide +kernel

theorem plain_of_mem {hex : Bool} {c : UInt8} {s : List UInt8} (h : DigitText hex s) (hc : c ∈ s) :
    c ≠ byte '+' ∧ c ≠ byte '-' ∧ (hex = false → lower c ≠ byte 'x') := by
  rcases h c hc with rfl | hd
  · cases hex <;> decide
  · exact plain_of_digit hd

namespace FloatLiteral
variable {l : FloatLiteral} (h : l.WellFormed)
include h

theorem WellFormed.mem_plain {c : UInt8} (hc : c ∈ l.whole ++ pointText l.frac) :
    c ≠ byte '+' ∧ c ≠ byte '-' ∧ (l.hex.isSome = false → lower c ≠ byte 'x') := by
  obtain ⟨hwhole, hfrac⟩ := digitText_append.mp h.mantissa
  rcases List.mem_append.mp hc with hc | hc
  · exact plain_of_mem hwhole hc
  · cases hf : l.frac with
    | none => simp [hf, pointText] at hc
    | some ds =>
      rw [hf] at hc hfrac
      rcases List.mem_cons.mp hc with rfl | hc
      · exact ⟨by decide, by decide, fun _ => by decide⟩
      · exact plain_of_mem hfrac hc

theorem WellFormed.mantissa_ne_nil : l.whole ++ pointText l.frac ≠ [] := by
  intro he
  obtain ⟨hwhole, hfrac⟩ := List.append_eq_nil_iff.mp he
  refine h.digit ?_
  cases hf : l.frac with
  | none =>
    rw [FloatLiteral.mantissa, hf, hwhole]
    rfl
  | some ds => simp [hf, pointText] at hfrac

theorem WellFormed.head_body : ∀ c ∈ l.body.head?, c ≠ byte '+' ∧ c ≠ byte '-' := by
  intro c hc
  unfold body prefixText at hc
  cases hx : l.hex with
  | some x =>
    rw [hx] at hc
    cases hc
    decide
  | none =>
    rw [hx, Option.elim_none, List.nil_append, List.head?_append_of_ne_nil _ h.mantissa_ne_nil] at hc
    have := h.mem_plain (List.mem_of_mem_head? hc)
    exact ⟨this.1, this.2.1⟩

theorem WellFormed.stops : Stops l.hex.isSome l.exponentText ∧ byte '.' ∉ l.exponentText.head? := by
  unfold exponentText
  cases hx : l.exponent with
  | none => simp [Stops]
  | some x =>
    obtain ⟨hu, hpoint, -, hd⟩ := plain_of_letter (h.exponent x hx).letter
    refine ⟨?_, ?_⟩
    · rintro c ⟨⟩
      exact ⟨hu, hd⟩
    · simpa [Exponent.text] using hpoint

theorem WellFormed.hexPrefix_body : hexPrefix l.body = l.hex.isSome := by
  unfold body prefixText
  cases hx : l.hex with
  | some x =>
    obtain ⟨c, t, ht⟩ := List.exists_cons_of_ne_nil h.mantissa_ne_nil
    simp [hexPrefix, ht, h.hex x hx]
  | none =>
    rw [Option.elim_none, List.nil_append]
    refine hexPrefix_of_notMem fun hmem => ?_
    obtain ⟨c, hc, hlower⟩ := List.mem_map.mp hmem
    rcases List.mem_append.mp hc with hc | hc
    · exact (h.mem_plain hc).2.2 (by rw [hx]; rfl) hlower
    · unfold exponentText at hc
      cases hex : l.exponent with
      | none => simp [hex] at hc
      | some x =>
        have hwf := h.exponent x hex
        rw [hex] at hc
        rcases List.mem_cons.mp hc with rfl | hc
        · exact (plain_of_letter hwf.letter).2.2.1 hlower
        · rcases List.mem_append.mp hc with hc | hc
          · exact x.sign.lower_ne hc hlower
          · exact (plain_of_mem hwf.digits hc).2.2 rfl hlower

end FloatLiteral

theorem FloatLiteral.underscore_mem_text {l : FloatLiteral} (hhex : ∀ x ∈ l.hex, lower x = byte 'x') :
    byte '_' ∈ l.text ↔ byte '_' ∈ l.mantissa ∨ byte '_' ∈ l.exponentText := by
  have hprefix : byte '_' ∉ l.prefixText := by
    unfold prefixText
    cases hx : l.hex with
    | none => simp
    | some x =>
      have hne : byte '_' ≠ x := by
        rintro rfl
        exact absurd (hhex _ hx) (by decide)
      have hzero : byte '_' ≠ byte '0' := by decide
      simp [hne, hzero]
  have hpoint : byte '_' ∈ pointText l.frac ↔ byte '_' ∈ l.frac.getD [] := by
    cases l.frac with
    | none => simp [pointText]
    | some ds =>
      have hne : byte '_' ≠ byte '.' := by decide
      simp [pointText, hne]
  simp [text, body, mantissa, l.sign.underscore_notMem, hprefix, hpoint, or_assoc]

/-- Every literal is read as the number that it means. -/
theorem readFloat_text {l : FloatLiteral} (h : l.WellFormed) :
    readFloat l.text = some l.value := by
  have hexp : readExponent l.hex.isSome l.exponentText =
      some ((l.exponent.map Exponent.value).getD 0, decide (byte '_' ∈ l.exponentText)) := by
    unfold FloatLiteral.exponentText
    cases hx : l.exponent with
    | none =>
      have hdec : l.hex.isSome = false := by
        by_contra hhex
        have := h.binary (Bool.not_eq_false _ ▸ hhex)
        simp [hx] at this
      rw [hdec]
      simp [readExponent]
    | some x =>
      exact readExponent_eq_some_iff_exists.mpr ⟨x, h.exponent x hx, rfl, rfl⟩
  have hread := readFloat_of_parts (readSign_text l.sign h.head_body) h.hexPrefix_body h.mantissa
    h.stops.1 (.inr h.stops.2)
  rw [FloatLiteral.text, FloatLiteral.body, hread, if_neg h.digit, hexp]
  simp only [Option.bind_some, decide_eq_true_eq, ← FloatLiteral.underscore_mem_text h.hex]
  rw [if_neg fun hbad => hbad.2 (h.underscores hbad.1)]
  rfl

theorem exists_of_hexPrefix {t : List UInt8} (h : hexPrefix t = true) :
    ∃ x u, t = byte '0' :: x :: u ∧ lower x = byte 'x' := by
  rcases t with _ | ⟨a, _ | ⟨b, _ | ⟨c, t⟩⟩⟩
  · contradiction
  · contradiction
  · contradiction
  · obtain ⟨rfl, hb⟩ : a = byte '0' ∧ lower b = byte 'x' := by simpa [hexPrefix] using h
    exact ⟨b, c :: t, rfl, hb⟩

/-- Every text is a mantissa and something that the digit loop leaves. -/
theorem exists_mantissa (hex : Bool) (s : List UInt8) :
    ∃ (whole : List UInt8) (frac : Option (List UInt8)) (t : List UInt8),
      s = whole ++ pointText frac ++ t ∧ DigitText hex (whole ++ frac.getD []) ∧ Stops hex t ∧
      (frac.isSome ∨ byte '.' ∉ t.head?) := by
  obtain ⟨whole, t, rfl, hwhole, ht⟩ := exists_digitText hex s
  by_cases hpoint : byte '.' ∈ t.head?
  · obtain ⟨u, rfl⟩ := List.head?_eq_some_iff.mp hpoint
    obtain ⟨ds, t, rfl, hds, ht⟩ := exists_digitText hex u
    exact ⟨whole, some ds, t, by simp [pointText], digitText_append.mpr ⟨hwhole, hds⟩, ht, .inl rfl⟩
  · exact ⟨whole, none, t, by simp [pointText], by simpa using hwhole, ht, .inr hpoint⟩

/-- Nothing else is read as a number. -/
theorem exists_literal_of_readFloat {s : List UInt8} {r : ℚ} (h : readFloat s = some r) :
    ∃ l : FloatLiteral, l.WellFormed ∧ l.text = s ∧ l.value = r := by
  obtain ⟨sign, hs, hneg⟩ := readSign_split s
  obtain ⟨hex, rest, hbody, hhex, hprefix⟩ : ∃ (hex : Option UInt8) (rest : List UInt8),
      (readSign s).2 = (hex.elim [] fun x => [byte '0', x]) ++ rest ∧
      (∀ x ∈ hex, lower x = byte 'x') ∧ hexPrefix (readSign s).2 = hex.isSome := by
    cases hp : hexPrefix (readSign s).2 with
    | false => exact ⟨none, _, rfl, by simp, rfl⟩
    | true =>
      obtain ⟨x, u, hu, hx⟩ := exists_of_hexPrefix hp
      exact ⟨some x, u, hu, by simpa using hx, rfl⟩
  obtain ⟨whole, frac, t, rfl, hdigits, ht, hpoint⟩ := exists_mantissa hex.isSome rest
  have hread (x : Option Exponent) :=
    readFloat_of_parts (s := s) (l := ⟨sign, hex, whole, frac, x⟩)
      (Prod.ext hneg hbody) (by rw [← hprefix, hbody]; rfl) hdigits ht hpoint
  rw [hread none] at h
  obtain ⟨hne, h⟩ := Option.ite_none_left_eq_some.mp h
  obtain ⟨e, he, h⟩ := Option.bind_eq_some_iff.mp h
  obtain ⟨hunder, hr⟩ := Option.ite_none_left_eq_some.mp h
  obtain ⟨x, hx, hbinary, rfl, rfl⟩ := exists_exponent he
  have htext : FloatLiteral.text ⟨sign, hex, whole, frac, x⟩ = s := by
    rw [hs, hbody]
    rfl
  refine ⟨⟨sign, hex, whole, frac, x⟩, ⟨hhex, hdigits, hne, hx, hbinary, fun hmem => ?_⟩, htext,
    Option.some.inj hr⟩
  have hmem' := (FloatLiteral.underscore_mem_text hhex).mp hmem
  rw [htext]
  by_contra hbad
  exact hunder ⟨hmem'.imp_right decide_eq_true, hbad⟩

/-- The texts that are read as numbers are those of the literals. -/
theorem readFloat_eq_some_iff {s : List UInt8} {r : ℚ} :
    readFloat s = some r ↔ ∃ l : FloatLiteral, l.WellFormed ∧ l.text = s ∧ l.value = r := by
  constructor
  · exact exists_literal_of_readFloat
  · rintro ⟨l, hl, rfl, rfl⟩
    exact readFloat_text hl

/-- Every literal holds a decimal digit: one of its mantissa, or the zero of the prefix. -/
theorem FloatLiteral.exists_isDigit {l : FloatLiteral} (h : l.WellFormed) :
    ∃ c ∈ l.body, IsDigit c := by
  cases hx : l.hex with
  | some x => exact ⟨byte '0', by simp [body, prefixText, hx], by decide⟩
  | none =>
    obtain ⟨d, hd⟩ := List.exists_mem_of_ne_nil _ h.digit
    obtain ⟨c, hc, hval⟩ := List.mem_filterMap.mp hd
    rw [hx] at hval
    refine ⟨c, ?_, (Option.ite_none_right_eq_some.mp hval).1⟩
    rcases List.mem_append.mp hc with hc | hc
    · simp [body, hc]
    · cases hf : l.frac with
      | none => simp [hf] at hc
      | some ds =>
        have hc : c ∈ ds := by rwa [hf] at hc
        simp [body, hf, pointText, hc]

/-- No literal spells a special value. -/
theorem special_text {l : FloatLiteral} (h : l.WellFormed) : special l.text = none := by
  obtain ⟨c, hc, hdigit⟩ := FloatLiteral.exists_isDigit h
  have hmem : lower c ∈ l.body.map lower := List.mem_map_of_mem hc
  have hplain : lower c ∉ ascii "nan" ++ ascii "inf" ++ ascii "infinity" :=
    forall_isDigit (p := fun c => lower c ∉ ascii "nan" ++ ascii "inf" ++ ascii "infinity")
      (by decide) hdigit
  simp only [List.mem_append, not_or] at hplain
  have hnan : l.text.map lower ≠ ascii "nan" := by
    intro he
    rw [← he, FloatLiteral.text, List.map_append] at hplain
    exact hplain.1.1 (List.mem_append_right _ hmem)
  have hinf : ¬ (l.body.map lower = ascii "inf" ∨ l.body.map lower = ascii "infinity") := by
    rintro (he | he)
    · exact hplain.1.2 (he ▸ hmem)
    · exact hplain.2 (he ▸ hmem)
  rw [special, if_neg hnan, FloatLiteral.text, readSign_text l.sign h.head_body, if_neg hinf]

end OflMotes.Gateway
