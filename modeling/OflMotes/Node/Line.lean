import OflMotes.Node.Clib

/-! The line parser that both Teleinfo programs use, and the values that they keep of a meter. -/
namespace OflMotes.Node
open Ascii

/-- `UART_BUFSIZE`: the size of the ring buffer and of the line buffer. -/
def uartBufsize : ℕ := 128

/-- The lines that are kept. -/
inductive Label
  | base
  | papp
  | iinst
  deriving DecidableEq

namespace Label

/-- What `strncmp` compares the beginning of a line with. -/
def text : Label → List UInt8
  | base => ascii "BASE"
  | papp => ascii "PAPP"
  | iinst => ascii "IINST"

/-- The least length of a line, which is also where it is cut. -/
def cut : Label → ℕ
  | base => 14
  | papp => 10
  | iinst => 9

/-- Where `atoi` starts to read. -/
def offset : Label → ℕ
  | base => 5
  | papp => 5
  | iinst => 6

/-- The condition of the label's branch. -/
def accepts (l : Label) (buffer : List UInt8) : Bool :=
  strncmpEq buffer l.text && decide (l.cut ≤ strlen buffer)

/-- `buffer[cut] = 0` and `atoi(buffer + offset)`. -/
def value (l : Label) (buffer : List UInt8) : ℤ := atoi ((buffer.set l.cut 0).drop l.offset)

end Label

/-- A statement about all labels is one about the three of them. -/
theorem Label.forall_iff {P : Label → Prop} : (∀ l, P l) ↔ P .base ∧ P .papp ∧ P .iinst := by
  constructor
  · intro h
    exact ⟨h .base, h .papp, h .iinst⟩
  · rintro ⟨hb, hp, hi⟩ l
    cases l with
    | base => exact hb
    | papp => exact hp
    | iinst => exact hi

/-- The line buffer after `bzero` and `ringbuffer_get`. -/
def fillBuffer (line : List UInt8) : List UInt8 :=
  line ++ List.replicate (uartBufsize - line.length) 0

/-- The chain of branches that reads a line. -/
def scanLine (buffer : List UInt8) : Option (Label × ℤ) :=
  if Label.base.accepts buffer then some (.base, Label.base.value buffer)
  else if Label.papp.accepts buffer then some (.papp, Label.papp.value buffer)
  else if Label.iinst.accepts buffer then some (.iinst, Label.iinst.value buffer)
  else none

/-- The members that `results_t` has in both programs. -/
structure Meter where
  papp : Int16
  iinst : Int16
  base : Int32
  deriving DecidableEq

/-- The value of `atoi` is narrowed to the member that it is stored in. -/
def Meter.store (m : Meter) : Label → ℤ → Meter
  | .base, v => { m with base := Int32.ofInt v }
  | .papp, v => { m with papp := Int16.ofInt v }
  | .iinst, v => { m with iinst := Int16.ofInt v }

def Meter.get (m : Meter) : Label → ℤ
  | .base => m.base.toInt
  | .papp => m.papp.toInt
  | .iinst => m.iinst.toInt

/-- The number that a label's member keeps of a value. -/
def Label.narrow : Label → ℤ → ℤ
  | .base, v => (Int32.ofInt v).toInt
  | .papp, v => (Int16.ofInt v).toInt
  | .iinst, v => (Int16.ofInt v).toInt

@[simp] theorem Meter.get_store (m : Meter) (l : Label) (v : ℤ) :
    (m.store l v).get l = l.narrow v := by
  cases l <;> rfl

theorem Meter.get_store_of_ne (m : Meter) {k l : Label} (h : k ≠ l) (v : ℤ) :
    (m.store l v).get k = m.get k := by
  cases k <;> cases l <;> first | rfl | exact absurd rfl h

theorem le_strlen {s t : List UInt8} (ht : 0 ∉ t) (h : t <+: s) : t.length ≤ strlen s := by
  obtain ⟨u, rfl⟩ := h
  have htake : (t ++ u).takeWhile (· ≠ 0) = t ++ u.takeWhile (· ≠ 0) :=
    List.takeWhile_append_of_pos fun b hb => by simpa using fun h0 : b = 0 => ht (h0 ▸ hb)
  rw [strlen, htake, List.length_append]
  omega

theorem strncmpEq_iff {s t : List UInt8} : strncmpEq s t = true ↔ t <+: s :=
  List.isPrefixOf_iff_prefix

/-- No label's text begins another's, so the order of the branches does not matter. -/
theorem Label.eq_of_prefix {l k : Label} {s : List UInt8} (hl : l.text <+: s) (hk : k.text <+: s) :
    l = k := by
  have h := List.prefix_or_prefix_of_prefix hl hk
  cases l <;> cases k <;> first | rfl | exact absurd h (by decide)

theorem Label.accepts_iff {l : Label} {buffer : List UInt8} :
    l.accepts buffer = true ↔ l.text <+: buffer ∧ l.cut ≤ strlen buffer := by
  rw [accepts, Bool.and_eq_true, strncmpEq_iff, decide_eq_true_iff]

theorem scanLine_of_accepts {l : Label} {buffer : List UInt8} (h : l.accepts buffer = true) :
    scanLine buffer = some (l, l.value buffer) := by
  have hother (k : Label) (hk : k.accepts buffer = true) : k = l :=
    Label.eq_of_prefix (Label.accepts_iff.mp hk).1 (Label.accepts_iff.mp h).1
  unfold scanLine
  split_ifs with hb hp hi
  · rw [hother _ hb]
  · rw [hother _ hp]
  · rw [hother _ hi]
  · cases l <;> contradiction

theorem accepts_of_scanLine {l : Label} {v : ℤ} {buffer : List UInt8}
    (h : scanLine buffer = some (l, v)) : l.accepts buffer = true ∧ v = l.value buffer := by
  unfold scanLine at h
  split_ifs at h with hb hp hi <;> cases h
  · exact ⟨hb, rfl⟩
  · exact ⟨hp, rfl⟩
  · exact ⟨hi, rfl⟩

/-- The number of digits of a label's value. -/
def Label.digits : Label → ℕ
  | .base => 9
  | .papp => 5
  | .iinst => 3

/-- A line of the meter: label, value and checksum, with blanks between them. -/
def Label.line (l : Label) (ds : List UInt8) (checksum : UInt8) : List UInt8 :=
  l.text ++ byte ' ' :: (ds ++ [byte ' ', checksum])

section
variable {l : Label} {ds : List UInt8}

theorem Label.text_length (l : Label) : l.text.length + 1 = l.offset := by cases l <;> rfl

theorem Label.offset_add_digits (l : Label) : l.offset + l.digits = l.cut := by cases l <;> rfl

theorem Label.cut_add_two_le (l : Label) : l.cut + 2 ≤ uartBufsize := by cases l <;> decide

theorem Label.line_length (hlen : ds.length = l.digits) (x : UInt8) :
    (l.line ds x).length = l.cut + 2 := by
  have htext := l.text_length
  have hcut := l.offset_add_digits
  simp only [Label.line, List.length_append, List.length_cons, List.length_nil]
  omega

theorem Label.zero_notMem_text (l : Label) : 0 ∉ l.text := by cases l <;> decide

theorem zero_notMem_of_isDigit (h : ∀ b ∈ ds, IsDigit b) : 0 ∉ ds := fun h0 =>
  absurd (h 0 h0) (by decide)

theorem fillBuffer_line (l : Label) (ds : List UInt8) (x : UInt8) :
    ∃ rest, fillBuffer (l.line ds x) = (l.text ++ byte ' ' :: ds) ++ byte ' ' :: rest := by
  refine ⟨x :: List.replicate (uartBufsize - (l.line ds x).length) 0, ?_⟩
  rw [fillBuffer, Label.line]
  simp only [List.append_assoc, List.cons_append, List.nil_append]

theorem accepts_line (hds : ∀ b ∈ ds, IsDigit b) (hlen : ds.length = l.digits) (x : UInt8) :
    l.accepts (fillBuffer (l.line ds x)) = true := by
  obtain ⟨rest, hfill⟩ := fillBuffer_line l ds x
  have hcut := l.offset_add_digits
  have htext := l.text_length
  have hzero : 0 ∉ l.text ++ byte ' ' :: ds := by
    simp [l.zero_notMem_text, zero_notMem_of_isDigit hds, show (0 : UInt8) ≠ byte ' ' by decide]
  rw [Label.accepts_iff, hfill]
  refine ⟨(List.prefix_append _ _).trans (List.prefix_append _ _), ?_⟩
  have hlong := le_strlen hzero (List.prefix_append _ (byte ' ' :: rest))
  simp only [List.length_append, List.length_cons] at hlong
  omega

/-- The value read from a well-formed line is the number that its digits write. -/
theorem value_line (hds : ∀ b ∈ ds, IsDigit b) (hlen : ds.length = l.digits) (x : UInt8) :
    l.value (fillBuffer (l.line ds x)) = numeral ds := by
  obtain ⟨rest, hfill⟩ := fillBuffer_line l ds x
  have hcut : l.cut = (l.text ++ byte ' ' :: ds).length := by
    have := l.offset_add_digits
    have := l.text_length
    simp only [List.length_append, List.length_cons]
    omega
  have hoffset : l.offset = (l.text ++ [byte ' ']).length := by
    rw [← l.text_length]
    simp
  have hset : (fillBuffer (l.line ds x)).set l.cut 0 =
      (l.text ++ [byte ' ']) ++ (ds ++ 0 :: rest) := by
    rw [hfill, hcut, List.set_append_right _ _ le_rfl, Nat.sub_self, List.set_cons_zero]
    simp
  have hlt : numeral ds < 2 ^ 31 := by
    have hdigits : l.digits ≤ 9 := by cases l <;> decide
    calc numeral ds < 10 ^ ds.length := numeral_lt hds
      _ ≤ 10 ^ 9 := Nat.pow_le_pow_right (by decide) (by omega)
      _ < 2 ^ 31 := by decide
  rw [Label.value, hset, hoffset, List.drop_left, atoi_digits hds hlt]

theorem scanLine_line (hds : ∀ b ∈ ds, IsDigit b) (hlen : ds.length = l.digits) (x : UInt8) :
    scanLine (fillBuffer (l.line ds x)) = some (l, (numeral ds : ℤ)) := by
  rw [scanLine_of_accepts (accepts_line hds hlen x), value_line hds hlen]

end

end OflMotes.Node
