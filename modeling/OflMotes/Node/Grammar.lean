import OflMotes.Node.MoteTeleinfo

/-! Which lines the Teleinfo parser takes. It tests the beginning and the length of a line, but
neither the separators nor the digits nor the checksum. -/
namespace OflMotes.Node
open Ascii

/-- The line is a group of the label as the meter sends it. -/
def Label.WellFormed (l : Label) (line : List UInt8) : Prop :=
  ∃ ds x, (∀ b ∈ ds, IsDigit b) ∧ ds.length = l.digits ∧ line = l.line ds x

/-- A line changes the label's value, or its done bit in `node-teleinfo`, in one of the programs. -/
def Label.ChangedBy (l : Label) (line : List UInt8) : Prop :=
  (∃ r : Results, (storeLine r (fillBuffer line)).get l ≠ r.get l ∨
    (storeLine r (fillBuffer line)).state &&& l.done ≠ r.state &&& l.done) ∨
  ∃ m : Meter, (MoteTeleinfo.storeLine m (fillBuffer line)).get l ≠ m.get l

/-- The done bits of the labels do not overlap. -/
theorem or_done_and_done {k l : Label} (h : k ≠ l) (s : UInt8) :
    (s ||| k.done) &&& l.done = s &&& l.done := by
  apply UInt8.toBitVec_inj.mp
  rw [UInt8.toBitVec_and, UInt8.toBitVec_or, UInt8.toBitVec_and]
  generalize s.toBitVec = b
  revert b h
  cases k <;> cases l <;> decide +kernel

section
variable {l : Label} {line : List UInt8}

/-- The buffer of a printable line is terminated right behind it. -/
theorem strlen_fillBuffer (hline : ∀ b ∈ line, byte ' ' ≤ b) (hlen : line.length < uartBufsize) :
    strlen (fillBuffer line) = line.length := by
  have hne : ∀ b ∈ line, decide (b ≠ 0) = true := by
    intro b hb
    apply decide_eq_true
    rintro rfl
    exact absurd (hline 0 hb) (by decide)
  obtain ⟨k, hk⟩ : ∃ k, uartBufsize - line.length = k + 1 := ⟨uartBufsize - line.length - 1, by omega⟩
  rw [strlen, fillBuffer, List.takeWhile_append_of_pos hne, hk, List.replicate_succ,
    List.takeWhile_cons_of_neg (by decide), List.append_nil]

/-- A label's branch is taken for every line that is long enough and begins with its text. -/
theorem accepts_fillBuffer_iff (hline : ∀ b ∈ line, byte ' ' ≤ b)
    (hlen : line.length < uartBufsize) :
    l.accepts (fillBuffer line) = true ↔ l.text <+: line ∧ l.cut ≤ line.length := by
  rw [Label.accepts_iff, strlen_fillBuffer hline hlen, and_congr_left_iff]
  intro hcut
  have htext : l.text.length ≤ line.length := by
    have := l.text_length
    have := l.offset_add_digits
    omega
  have hprefix : line <+: fillBuffer line := List.prefix_append _ _
  exact ⟨fun h => List.prefix_of_prefix_length_le h hprefix htext, fun h => h.trans hprefix⟩

theorem changedBy_of_accepts (h : l.accepts (fillBuffer line) = true) : l.ChangedBy line := by
  have hbit : (0 ||| l.done) &&& l.done ≠ 0 &&& l.done := by cases l <;> decide
  refine .inl ⟨⟨⟨0, 0, 0⟩, 0⟩, .inr ?_⟩
  rw [storeLine, scanLine_of_accepts h]
  exact hbit

/-- The other labels' values and bits stay as they are. -/
theorem accepts_of_changedBy (h : l.ChangedBy line) : l.accepts (fillBuffer line) = true := by
  cases hscan : scanLine (fillBuffer line) with
  | none =>
    rcases h with ⟨r, h⟩ | ⟨m, h⟩
    · simp only [storeLine, hscan, ne_eq, not_true, or_self] at h
    · simp only [MoteTeleinfo.storeLine, hscan, ne_eq, not_true] at h
  | some kv =>
    obtain ⟨k, v⟩ := kv
    obtain rfl : l = k := by
      by_contra hne
      rcases h with ⟨r, h⟩ | ⟨m, h⟩
      · simp only [storeLine, hscan, Meter.get_store_of_ne _ hne,
          or_done_and_done (Ne.symm hne), ne_eq, not_true, or_self] at h
      · simp only [MoteTeleinfo.storeLine, hscan, Meter.get_store_of_ne _ hne, ne_eq,
          not_true] at h
    exact (accepts_of_scanLine hscan).1

end

/-- Only well-formed groups change values and done bits exactly for those lines that are well
formed wherever they begin with a label and reach its cut. -/
theorem changedBy_wellFormed_iff (line : List UInt8) (hline : ∀ b ∈ line, byte ' ' ≤ b)
    (hlen : line.length < uartBufsize) :
    (∀ l : Label, l.ChangedBy line → l.WellFormed line) ↔
      ∀ l : Label, l.text <+: line → l.cut ≤ line.length → l.WellFormed line := by
  refine forall_congr' fun l => ?_
  have haccepts := accepts_fillBuffer_iff (l := l) hline hlen
  constructor
  · intro h htext hcut
    exact h (changedBy_of_accepts (haccepts.mpr ⟨htext, hcut⟩))
  · intro h hchanged
    obtain ⟨htext, hcut⟩ := haccepts.mp (accepts_of_changedBy hchanged)
    exact h htext hcut

/-- A group of the meter that is not kept. -/
theorem changedBy_wellFormed_iff_adco :
    (∀ l : Label, l.ChangedBy (ascii "ADCO 031028256512 :") →
        l.WellFormed (ascii "ADCO 031028256512 :")) ↔
      ∀ l : Label, l.text <+: ascii "ADCO 031028256512 :" →
        l.cut ≤ (ascii "ADCO 031028256512 :").length → l.WellFormed (ascii "ADCO 031028256512 :") :=
  changedBy_wellFormed_iff _ (by decide +kernel) (by decide)

/-- The current of the first phase of a three-phase meter is taken for the current, and a tenth of
it is stored. -/
theorem longer_label_is_stored :
    scanLine (fillBuffer (ascii "IINST1 010 X")) = some (.iinst, 1) ∧
      Label.iinst.ChangedBy (ascii "IINST1 010 X") ∧
      ¬ Label.iinst.WellFormed (ascii "IINST1 010 X") := by
  refine ⟨by decide +kernel, changedBy_of_accepts (by decide +kernel), ?_⟩
  rintro ⟨ds, x, -, -, hline⟩
  have hsixth := congrArg (fun s => s[5]?) hline
  have hblank : (Label.iinst.line ds x)[5]? = some (byte ' ') := rfl
  rw [hblank] at hsixth
  exact absurd hsixth (by decide)

/-- A line without any digits sets the index to zero and counts as read. -/
example : scanLine (fillBuffer (ascii "BASE----------")) = some (.base, 0) := by decide +kernel

end OflMotes.Node
