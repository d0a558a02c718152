import OflMotes.Lib.Fields
import OflMotes.Node.MoteTeleinfo

/-! Whether the number written in a line of the meter is the number that is stored and reported. -/
namespace OflMotes.Node
open Ascii

/-- A member keeps every number that a line can write, but for five digits of apparent power. -/
theorem narrow_eq_iff {l : Label} {n : ℕ} (hn : n < 10 ^ l.digits) :
    l.narrow n = n ↔ (l = .papp → n ≤ 32767) := by
  cases l with
  | base =>
    have hlt : n < 10 ^ 9 := hn
    simp [Label.narrow, Int32.toInt_ofInt_of_le (n := n) (by omega) (by omega)]
  | papp =>
    simp only [Label.narrow, forall_const]
    constructor
    · intro h
      have := (Int16.ofInt n).toInt_lt
      omega
    · intro h
      exact Int16.toInt_ofInt_of_le (by omega) (by omega)
  | iinst =>
    have hlt : n < 10 ^ 3 := hn
    simp [Label.narrow, Int16.toInt_ofInt_of_le (n := n) (by omega) (by omega)]

/-- The piece of a report that prints a label's value. -/
def printedField (l : Label) (label : UInt8) (z : ℤ) : List UInt8 :=
  l.text ++ decimal label.toNat ++ byte ':' :: signed z

theorem notMem_printedField (l : Label) (label : UInt8) (z : ℤ) :
    byte ';' ∉ printedField l label z := by
  have hsemi : hexVal (byte ';') = none := by decide
  have htext : byte ';' ∉ l.text := by cases l <;> decide
  simp [printedField, htext, notMem_decimal hsemi, notMem_signed hsemi (by decide) z,
    show byte ';' ≠ byte ':' by decide]

theorem reportText_eq (label : UInt8) (m : Meter) :
    reportText label m = printedField .papp label (m.get .papp) ++ byte ';' ::
      (printedField .base label (m.get .base) ++ byte ';' ::
        printedField .iinst label (m.get .iinst)) := by
  simp [reportText, printedField, Label.text, Meter.get, ascii]

/-- The pieces of a report, for both programs: the last field ends at a semicolon or at the end. -/
theorem mem_splitOn_reportText (l : Label) (label : UInt8) (m : Meter) (rest : List UInt8) :
    printedField l label (m.get l) ∈ (reportText label m).splitOn (byte ';') ∧
      printedField l label (m.get l) ∈
        (reportText label m ++ byte ';' :: rest).splitOn (byte ';') := by
  have hno := fun k => notMem_printedField k label (m.get k)
  rw [reportText_eq]
  simp only [List.append_assoc, List.cons_append,
    List.splitOn_append_cons_self_of_not_mem (hno _), List.splitOn_eq_singleton (hno _)]
  cases l <;> simp

/-- A program keeps and prints the number: whatever the results were, the line's label gets it,
and every report of results that hold the stored value prints it. -/
def Exact (store : Meter → List UInt8 → Meter) (report : UInt8 → Meter → List UInt8) (l : Label)
    (line : List UInt8) (n : ℕ) : Prop :=
  ∀ m, (store m (fillBuffer line)).get l = n ∧
    ∀ label m', m'.get l = (store m (fillBuffer line)).get l →
      printedField l label n ∈ (report label m').splitOn (byte ';')

theorem exact_of_store {store : Meter → List UInt8 → Meter}
    {report : UInt8 → Meter → List UInt8} {l : Label} {line : List UInt8} {n : ℕ}
    (hstore : ∀ m, store m (fillBuffer line) = m.store l n)
    (hget : l.narrow n = n)
    (hprint : ∀ label m, printedField l label (m.get l) ∈ (report label m).splitOn (byte ';')) :
    Exact store report l line n := by
  intro m
  rw [hstore, Meter.get_store, hget]
  refine ⟨rfl, fun label m' hm => ?_⟩
  rw [← hm]
  exact hprint label m'

/-- Both programs keep and print the number of a well-formed line exactly if it fits its member,
which five digits of apparent power need not do. -/
theorem exact_iff_fits (l : Label) (ds : List UInt8) (hds : ∀ b ∈ ds, IsDigit b)
    (hlen : ds.length = l.digits) (checksum : UInt8) :
    ((∀ state, Exact (fun m buffer => (storeLine ⟨m, state⟩ buffer).toMeter) report l
        (l.line ds checksum) (numeral ds)) ∧
      Exact MoteTeleinfo.storeLine MoteTeleinfo.report l (l.line ds checksum) (numeral ds)) ↔
    (l = .papp → numeral ds ≤ 32767) := by
  have hscan := scanLine_line hds hlen checksum
  have hlt : numeral ds < 10 ^ l.digits := hlen ▸ numeral_lt hds
  have hnode (m : Meter) (state : UInt8) :
      (storeLine ⟨m, state⟩ (fillBuffer (l.line ds checksum))).toMeter =
        m.store l (numeral ds) := by
    rw [storeLine, hscan]
  have hmote (m : Meter) : MoteTeleinfo.storeLine m (fillBuffer (l.line ds checksum)) =
      m.store l (numeral ds) := by
    rw [MoteTeleinfo.storeLine, hscan]
  constructor
  · rintro ⟨-, h⟩
    have := (h ⟨0, 0, 0⟩).1
    rw [hmote, Meter.get_store] at this
    exact (narrow_eq_iff hlt).mp this
  · intro h
    have hget := (narrow_eq_iff hlt).mpr h
    refine ⟨fun state => exact_of_store (fun m => hnode m state) hget fun label m => ?_,
      exact_of_store hmote hget fun label m => (mem_splitOn_reportText l label m []).1⟩
    rw [report_eq]
    exact (mem_splitOn_reportText l label m []).2

/-- The line that the source gives as an example. -/
theorem exact_iff_fits_example :
    ((∀ state, Exact (fun m buffer => (storeLine ⟨m, state⟩ buffer).toMeter) report .papp
        (Label.papp.line (ascii "02340") (byte '*')) (numeral (ascii "02340"))) ∧
      Exact MoteTeleinfo.storeLine MoteTeleinfo.report .papp
        (Label.papp.line (ascii "02340") (byte '*')) (numeral (ascii "02340"))) ↔
    (Label.papp = .papp → numeral (ascii "02340") ≤ 32767) :=
  exact_iff_fits .papp (ascii "02340") (by decide +kernel) (by decide) (byte '*')

/-- An apparent power of 40000 becomes negative. -/
theorem papp_wraps :
    (storeLine ⟨⟨0, 0, 0⟩, 0⟩ (fillBuffer (ascii "PAPP 40000 *"))).toMeter.get .papp = -25536 ∧
      (MoteTeleinfo.storeLine ⟨-1, -1, -1⟩ (fillBuffer (ascii "PAPP 40000 *"))).get .papp = -25536 ∧
      ¬ Exact MoteTeleinfo.storeLine MoteTeleinfo.report .papp
        (Label.papp.line (ascii "40000") (byte '*')) (numeral (ascii "40000")) := by
  refine ⟨by decide, by decide, fun h => ?_⟩
  exact absurd (h ⟨0, 0, 0⟩).1 (by decide)

end OflMotes.Node
