import OflMotes.Node.Window

/-! One listening window after the other: what a window reads depends on what the windows before it
left unfinished, which is nothing behind a report. A reader takes the bytes of a window one by one
and comes to the same. Both programs for the meters read this way, each with values of its own. -/
namespace OflMotes.Node
open Ascii

/-- Values that are read line by line: what they are at first, what a program makes of them when it
opens a window, what a line does to them, the meter once it is complete, and its report. -/
class Values (σ : Type) where
  start : σ
  reopen : σ → σ
  see : σ → List UInt8 → σ
  meter : σ → Option Meter
  report : UInt8 → Meter → List UInt8
  reopen_reopen : ∀ s, reopen (reopen s) = reopen s

/-- What a window leaves to the next: the values and the unfinished line. -/
structure Carry (σ : Type) where
  latest : σ
  line : List UInt8

section
variable {σ : Type} [Values σ]
open Values

/-- The meter at the first line that completes it. -/
def firstMeter : σ → List (List UInt8) → Option Meter
  | _, [] => none
  | s, line :: lines =>
    match meter (see s line) with
    | some m => some m
    | none => firstMeter (see s line) lines

def Carry.none : Carry σ := ⟨start, []⟩

def Carry.reopen (k : Carry σ) : Carry σ := ⟨Values.reopen k.latest, k.line⟩

/-- What bytes are read as: the meter if they complete it, and what they leave. -/
def Carry.read (k : Carry σ) (bytes : List UInt8) : Option Meter × Carry σ :=
  match firstMeter k.latest (linesFrom k.line bytes).dropLast with
  | some m => (some m, .none)
  | .none =>
    (.none, ⟨(linesFrom k.line bytes).dropLast.foldl see k.latest,
      (linesFrom k.line bytes).getLastD []⟩)

theorem Carry.read_fst (k : Carry σ) (bytes : List UInt8) :
    (k.read bytes).1 = firstMeter k.latest (linesFrom k.line bytes).dropLast := by
  unfold Carry.read
  cases firstMeter k.latest (linesFrom k.line bytes).dropLast <;> rfl

/-- What a window makes of its bytes. -/
def Carry.listen (k : Carry σ) (bytes : List UInt8) : Option Meter × Carry σ := k.reopen.read bytes

/-- The report of a window, if there is one. -/
def Carry.reports (k : Carry σ) (c : UInt8) (bytes : List UInt8) : List (List UInt8) :=
  ((k.listen bytes).1.map (Values.report σ c)).toList

/-- What a cycle leaves to the next. -/
def Carry.cycle (k : Carry σ) (heard : UInt8 → List UInt8) : Carry σ :=
  ((k.listen (heard 1)).2.listen (heard 2)).2

/-- The reports of a cycle. -/
def Carry.cycleReports (k : Carry σ) (heard : UInt8 → List UInt8) : List (List UInt8) :=
  k.reports 1 (heard 1) ++ (k.listen (heard 1)).2.reports 2 (heard 2)

/-- What a cycle starts with, given the bytes heard in each window of each cycle. -/
def carryInto (σ : Type) [Values σ] (heard : ℕ → UInt8 → List UInt8) : ℕ → Carry σ
  | 0 => .none
  | k + 1 => (carryInto σ heard k).cycle (heard k)

end

inductive Reader (σ : Type)
  | reading (k : Carry σ)
  | complete (m : Meter)

section
variable {σ : Type} [Values σ]
open Values

namespace Reader

def byte : Reader σ → UInt8 → Reader σ
  | .complete m, _ => .complete m
  | .reading k, b =>
    let b := b &&& 0x7F
    if b = Ascii.byte '\n' then
      match meter (see k.latest k.line) with
      | some m => .complete m
      | none => .reading ⟨see k.latest k.line, []⟩
    else if Ascii.byte ' ' ≤ b then .reading ⟨k.latest, k.line ++ [b]⟩
    else .reading k

def read (r : Reader σ) (bytes : List UInt8) : Reader σ := bytes.foldl byte r

/-- What this reader has made of its bytes. -/
def result : Reader σ → Option Meter × Carry σ
  | .reading k => (none, k)
  | .complete m => (some m, .none)

@[simp] theorem read_append (r : Reader σ) (bytes : List UInt8) (b : UInt8) :
    r.read (bytes ++ [b]) = (r.read bytes).byte b := List.foldl_append

theorem read_complete (m : Meter) (bytes : List UInt8) : (complete m : Reader σ).read bytes = .complete m := by
  induction bytes with
  | nil => rfl
  | cons b bytes ih => exact ih

variable {k : Carry σ} {b : UInt8}

theorem byte_newline (h : b &&& 0x7F = Ascii.byte '\n') :
    (reading k).byte b = match meter (see k.latest k.line) with
      | some m => .complete m
      | none => .reading ⟨see k.latest k.line, []⟩ := if_pos h

theorem byte_printable (hn : b &&& 0x7F ≠ Ascii.byte '\n') (h : Ascii.byte ' ' ≤ b &&& 0x7F) :
    (reading k).byte b = .reading ⟨k.latest, k.line ++ [b &&& 0x7F]⟩ := by
  simp only [byte, if_neg hn, if_pos h]

theorem byte_control (h : ¬ (b &&& 0x7F = Ascii.byte '\n' ∨ Ascii.byte ' ' ≤ b &&& 0x7F)) :
    (reading k).byte b = .reading k := by
  rw [not_or] at h
  simp only [byte, if_neg h.1, if_neg h.2]

/-- Only a newline can complete the values. -/
theorem byte_result {r : Reader σ} (hb : ∀ k, r = reading k → b &&& 0x7F ≠ Ascii.byte '\n') :
    (r.byte b).result.1 = r.result.1 := by
  cases r with
  | complete m => rfl
  | reading k =>
    by_cases hp : Ascii.byte ' ' ≤ b &&& 0x7F
    · rw [byte_printable (hb k rfl) hp]
      rfl
    · rw [byte_control (by simp [hb k rfl, hp])]

/-- The line that a reader carries has no newline. -/
def Clean (r : Reader σ) : Prop := Ascii.byte '\n' ∉ r.result.2.line

theorem Clean.byte {r : Reader σ} (h : r.Clean) (b : UInt8) : (r.byte b).Clean := by
  cases r with
  | complete m => exact h
  | reading k =>
    by_cases hn : b &&& 0x7F = Ascii.byte '\n'
    · rw [byte_newline hn]
      split
      · exact List.not_mem_nil
      · exact List.not_mem_nil
    by_cases hb : Ascii.byte ' ' ≤ b &&& 0x7F
    · rw [byte_printable hn hb]
      have hline : Ascii.byte '\n' ∉ k.line := h
      simp [Clean, result, hline, Ne.symm hn]
    · rw [byte_control (by simp [hn, hb])]
      exact h

theorem Clean.read {r : Reader σ} (h : r.Clean) (bytes : List UInt8) : (r.read bytes).Clean := by
  induction bytes generalizing r with
  | nil => exact h
  | cons b bytes ih => exact ih (h.byte b)

/-- The reader reads what the lines tell. -/
theorem result_read (hk : Ascii.byte '\n' ∉ k.line) (bytes : List UInt8) :
    ((reading k).read bytes).result = k.read bytes := by
  induction bytes generalizing k with
  | nil =>
    have hlines : linesFrom k.line [] = [k.line] := by
      rw [linesFrom, clean, List.map_nil, List.filter_nil, List.append_nil,
        List.splitOn_eq_singleton hk]
    simp [Carry.read, hlines, firstMeter, read, result]
  | cons b bytes ih =>
    show (((reading k).byte b).read bytes).result = _
    unfold Carry.read
    by_cases hn : b &&& 0x7F = Ascii.byte '\n'
    · have hne := linesFrom_ne_nil [] bytes
      rw [byte_newline hn, linesFrom_newline _ hk hn, List.dropLast_cons_of_ne_nil hne,
        firstMeter, List.foldl_cons]
      cases hm : meter (see k.latest k.line) with
      | some m =>
        simp only
        rw [read_complete]
        rfl
      | none =>
        have hrest := ih (k := ⟨see k.latest k.line, []⟩) List.not_mem_nil
        simp only
        rw [hrest, Carry.read]
        cases hl : linesFrom [] bytes with
        | nil => exact absurd hl hne
        | cons line lines => rfl
    by_cases hb : Ascii.byte ' ' ≤ b &&& 0x7F
    · have hline : Ascii.byte '\n' ∉ k.line ++ [b &&& 0x7F] := by simp [hk, Ne.symm hn]
      rw [byte_printable hn hb, linesFrom_printable _ hb]
      exact ih hline
    · have hcontrol : ¬ (b &&& 0x7F = Ascii.byte '\n' ∨ Ascii.byte ' ' ≤ b &&& 0x7F) := by
        simp [hn, hb]
      rw [byte_control hcontrol, linesFrom_control _ hcontrol]
      exact ih hk

/-- The lines that a reader finishes in these bytes are shorter than the ring buffer. -/
def Short (r : Reader σ) (bytes : List UInt8) : Prop :=
  ∀ k, r = reading k → ∀ line ∈ (linesFrom k.line bytes).dropLast, line.length < uartBufsize

theorem Short.byte {r : Reader σ} {bytes : List UInt8} (hclean : r.Clean) (h : r.Short (b :: bytes)) :
    (r.byte b).Short bytes := by
  cases r with
  | complete m => exact fun k hk => by contradiction
  | reading k =>
    have hline : Ascii.byte '
' ∉ k.line := hclean
    have hall := h k rfl
    by_cases hn : b &&& 0x7F = Ascii.byte '
'
    · rw [linesFrom_newline _ hline hn,
        List.dropLast_cons_of_ne_nil (linesFrom_ne_nil _ _)] at hall
      rw [byte_newline hn]
      split
      · exact fun k hk => by contradiction
      · rintro k ⟨⟩ line hmem
        exact hall line (List.mem_cons_of_mem _ hmem)
    by_cases hb : Ascii.byte ' ' ≤ b &&& 0x7F
    · rw [linesFrom_printable _ hb] at hall
      rw [byte_printable hn hb]
      rintro k ⟨⟩
      exact hall
    · have hcontrol : ¬ (b &&& 0x7F = Ascii.byte '
' ∨ Ascii.byte ' ' ≤ b &&& 0x7F) := by
        simp [hn, hb]
      rw [linesFrom_control _ hcontrol] at hall
      rw [byte_control hcontrol]
      rintro k ⟨⟩
      exact hall

/-- What this reader has to report so far. -/
def texts (c : UInt8) (r : Reader σ) : List (List UInt8) :=
  (r.result.1.map (Values.report σ c)).toList

/-- A machine that follows a reader byte by byte, if its thread keeps up with the lines, and notes what
the reader has to report, does so over a whole schedule of bytes and rounds of the thread. -/
theorem follows_run {τ : Type} {F : Reader σ → τ → Prop} {deliver : τ → UInt8 × ℕ → τ}
    {L : τ → List (List UInt8)} {c : UInt8}
    (hstep : ∀ r t x, F r t → (x.1 &&& 0x7F = Ascii.byte '
' →
        0 < x.2 ∧ ∀ k, r = reading k → k.line.length < uartBufsize) →
      F (r.byte x.1) (deliver t x) ∧
        ∃ l, L (deliver t x) = L t ++ l ∧ (r.byte x.1).texts c = r.texts c ++ l)
    {r : Reader σ} (hclean : r.Clean) {t : τ} (h : F r t) {sched : List (UInt8 × ℕ)}
    (hprompt : Teleinfo.Prompt sched) (hshort : r.Short (sched.map Prod.fst)) :
    ∃ l, L (sched.foldl deliver t) = L t ++ l ∧
      (r.read (sched.map Prod.fst)).texts c = r.texts c ++ l := by
  induction sched generalizing r t with
  | nil => exact ⟨[], (List.append_nil _).symm, (List.append_nil _).symm⟩
  | cons x sched ih =>
    have hkeeps (hn : x.1 &&& 0x7F = Ascii.byte '
') :
        0 < x.2 ∧ ∀ k, r = reading k → k.line.length < uartBufsize := by
      refine ⟨hprompt x List.mem_cons_self hn, ?_⟩
      rintro k rfl
      have hline : Ascii.byte '
' ∉ k.line := hclean
      refine hshort k rfl k.line ?_
      rw [List.map_cons, linesFrom_newline _ hline hn,
        List.dropLast_cons_of_ne_nil (linesFrom_ne_nil _ _)]
      exact List.mem_cons_self
    obtain ⟨hnext, l, hlog, htexts⟩ := hstep r t x h hkeeps
    obtain ⟨l', hlog', htexts'⟩ := ih (hclean.byte x.1) hnext
      (fun y hy => hprompt y (List.mem_cons_of_mem x hy)) (hshort.byte hclean)
    refine ⟨l ++ l', ?_, ?_⟩
    · rw [List.foldl_cons, hlog', hlog, List.append_assoc]
    · show ((r.byte x.1).read (sched.map Prod.fst)).texts c = _
      rw [htexts', htexts, List.append_assoc]

end Reader

namespace Carry
variable {k : Carry σ}

theorem reopen_reopen (k : Carry σ) : k.reopen.reopen = k.reopen := by
  rw [reopen, reopen, Values.reopen_reopen]

/-- Opening a window leaves the line. -/
theorem line_eq_of_reopen {k' : Carry σ} (h : k.reopen = k'.reopen) : k.line = k'.line := by
  have hline := congrArg line h
  exact hline

theorem listen_clean (hk : byte '\n' ∉ k.line) (bytes : List UInt8) :
    byte '\n' ∉ (k.listen bytes).2.line := by
  rw [listen, ← Reader.result_read (k := k.reopen) hk]
  exact Reader.Clean.read (r := .reading k.reopen) hk bytes

/-- A window that has heard nothing yet leaves what it was given. -/
theorem listen_nil (hk : byte '\n' ∉ k.line) : k.listen [] = (Option.none, k.reopen) :=
  (Reader.result_read (k := k.reopen) hk []).symm

end Carry

theorem carryInto_clean (heard : ℕ → UInt8 → List UInt8) (k : ℕ) :
    byte '\n' ∉ (carryInto σ heard k).line := by
  induction k with
  | zero => exact List.not_mem_nil
  | succ k ih => exact Carry.listen_clean (Carry.listen_clean ih _) _

/-- What a cycle starts with depends on the cycles before it. -/
theorem carryInto_congr {heard heard' : ℕ → UInt8 → List UInt8} {n : ℕ}
    (h : ∀ k < n, ∀ c, heard k c = heard' k c) : carryInto σ heard n = carryInto σ heard' n := by
  induction n with
  | zero => rfl
  | succ n ih =>
    have hn : heard n = heard' n := funext fun c => h n (Nat.lt_succ_self n) c
    rw [carryInto, carryInto, ih fun k hk => h k (Nat.lt_succ_of_lt hk), hn]

namespace Carry
variable (k : Carry σ) (heard : UInt8 → List UInt8) (c : UInt8)

/-- What the window of a meter starts with. -/
def into : Carry σ := if c = 1 then k else (k.listen (heard 1)).2

/-- The reports of the windows before it. -/
def before : List (List UInt8) := if c = 1 then [] else k.reports 1 (heard 1)

def reader : Reader σ := (Reader.reading (k.into heard c).reopen).read (heard c)

variable {k heard c}

section
variable (hk : byte '\n' ∉ k.line)
include hk

theorem into_clean : byte '\n' ∉ (k.into heard c).line := by
  unfold into
  split_ifs
  · exact hk
  · exact listen_clean hk _

theorem reader_result : (k.reader heard c).result = (k.into heard c).listen (heard c) :=
  Reader.result_read (k := (k.into heard c).reopen) (into_clean hk) _

/-- While a window is open, and no later one, its reader tells what the cycle has come to. -/
theorem cycle_of_open (hc : c = 1 ∨ c = 2) (hlater : c = 1 → heard 2 = []) :
    (k.cycle heard).reopen = (k.reader heard c).result.2.reopen ∧
      k.cycleReports heard =
        k.before heard c ++ ((k.reader heard c).result.1.map (Values.report σ c)).toList := by
  rw [reader_result hk]
  rcases hc with rfl | rfl
  · have hnil := listen_nil (listen_clean hk (heard 1))
    constructor
    · rw [cycle, hlater rfl, hnil, reopen_reopen]
      rfl
    · rw [cycleReports, reports, reports, hlater rfl, hnil]
      exact List.append_nil _
  · exact ⟨rfl, rfl⟩

/-- A cycle that has heard nothing. -/
theorem cycle_of_nil (h₁ : heard 1 = []) (h₂ : heard 2 = []) :
    (k.cycle heard).reopen = k.reopen ∧ k.cycleReports heard = [] := by
  have hnil := listen_nil hk
  have hnil' := listen_nil (k := k.reopen) hk
  constructor
  · rw [cycle, h₁, hnil, h₂, hnil', reopen_reopen, reopen_reopen]
  · rw [cycleReports, reports, reports, h₁, h₂, hnil, hnil']
    rfl

/-- A window that opens starts with what the cycle has come to. -/
theorem reader_of_nil (hc : c = 1 ∨ c = 2) (hself : heard c = []) (htwo : heard 2 = []) :
    k.reader heard c = .reading (k.cycle heard).reopen := by
  have hreopen : (k.into heard c).reopen = (k.cycle heard).reopen := by
    rcases hc with rfl | rfl
    · exact (cycle_of_nil hk hself htwo).1.symm
    · rw [cycle, htwo, listen_nil (listen_clean hk _), reopen_reopen]
      rfl
  rw [reader, hself, hreopen]
  rfl

end

/-- A byte that is heard goes to the reader of the open window. -/
theorem reader_hear {heard' : UInt8 → List UInt8} {b : UInt8} (hc : c = 1 ∨ c = 2)
    (hself : heard' c = heard c ++ [b]) (hother : ∀ c', c' ≠ c → heard' c' = heard c') :
    k.reader heard' c = (k.reader heard c).byte b ∧ k.before heard' c = k.before heard c := by
  have hinto : k.into heard' c = k.into heard c ∧ k.before heard' c = k.before heard c := by
    rcases hc with rfl | rfl
    · exact ⟨rfl, rfl⟩
    · have hone : heard' 1 = heard 1 := hother 1 (by decide)
      rw [into, into, before, before, hone]
      exact ⟨rfl, rfl⟩
  refine ⟨?_, hinto.2⟩
  rw [reader, reader, hinto.1, hself, Reader.read_append]

end Carry
end

/-- Nothing has been heard behind a cycle, and in it only in the windows that have been opened. -/
def HeardUpTo (n : ℕ) (opened : UInt8 → Prop) (h : ℕ → UInt8 → List UInt8) : Prop :=
  ∀ k c, h k c ≠ [] → k < n ∨ k = n ∧ opened c

/-- A byte more, in one window of a cycle. -/
structure HearsByte (n : ℕ) (c b : UInt8) (h h' : ℕ → UInt8 → List UInt8) : Prop where
  cycles : ∀ k ≠ n, h' k = h k
  self : h' n c = h n c ++ [b]
  other : ∀ c', c' ≠ c → h' n c' = h n c'

section
variable {n : ℕ} {opened opened' : UInt8 → Prop} {h h' : ℕ → UInt8 → List UInt8} {c b : UInt8}

theorem HeardUpTo.nil (hh : HeardUpTo n opened h) (hc : ¬ opened c) : h n c = [] := by
  by_contra hne
  rcases hh n c hne with hlt | ⟨-, hopened⟩
  · exact Nat.lt_irrefl n hlt
  · exact hc hopened

theorem HeardUpTo.later (hh : HeardUpTo n opened h) {k : ℕ} (hk : n < k) (c : UInt8) :
    h k c = [] := by
  by_contra hne
  rcases hh k c hne with hlt | ⟨rfl, -⟩
  · exact Nat.lt_asymm hk hlt
  · exact Nat.lt_irrefl k hk

theorem HeardUpTo.mono (hh : HeardUpTo n opened h) (hopened : ∀ c, opened c → opened' c) :
    HeardUpTo n opened' h := by
  intro k c hne
  exact (hh k c hne).imp_right fun hk => ⟨hk.1, hopened c hk.2⟩

theorem HeardUpTo.next (hh : HeardUpTo n opened h) : HeardUpTo (n + 1) opened' h := by
  intro k c hne
  refine .inl ?_
  rcases hh k c hne with hlt | ⟨rfl, -⟩
  · exact Nat.lt_succ_of_lt hlt
  · exact Nat.lt_succ_self k

theorem HearsByte.heardUpTo (hb : HearsByte n c b h h') (hh : HeardUpTo n opened h)
    (hc : opened c) : HeardUpTo n opened h' := by
  intro k c' hne
  by_cases hk : k = n
  · subst hk
    refine .inr ⟨rfl, ?_⟩
    by_cases hcc : c' = c
    · exact hcc ▸ hc
    · rw [hb.other c' hcc] at hne
      exact ((hh k c' hne).resolve_left (Nat.lt_irrefl k)).2
  · rw [hb.cycles k hk] at hne
    exact .inl ((hh k c' hne).resolve_right fun hk' => hk hk'.1)

variable {σ : Type} [Values σ]

theorem HearsByte.carryInto_eq (hb : HearsByte n c b h h') {k : ℕ} (hk : k ≤ n) :
    carryInto σ h' k = carryInto σ h k :=
  carryInto_congr fun j hj c => congrFun (hb.cycles j (hj.trans_le hk).ne) c

theorem HearsByte.reader_eq (hb : HearsByte n c b h h') (hc : c = 1 ∨ c = 2) :
    (carryInto σ h' n).reader (h' n) c = ((carryInto σ h n).reader (h n) c).byte b := by
  rw [hb.carryInto_eq le_rfl]
  exact (Carry.reader_hear hc hb.self hb.other).1

/-- What the byte completes in the open window is all that it adds to the reports of the cycle. -/
theorem HearsByte.cycleReports_eq (hb : HearsByte n c b h h') (hc : c = 1 ∨ c = 2)
    (hlater : c = 1 → h n 2 = []) {l : List (List UInt8)}
    (hl : ((((carryInto σ h n).reader (h n) c).byte b).result.1.map (Values.report σ c)).toList =
      (((carryInto σ h n).reader (h n) c).result.1.map (Values.report σ c)).toList ++ l) :
    (carryInto σ h' n).cycleReports (h' n) = (carryInto σ h n).cycleReports (h n) ++ l := by
  have hclean : byte '\n' ∉ (carryInto σ h n).line := carryInto_clean h n
  have hlater' : c = 1 → h' n 2 = [] := by
    rintro rfl
    rw [hb.other 2 (by decide)]
    exact hlater rfl
  obtain ⟨hreader, hbefore⟩ := Carry.reader_hear (k := carryInto σ h n) hc hb.self hb.other
  rw [hb.carryInto_eq le_rfl, (Carry.cycle_of_open hclean hc hlater').2,
    (Carry.cycle_of_open hclean hc hlater).2, hreader, hbefore, hl, List.append_assoc]

end

/-- The module goes on with the latest values in its next window. -/
instance : Values Latest where
  start := .none
  reopen := id
  see := Latest.see
  meter := Latest.meter
  report := report
  reopen_reopen _ := rfl

theorem reopen_latest (k : Carry Latest) : k.reopen = k := rfl

theorem firstMeter_latest (s : Latest) (lines : List (List UInt8)) :
    firstMeter s lines = firstComplete s lines := by
  induction lines generalizing s with
  | nil => rfl
  | cons line lines ih =>
    exact congrArg (fun rest => match (s.see line).meter with
      | some m => some m
      | none => rest) (ih (s.see line))

/-- Behind a report, and at first, a window reads its own bytes only. -/
theorem listen_none (bytes : List UInt8) :
    ((Carry.none : Carry Latest).listen bytes).1 = firstComplete .none (linesOf bytes).dropLast := by
  rw [← firstMeter_latest]
  exact Carry.read_fst _ bytes

theorem none_reports (c : UInt8) (bytes : List UInt8) :
    (Carry.none : Carry Latest).reports c bytes = (windowReport c bytes).toList := by
  rw [Carry.reports, listen_none, windowReport]
  cases firstComplete .none (linesOf bytes).dropLast with
  | none => rfl
  | some m =>
    rw [Option.map_some, Option.map_some, ← report_eq]
    rfl

/-- A window that has completed the meter leaves nothing to the next. -/
theorem listen_complete {σ : Type} [Values σ] {k : Carry σ} {bytes : List UInt8}
    (h : (k.listen bytes).1 ≠ none) : (k.listen bytes).2 = .none := by
  unfold Carry.listen Carry.read at h ⊢
  split at h
  · rfl
  · contradiction

/-- Where all windows so far have completed their meters, each cycle starts anew. -/
theorem carryInto_of_complete {σ : Type} [Values σ] {h : ℕ → UInt8 → List UInt8} {k : ℕ}
    (hcomplete : ∀ j < k, ∀ c, c = 1 ∨ c = 2 → ((Carry.none : Carry σ).listen (h j c)).1 ≠ none) :
    carryInto σ h k = .none := by
  induction k with
  | zero => rfl
  | succ k ih =>
    have hk := hcomplete k (Nat.lt_succ_self k)
    rw [carryInto, ih fun j hj => hcomplete j (Nat.lt_succ_of_lt hj), Carry.cycle,
      listen_complete (hk 1 (.inl rfl)), listen_complete (hk 2 (.inr rfl))]

theorem listen_of_windowReport {c : UInt8} {bytes : List UInt8} (h : windowReport c bytes ≠ none) :
    ((Carry.none : Carry Latest).listen bytes).1 ≠ none := by
  rw [listen_none]
  intro hnone
  rw [windowReport, hnone] at h
  contradiction

namespace Teleinfo

/-- Behind a report the module rests until the next window. -/
structure Rests (n : Teleinfo) : Prop where
  rx : n.rxTeleinfo = 0
  thread : n.thread = .sleeping
  queue : n.msgQueue = 0
  ring : n.rxBuf = .empty
  state : n.results.state = 0

/-- In an open window. -/
def Follows (c : UInt8) : Reader Latest → Teleinfo → Prop
  | .reading k, n => Tracks c n.outbox k.latest k.line n
  | .complete _, n => Rests n

/-- Between two windows. -/
def Closed (k : Carry Latest) (n : Teleinfo) : Prop :=
  Tracks 0 n.outbox k.latest k.line n ∨ k = .none ∧ Rests n

section
variable {n : Teleinfo} {c : UInt8} {r : Reader Latest} {k : Carry Latest} {b : UInt8}

theorem Follows.thread_ne (h : Follows c r n) : n.thread ≠ .handling := by
  cases r with
  | reading k => rw [Tracks.thread h]; decide
  | complete m => rw [Rests.thread h]; decide

theorem Closed.thread_ne (h : Closed k n) : n.thread ≠ .handling := by
  rcases h with h | ⟨-, h⟩ <;> rw [h.thread] <;> decide

theorem Closed.clean (h : Closed k n) : byte '\n' ∉ k.line := by
  rcases h with h | ⟨rfl, -⟩
  · exact h.noNewline
  · exact List.not_mem_nil

theorem closed_init : Closed .none init :=
  .inl ⟨rfl, rfl, rfl, rfl, List.not_mem_nil, represents_none rfl, rfl⟩

theorem Follows.disableRx (h : Follows c r n) : Closed r.result.2 n.disableRx := by
  cases r with
  | reading k => exact .inl ⟨rfl, h.thread, h.queue, h.line, h.noNewline, h.results, rfl⟩
  | complete m => exact .inr ⟨rfl, rfl, h.thread, h.queue, h.ring, h.state⟩

theorem Closed.enableRx (h : Closed k n) (c : UInt8) : Follows c (.reading k) (n.enableRx c) := by
  rcases h with h | ⟨rfl, h⟩
  · have hwake : (n.enableRx c).thread = .receiving ∧ (n.enableRx c).msgQueue = 0 := by
      obtain ⟨p₁, p₂, he⟩ := n.enableRx_eq c
      rw [he, if_neg (by rw [h.thread]; decide)]
      exact ⟨h.thread, h.queue⟩
    exact ⟨n.enableRx_rxTeleinfo c, hwake.1, hwake.2, by rw [enableRx_rxBuf]; exact h.line,
      h.noNewline, by rw [enableRx_results]; exact h.results, rfl⟩
  · have htracks := tracks_enableRx (by rw [h.thread]; decide) h.queue h.ring h.state c
    rw [← n.enableRx_outbox c] at htracks
    exact htracks

/-- Outside of the windows, and behind a report, bytes are not heard. -/
theorem Closed.rxCb (h : Closed k n) (b : UInt8) : n.rxCb b = n := by
  rcases h with h | ⟨-, h⟩
  · exact rxCb_of_disabled h.rx
  · exact rxCb_of_disabled h.rx

theorem Follows.rxCb (hc : c ≠ 0) (h : Follows c r n)
    (hb : ∀ k, r = .reading k → b &&& 0x7F ≠ byte '\n') : Follows c (r.byte b) (n.rxCb b) := by
  cases r with
  | complete m =>
    rw [rxCb_of_disabled (Rests.rx h)]
    exact h
  | reading k =>
    have hn := hb k rfl
    have hout := n.rxCb_outbox b
    by_cases hp : byte ' ' ≤ b &&& 0x7F
    · rw [Reader.byte_printable hn hp]
      have htracks := tracks_printable (x := (b, 0)) hc h hn hp
      rw [← hout] at htracks
      exact htracks
    · have hcontrol : ¬ (b &&& 0x7F = byte '\n' ∨ byte ' ' ≤ b &&& 0x7F) := by simp [hn, hp]
      rw [Reader.byte_control hcontrol]
      have htracks := tracks_control (x := (b, 0)) h hcontrol
      rw [← hout] at htracks
      exact htracks

/-- A newline that is handled at once. -/
theorem Follows.newline (hc : c ≠ 0) (h : Follows c (.reading k) n)
    (hb : b &&& 0x7F = byte '\n') (hlen : n.rxBuf.data.length < uartBufsize) :
    Follows c ((Reader.reading k).byte b) (n.rxCb b).run ∧
      (n.rxCb b).run.outbox =
        n.outbox ++ (((Reader.reading k).byte b).result.1.map (report c)).toList := by
  have hline : k.line.length < uartBufsize := by
    rw [Tracks.line h, List.length_drop] at hlen
    unfold uartBufsize at hlen ⊢
    omega
  have hrun := tracks_newline (x := (b, 1)) hc h hb Nat.one_pos hline
  have hqueue : n.msgQueue = 0 := Tracks.queue h
  have hdeliver : n.deliver (b, 1) = (n.rxCb b).run := rfl
  rw [hdeliver] at hrun
  have hbyte : (Reader.reading k).byte b = match (k.latest.see k.line).meter with
      | some m => .complete m
      | none => .reading ⟨k.latest.see k.line, []⟩ := Reader.byte_newline hb
  rw [hbyte]
  cases hm : (k.latest.see k.line).meter with
  | some m =>
    rw [hm] at hrun
    simp only at hrun ⊢
    rw [hrun, ← report_eq]
    exact ⟨⟨rfl, rfl, hqueue, rfl, rfl⟩, rfl⟩
  | none =>
    rw [hm] at hrun
    simp only at hrun ⊢
    have hout := hrun.outbox
    refine ⟨?_, ?_⟩
    · rw [← hout] at hrun
      exact hrun
    · rw [hout]
      exact (List.append_nil _).symm

/-- A byte with the rounds of the thread behind it. -/
theorem Follows.deliver (hc : c ≠ 0) (h : Follows c r n) {x : UInt8 × ℕ}
    (hkeeps : x.1 &&& 0x7F = byte '\n' →
      0 < x.2 ∧ ∀ k, r = .reading k → k.line.length < uartBufsize) :
    Follows c (r.byte x.1) (n.deliver x) ∧ ∃ l, (n.deliver x).outbox = n.outbox ++ l ∧
      (r.byte x.1).texts c = r.texts c ++ l := by
  by_cases hnl : ∃ k, r = .reading k ∧ x.1 &&& 0x7F = byte '\n'
  · obtain ⟨k, rfl, hn⟩ := hnl
    obtain ⟨hpos, hlen⟩ := hkeeps hn
    have hline : n.rxBuf.data.length < uartBufsize := by
      rw [Tracks.line h, List.length_drop]
      exact (Nat.sub_le _ _).trans_lt (hlen k rfl)
    obtain ⟨hnext, hout⟩ := h.newline hc hn hline
    rw [deliver_of_pos hpos hnext.thread_ne]
    exact ⟨hnext, _, hout, rfl⟩
  · have hn (k : Carry Latest) (hr : r = .reading k) : x.1 &&& 0x7F ≠ byte '\n' :=
      fun hn => hnl ⟨k, hr, hn⟩
    have hnext := h.rxCb hc hn
    rw [deliver_of_ne hnext.thread_ne]
    refine ⟨hnext, [], ?_, ?_⟩
    · rw [rxCb_outbox, List.append_nil]
    · rw [Reader.texts, Reader.byte_result hn, List.append_nil]
      rfl

/-- A window that starts anew, while the thread keeps up with its lines. -/
theorem outbox_run (hc : c ≠ 0) (hthread : n.thread ≠ .handling) (hqueue : n.msgQueue = 0)
    (hring : n.rxBuf = .empty) (hstate : n.results.state = 0) {sched : List (UInt8 × ℕ)}
    (hprompt : Prompt sched)
    (hshort : ∀ line ∈ (linesOf (sched.map Prod.fst)).dropLast, line.length < uartBufsize) :
    (Run.run step n (.enableRx c :: events sched)).outbox =
      n.outbox ++ (Carry.none : Carry Latest).reports c (sched.map Prod.fst) := by
  have htracks := tracks_enableRx hthread hqueue hring hstate c
  rw [← n.enableRx_outbox c] at htracks
  have hfollows : Follows c (.reading .none) (n.enableRx c) := htracks
  obtain ⟨l, hout, htexts⟩ := Reader.follows_run (F := Follows c) (L := outbox) (c := c)
    (fun r t x h hkeeps => h.deliver hc hkeeps) (r := .reading .none) List.not_mem_nil hfollows
    hprompt (by rintro k ⟨⟩; exact hshort)
  rw [Reader.texts, Reader.texts, Reader.result_read List.not_mem_nil] at htexts
  rw [Run.run_cons, run_events]
  show (sched.foldl Teleinfo.deliver (n.enableRx c)).outbox = _
  rw [hout, enableRx_outbox]
  exact congrArg (n.outbox ++ ·) htexts.symm

end
end Teleinfo
end OflMotes.Node
