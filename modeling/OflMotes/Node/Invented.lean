import OflMotes.Lib.Run
import OflMotes.Node.MoteTeleinfo

/-! Whether `mote-teleinfo` transmits values that no meter sent. That a value was read is encoded
by its sign; a result that is zero because the program was started, or because a report was sent,
looks like a value. The program is run together with a record of where its values come from, which
does not act on it. -/
namespace OflMotes.Node.MoteTeleinfo
open Ascii

/-- The label's value was read from the line. -/
def ReadFrom (m : Meter) (l : Label) (line : List UInt8) : Prop :=
  ∃ v, scanLine (fillBuffer line) = some (l, v) ∧ m.get l = l.narrow v

/-- The record of a report: its label, the values, for each label the line that was stored last
and when it was processed, when `main` had last set the results to -1 for that meter, and when the
report before was sent. -/
structure Trace where
  label : UInt8
  meter : Meter
  parsed : Label → Option (ℕ × List UInt8)
  reset : Option ℕ
  previous : Option ℕ

/-- Every value was read from a line that was processed after the reset for the meter and after
the report before. -/
def Trace.Genuine (tr : Trace) : Prop :=
  ∀ l, ∃ time line, tr.parsed l = some (time, line) ∧ ReadFrom tr.meter l line ∧
    (∃ r, tr.reset = some r ∧ r < time) ∧ ∀ p ∈ tr.previous, p < time

/-- The program with its record: the number of events so far, the last line stored for each label,
the last reset for each meter, the last report, and which results `main` has set to -1 since the
last switch, report and zeroing. -/
structure Traced where
  mote : Mote
  now : ℕ
  parsed : Label → Option (ℕ × List UInt8)
  reset : UInt8 → Option ℕ
  sentAt : Option ℕ
  cleared : Label → Bool
  log : List Trace

namespace Traced

def start : Traced := ⟨.powerUp, 0, fun _ => none, fun _ => none, none, fun _ => false, []⟩

/-- The results once the buffered line was stored. -/
def stored (t : Traced) : Meter := storeLine t.mote.results (fillBuffer t.mote.rxBuf.data)

/-- The lines behind the results once the buffered line was stored. -/
def readLine (t : Traced) : Label → Option (ℕ × List UInt8) :=
  match scanLine (fillBuffer t.mote.rxBuf.data) with
  | some (l, _) => Function.update t.parsed l (some (t.now, t.mote.rxBuf.data))
  | none => t.parsed

def mainStep (t : Traced) : Traced :=
  let t' := { t with mote := t.mote.mainStep, now := t.now + 1 }
  match t.mote.main with
  | .curPitinfo _ => { t' with cleared := fun _ => false }
  | .base _ => { t' with cleared := Function.update t.cleared .base true }
  | .iinst _ => { t' with cleared := Function.update t.cleared .iinst true }
  | .papp c => { t' with
      cleared := Function.update t.cleared .papp true
      reset := Function.update t.reset c (some t.now) }
  | _ => t'

def process (t : Traced) : Traced :=
  let t' := { t with mote := t.mote.process, now := t.now + 1 }
  if t.mote.processor = .handling then
    if complete t.stored then
      { t' with
        parsed := t.readLine
        sentAt := some t.now
        cleared := fun _ => false
        log := t.log ++ [⟨t.mote.curPitinfo, t.stored, t.readLine, t.reset t.mote.curPitinfo,
          t.sentAt⟩] }
    else { t' with parsed := t.readLine }
  else t'

def notified (t : Traced) : Traced :=
  let t' := { t with mote := t.mote.notified, now := t.now + 1 }
  if t.mote.processor = .notifying then { t' with cleared := fun _ => false } else t'

def step (t : Traced) : Mote.Event → Traced
  | .main => t.mainStep
  | .rx data => { t with mote := t.mote.rxCb data, now := t.now + 1 }
  | .process => t.process
  | .notified => t.notified

theorem step_mote (t : Traced) (e : Mote.Event) : (t.step e).mote = t.mote.step e := by
  cases e with
  | main => simp only [step, mainStep, Mote.step]; split <;> rfl
  | rx data => rfl
  | process => simp only [step, process, Mote.step]; split_ifs <;> rfl
  | notified => simp only [step, notified, Mote.step]; split_ifs <;> rfl

/-- `main` is between a switch and the last of its three resets. -/
def InReset (main : Statement) (c : UInt8) : Prop :=
  main = .base c ∨ main = .iinst c ∨ main = .papp c

/-- No line is handled during the resets, and none completes the results before `main` has set all
of them to -1 since the last switch, report and zeroing. -/
def Ready (t : Traced) : Mote.Event → Prop
  | .process => t.mote.processor = .handling →
      (∀ c, ¬ InReset t.mote.main c) ∧ (complete t.stored = true → ∀ l, t.cleared l = true)
  | _ => True

instance (main : Statement) : Decidable (∀ c, ¬ InReset main c) :=
  match main with
  | .base c => isFalse fun h => h c (.inl rfl)
  | .iinst c => isFalse fun h => h c (.inr (.inl rfl))
  | .papp c => isFalse fun h => h c (.inr (.inr rfl))
  | .uartInit => isTrue (by simp [InReset])
  | .threadCreate => isTrue (by simp [InReset])
  | .curPitinfo _ => isTrue (by simp [InReset])
  | .poweron _ => isTrue (by simp [InReset])
  | .poweroff _ => isTrue (by simp [InReset])

instance (cleared : Label → Bool) : Decidable (∀ l, cleared l = true) :=
  decidable_of_iff' _ Label.forall_iff

instance (t : Traced) : (e : Mote.Event) → Decidable (t.Ready e)
  | .process => inferInstanceAs (Decidable (_ → _ ∧ (_ → _)))
  | .main => isTrue trivial
  | .rx _ => isTrue trivial
  | .notified => isTrue trivial

theorem complete_iff (m : Meter) : complete m = true ↔ ∀ l, 0 ≤ m.get l := by
  have hpapp : 0 ≤ m.papp ↔ 0 ≤ m.papp.toInt := Int16.le_iff_toInt_le
  have hiinst : 0 ≤ m.iinst ↔ 0 ≤ m.iinst.toInt := Int16.le_iff_toInt_le
  have hbase : 0 ≤ m.base ↔ 0 ≤ m.base.toInt := Int32.le_iff_toInt_le
  rw [Label.forall_iff, complete, Bool.and_eq_true, Bool.and_eq_true, decide_eq_true_iff,
    decide_eq_true_iff, decide_eq_true_iff, hpapp, hiinst, hbase]
  constructor
  · rintro ⟨⟨hp, hi⟩, hb⟩
    exact ⟨hb, hp, hi⟩
  · rintro ⟨hb, hp, hi⟩
    exact ⟨⟨hp, hi⟩, hb⟩

/-- The value was read from a line processed since the reset for the meter and since the last
report. -/
def Read (t : Traced) (l : Label) : Prop :=
  ∃ time line, t.parsed l = some (time, line) ∧ ReadFrom t.mote.results l line ∧
    (∃ r, t.reset t.mote.curPitinfo = some r ∧ r < time) ∧ ∀ p ∈ t.sentAt, p < time

/-- Where the results that `main` has set to -1 stand: still at -1 during the resets, and later
at -1 or at a value that was read. -/
structure Honest (t : Traced) : Prop where
  sent : ∀ p ∈ t.sentAt, p < t.now
  label : ∀ c, InReset t.mote.main c → t.mote.curPitinfo = c
  resetting : ∀ c, InReset t.mote.main c → ∀ l, t.cleared l = true → t.mote.results.get l = -1
  reset : (∀ c, ¬ InReset t.mote.main c) → ∀ l, t.cleared l = true →
    (∃ r, t.reset t.mote.curPitinfo = some r ∧ r < t.now) ∧
      (t.mote.results.get l = -1 ∨ t.Read l)
  log : ∀ tr ∈ t.log, tr.Genuine
  transmitted : t.mote.transmitted = t.log.map fun tr => report tr.label tr.meter

theorem honest_start : Honest start where
  sent := by simp [start]
  label := by simp [start, Mote.powerUp, InReset]
  resetting := by simp [start]
  reset := by simp [start]
  log := by simp [start]
  transmitted := rfl

section
variable {t : Traced}

/-- A step that sets nothing to -1, and touches neither results nor label. -/
theorem Honest.of_same (h : Honest t) {mote : Mote}
    (hmain : ∀ c, InReset mote.main c ↔ InReset t.mote.main c)
    (hlabel : mote.curPitinfo = t.mote.curPitinfo) (hresults : mote.results = t.mote.results)
    (htransmitted : mote.transmitted = t.mote.transmitted) :
    Honest { t with mote := mote, now := t.now + 1 } where
  sent := fun p hp => (h.sent p hp).trans (Nat.lt_succ_self _)
  label := fun c hc => hlabel.trans (h.label c ((hmain c).mp hc))
  resetting := fun c hc l hl => by
    simp only [hresults]
    exact h.resetting c ((hmain c).mp hc) l hl
  reset := fun hc l hl => by
    obtain ⟨⟨r, hr, hlt⟩, hread⟩ := h.reset (fun c hin => hc c ((hmain c).mpr hin)) l hl
    refine ⟨⟨r, by simp only [hlabel, hr], hlt.trans (Nat.lt_succ_self _)⟩, ?_⟩
    simp only [Read, hresults, hlabel]
    exact hread
  log := h.log
  transmitted := htransmitted.trans h.transmitted

/-- Where all marks are taken back, nothing is claimed of the results. -/
theorem honest_of_uncleared {t' : Traced} (hsent : ∀ p ∈ t'.sentAt, p < t'.now)
    (hlabel : ∀ c, InReset t'.mote.main c → t'.mote.curPitinfo = c)
    (hcleared : t'.cleared = fun _ => false) (hlog : ∀ tr ∈ t'.log, tr.Genuine)
    (htransmitted : t'.mote.transmitted = t'.log.map fun tr => report tr.label tr.meter) :
    Honest t' where
  sent := hsent
  label := hlabel
  resetting := by simp [hcleared]
  reset := by simp [hcleared]
  log := hlog
  transmitted := htransmitted

/-- One of the resets: the results that are marked stay at -1. -/
theorem get_store_neg_one {m : Meter} {cleared : Label → Bool} (l : Label)
    (hm : ∀ k, cleared k = true → m.get k = -1) (k : Label)
    (hk : Function.update cleared l true k = true) : (m.store l (-1)).get k = -1 := by
  by_cases hkl : k = l
  · subst hkl
    rw [Meter.get_store]
    cases k <;> decide
  · rw [Function.update_of_ne hkl] at hk
    rw [Meter.get_store_of_ne _ hkl, hm k hk]

/-- A reset behind which `main` is still between the switch and the last one. -/
theorem Honest.of_reset (h : Honest t) {c : UInt8} (hc : InReset t.mote.main c) (l : Label)
    {main : Statement} (hmain : ∀ d, InReset main d ↔ c = d) :
    Honest { t with
      mote := { t.mote with results := t.mote.results.store l (-1), main := main }
      now := t.now + 1
      cleared := Function.update t.cleared l true } where
  sent := fun p hp => (h.sent p hp).trans (Nat.lt_succ_self _)
  label := fun d hd => (h.label c hc).trans ((hmain d).mp hd)
  resetting := fun _ _ => get_store_neg_one l (h.resetting c hc)
  reset := fun hno => absurd ((hmain c).mpr rfl) (hno c)
  log := h.log
  transmitted := h.transmitted

theorem honest_mainStep (h : Honest t) : Honest t.mainStep := by
  have hsent : ∀ p ∈ t.sentAt, p < t.now + 1 := fun p hp => (h.sent p hp).trans (Nat.lt_succ_self _)
  cases hmain : t.mote.main with
  | uartInit =>
    simp only [mainStep, Mote.mainStep, hmain]
    exact h.of_same (by simp [InReset, hmain]) rfl rfl rfl
  | threadCreate =>
    simp only [mainStep, Mote.mainStep, hmain]
    exact h.of_same (by simp [InReset, hmain]) rfl rfl rfl
  | curPitinfo c =>
    simp only [mainStep, Mote.mainStep, hmain]
    exact honest_of_uncleared hsent (by simp [InReset]) rfl h.log h.transmitted
  | base c =>
    simp only [mainStep, Mote.mainStep, hmain]
    exact h.of_reset (.inl hmain) .base (by simp [InReset])
  | iinst c =>
    simp only [mainStep, Mote.mainStep, hmain]
    exact h.of_reset (.inr (.inl hmain)) .iinst (by simp [InReset])
  | papp c =>
    simp only [mainStep, Mote.mainStep, hmain]
    have hc : InReset t.mote.main c := .inr (.inr hmain)
    refine ⟨hsent, by simp [InReset], by simp [InReset], fun _ l hl => ⟨?_, .inl ?_⟩, h.log,
      h.transmitted⟩
    · exact ⟨t.now, by simp [h.label c hc], Nat.lt_succ_self _⟩
    · exact get_store_neg_one .papp (h.resetting c hc) l hl
  | poweron c =>
    simp only [mainStep, Mote.mainStep, hmain]
    exact h.of_same (by simp [InReset, hmain]) rfl rfl rfl
  | poweroff c =>
    simp only [mainStep, Mote.mainStep, hmain]
    exact h.of_same (by simp [InReset, hmain]) rfl rfl rfl

theorem honest_rx (h : Honest t) (data : UInt8) : Honest (t.step (.rx data)) := by
  rcases t.mote.rxCb_eq data with ⟨-, hcb⟩ | ⟨processor, q, hcb⟩ <;> rw [step, hcb] <;>
    exact h.of_same (fun _ => Iff.rfl) rfl rfl rfl

theorem honest_notified (h : Honest t) : Honest t.notified := by
  by_cases hprocessor : t.mote.processor = .notifying
  · obtain ⟨processor, q, hnot⟩ := Mote.notified_notifying hprocessor
    rw [notified, if_pos hprocessor, hnot]
    exact honest_of_uncleared (fun p hp => (h.sent p hp).trans (Nat.lt_succ_self _)) h.label rfl
      h.log h.transmitted
  · rw [notified, if_neg hprocessor, Mote.notified_of_ne hprocessor]
    exact h.of_same (fun _ => Iff.rfl) rfl rfl rfl

/-- A handled line keeps what is known of the marked results: the line's own value is read, the
others stay. -/
theorem read_stored (h : Honest t) (hno : ∀ c, ¬ InReset t.mote.main c) {l : Label}
    (hl : t.cleared l = true) :
    (∃ r, t.reset t.mote.curPitinfo = some r ∧ r < t.now) ∧
      (t.stored.get l = -1 ∨ ∃ time line, t.readLine l = some (time, line) ∧
        ReadFrom t.stored l line ∧ (∃ r, t.reset t.mote.curPitinfo = some r ∧ r < time) ∧
          ∀ p ∈ t.sentAt, p < time) := by
  obtain ⟨hreset, hread⟩ := h.reset hno l hl
  refine ⟨hreset, ?_⟩
  cases hscan : scanLine (fillBuffer t.mote.rxBuf.data) with
  | none =>
    have hstored : t.stored = t.mote.results := by rw [stored, storeLine, hscan]
    have hline : t.readLine = t.parsed := by rw [readLine, hscan]
    rw [hstored, hline]
    exact hread
  | some kv =>
    obtain ⟨k, v⟩ := kv
    have hstored : t.stored = t.mote.results.store k v := by rw [stored, storeLine, hscan]
    have hline : t.readLine = Function.update t.parsed k (some (t.now, t.mote.rxBuf.data)) := by
      rw [readLine, hscan]
    rw [hstored, hline]
    by_cases hlk : l = k
    · subst hlk
      refine .inr ⟨t.now, t.mote.rxBuf.data, Function.update_self _ _ _, ?_, hreset, h.sent⟩
      exact ⟨v, hscan, Meter.get_store _ _ _⟩
    · rw [Meter.get_store_of_ne _ hlk, Function.update_of_ne hlk]
      refine hread.imp_right ?_
      rintro ⟨time, line, hparsed, ⟨w, hw, hget⟩, hafter⟩
      exact ⟨time, line, hparsed, ⟨w, hw, by rw [Meter.get_store_of_ne _ hlk, hget]⟩, hafter⟩

theorem honest_process (h : Honest t) (hready : t.Ready .process) : Honest t.process := by
  have hsent : ∀ p ∈ t.sentAt, p < t.now + 1 := fun p hp => (h.sent p hp).trans (Nat.lt_succ_self _)
  by_cases hprocessor : t.mote.processor = .handling
  · obtain ⟨hno, hcleared⟩ := hready hprocessor
    cases hdone : complete t.stored with
    | true =>
      have hgenuine : Trace.Genuine ⟨t.mote.curPitinfo, t.stored, t.readLine,
          t.reset t.mote.curPitinfo, t.sentAt⟩ := by
        intro l
        obtain ⟨-, hneg | hread⟩ := read_stored h hno (hcleared hdone l)
        · have := (complete_iff t.stored).mp hdone l
          omega
        · exact hread
      rw [process, if_pos hprocessor, if_pos hdone, Mote.process_complete hprocessor hdone]
      refine honest_of_uncleared ?_ h.label rfl ?_ ?_
      · rintro p hp
        obtain rfl := Option.mem_some_iff.mp hp
        exact Nat.lt_succ_self _
      · intro tr htr
        rcases List.mem_append.mp htr with htr | htr
        · exact h.log tr htr
        · exact List.mem_singleton.mp htr ▸ hgenuine
      · simp only [List.map_append, ← h.transmitted]
        rfl
    | false =>
      obtain ⟨processor, q, hinc⟩ := Mote.process_incomplete hprocessor hdone
      rw [process, if_pos hprocessor, if_neg (by simp [hdone]), hinc]
      refine ⟨hsent, h.label, fun c hc => absurd hc (hno c), fun _ l hl => ?_, h.log, h.transmitted⟩
      obtain ⟨⟨r, hr, hlt⟩, hread⟩ := read_stored h hno hl
      exact ⟨⟨r, hr, hlt.trans (Nat.lt_succ_self _)⟩, hread⟩
  · rw [process, if_neg hprocessor, Mote.process_of_ne hprocessor]
    exact h.of_same (fun _ => Iff.rfl) rfl rfl rfl

end

/-- In every run in which no line is handled during the resets, and none completes the results
before they were set to -1, every report consists of values that were read since. -/
theorem reports_genuine (es : List Mote.Event) (hready : Run.Along step Ready start es) :
    let t := Run.run step start es
    t.mote = Run.run Mote.step .powerUp es ∧
      t.mote.transmitted = t.log.map (fun tr => report tr.label tr.meter) ∧
      ∀ tr ∈ t.log, tr.Genuine := by
  have hhonest : Honest (Run.run step start es) := by
    refine Run.along_invariant (I := Honest) (fun t e h hok => ?_) honest_start hready
    cases e with
    | main => exact honest_mainStep h
    | rx data => exact honest_rx h data
    | process => exact honest_process h hok
    | notified => exact honest_notified h
  exact ⟨Run.map_run step_mote start es, hhonest.transmitted, hhonest.log⟩

/-- Results that are zero count as values: the next line that is handled is followed by a report,
unless it stores a negative value. -/
theorem transmitted_of_zero {n : Mote} (h : n.processor = .handling) (hzero : n.results = ⟨0, 0, 0⟩)
    (hline : ∀ l v, scanLine (fillBuffer n.rxBuf.data) = some (l, v) → 0 ≤ l.narrow v) :
    ∃ m, n.process.transmitted = n.transmitted ++ [report n.curPitinfo m] := by
  have hget : ∀ l, (⟨0, 0, 0⟩ : Meter).get l = 0 := by
    intro l
    cases l <;> rfl
  have hdone : complete (storeLine n.results (fillBuffer n.rxBuf.data)) = true := by
    rw [complete_iff, hzero]
    intro l
    cases hscan : scanLine (fillBuffer n.rxBuf.data) with
    | none =>
      rw [storeLine, hscan]
      exact (hget l).ge
    | some kv =>
      obtain ⟨k, v⟩ := kv
      simp only [storeLine, hscan]
      by_cases hlk : l = k
      · subst hlk
        rw [Meter.get_store]
        exact hline l v hscan
      · rw [Meter.get_store_of_ne _ hlk]
        exact (hget l).ge
  exact ⟨_, by rw [Mote.process_complete h hdone]⟩

/-- Bytes that are received while the thread keeps up. -/
def received (text : List UInt8) : List Mote.Event :=
  text.flatMap fun b => [.rx b, .process, .notified]

/-- The first meter is heard in its window. -/
def meterHeard : List Mote.Event :=
  List.replicate 7 .main ++ received (ascii "BASE 014038982 .\nPAPP 02340 *\nIINST 010 X\n")

theorem reports_genuine_meterHeard :
    let t := Run.run step start meterHeard
    t.mote = Run.run Mote.step .powerUp meterHeard ∧
      t.mote.transmitted = t.log.map (fun tr => report tr.label tr.meter) ∧
      ∀ tr ∈ t.log, tr.Genuine :=
  reports_genuine meterHeard (by decide +kernel)

/-- The same, with a newline that is received before the report is sent. -/
def newlineQueued : List Mote.Event :=
  List.replicate 7 .main ++ received (ascii "BASE 014038982 .\nPAPP 02340 *\nIINST 010 X") ++
    [.rx (byte '\n'), .rx (byte '\n'), .process, .notified, .process, .notified]

/-- Behind the report a second one is sent, of three zeros. -/
theorem report_of_zeros :
    (Run.run Mote.step .powerUp newlineQueued).transmitted =
        [ascii "PAPP1:2340;BASE1:14038982;IINST1:10", ascii "PAPP1:0;BASE1:0;IINST1:0"] ∧
      ∃ tr ∈ (Run.run step start newlineQueued).log, ¬ tr.Genuine := by
  have hstale : (Run.run step start newlineQueued).log.any (fun tr =>
      (tr.parsed .base).any fun x => tr.previous.any fun p => x.1 ≤ p) = true := by
    decide +kernel
  obtain ⟨tr, htr, h⟩ := List.any_eq_true.mp hstale
  refine ⟨by decide +kernel, tr, htr, fun hgenuine => ?_⟩
  obtain ⟨time, line, hparsed, -, -, hprevious⟩ := hgenuine .base
  rw [hparsed, Option.any_some, Option.any_eq_true] at h
  obtain ⟨p, hp, hle⟩ := h
  exact absurd (hprevious p hp) (not_lt.mpr (of_decide_eq_true hle))

end Traced
end OflMotes.Node.MoteTeleinfo
