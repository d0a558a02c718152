import Mathlib.Data.List.Infix
import OflMotes.Node.Teleinfo

/-! Whether a report mixes two meters. The machine is run together with a record of when each byte
was received and from which bytes each value was read; the record does not act on the machine. -/
namespace OflMotes.Node
open Ascii

namespace Teleinfo

/-- Received bytes with their times. -/
abbrev Stamped := List (UInt8 × ℕ)

/-- The record of a report: its label, when that meter had been enabled last, the values, and the
lines that they were read from. -/
structure Trace where
  label : UInt8
  enabled : ℕ
  meter : Meter
  lines : Label → Option Stamped

/-- The machine with its record: the number of events so far, the stamped ring buffer, when each
meter was enabled last, and for each done bit the line that set it. -/
structure Traced where
  node : Teleinfo
  now : ℕ
  rxBuf : Ring (UInt8 × ℕ) uartBufsize
  enabled : UInt8 → ℕ
  lines : Label → Option Stamped
  log : List Trace

def Traced.init : Traced := ⟨.init, 1, .empty, fun _ => 0, fun _ => none, []⟩

/-- The lines behind the done bits once the buffered line was read. -/
def Traced.readLine (t : Traced) : Label → Option Stamped :=
  match scanLine (fillBuffer t.node.rxBuf.data) with
  | some (l, _) => Function.update t.lines l (some t.rxBuf.data)
  | none => t.lines

/-- The results once the buffered line was stored. -/
def Traced.stored (t : Traced) : Results := storeLine t.node.results (fillBuffer t.node.rxBuf.data)

def Traced.step (t : Traced) (e : Event) : Traced :=
  let t' := { t with node := t.node.step e, now := t.now + 1 }
  match e with
  | .enableRx c => { t' with enabled := Function.update t.enabled c t.now }
  | .disableRx => t'
  | .rx data =>
    let b := data &&& 0x7F
    if t.node.rxTeleinfo ≠ 0 ∧ b ≠ byte '\n' ∧ byte ' ' ≤ b then
      { t' with rxBuf := t.rxBuf.addOne (b, t.now) }
    else t'
  | .run =>
    if t.node.thread = .handling then
      if t.stored.state = allDone then
        { t' with
          rxBuf := .empty
          lines := fun _ => none
          log := t.log ++ [⟨t.node.rxTeleinfo, t.enabled t.node.rxTeleinfo, t.stored.toMeter,
            t.readLine⟩] }
      else { t' with rxBuf := .empty, lines := t.readLine }
    else t'

theorem Traced.step_node (t : Traced) (e : Event) : (t.step e).node = t.node.step e := by
  unfold Traced.step
  cases e with
  | enableRx c => rfl
  | disableRx => rfl
  | rx data => simp only; split_ifs <;> rfl
  | run => simp only; split_ifs <;> rfl

/-- The record does not act on the machine. -/
theorem Traced.run_node (t : Traced) (es : List Event) :
    (Run.run Traced.step t es).node = Run.run Teleinfo.step t.node es :=
  Run.map_run Traced.step_node t es

section
variable {t : Traced}

theorem Traced.step_rx_stored {data : UInt8} (h : t.node.rxTeleinfo ≠ 0 ∧
    data &&& 0x7F ≠ byte '\n' ∧ byte ' ' ≤ data &&& 0x7F) :
    t.step (.rx data) = { t with
      node := { t.node with rxBuf := t.node.rxBuf.addOne (data &&& 0x7F) }
      now := t.now + 1
      rxBuf := t.rxBuf.addOne (data &&& 0x7F, t.now) } := by
  simp only [Traced.step, Teleinfo.step, if_pos h, rxCb_printable h.1 h.2.1 h.2.2]

theorem Traced.step_rx_other {data : UInt8} (h : ¬ (t.node.rxTeleinfo ≠ 0 ∧
    data &&& 0x7F ≠ byte '\n' ∧ byte ' ' ≤ data &&& 0x7F)) :
    ∃ thread q, t.step (.rx data) = { t with
      node := { t.node with thread := thread, msgQueue := q }, now := t.now + 1 } := by
  obtain ⟨thread, q, hcb⟩ := rxCb_of_not_stored h
  refine ⟨thread, q, ?_⟩
  simp only [Traced.step, Teleinfo.step, if_neg h, hcb]

theorem Traced.step_run_idle (h : t.node.thread ≠ .handling) :
    t.step .run = { t with now := t.now + 1 } := by
  simp only [Traced.step, Teleinfo.step, if_neg h, run_of_ne h]

theorem Traced.step_run_report (h : t.node.thread = .handling) (hdone : t.stored.state = allDone) :
    t.step .run = { t with
      node := { t.node with
        rxTeleinfo := 0
        rxBuf := .empty
        results := ⟨⟨0, 0, 0⟩, 0⟩
        thread := .sleeping
        outbox := t.node.outbox ++ [report t.node.rxTeleinfo t.stored.toMeter] }
      now := t.now + 1
      rxBuf := .empty
      lines := fun _ => none
      log := t.log ++ [⟨t.node.rxTeleinfo, t.enabled t.node.rxTeleinfo, t.stored.toMeter,
        t.readLine⟩] } := by
  simp only [Traced.step, Teleinfo.step, if_pos h, if_pos hdone, run_complete h hdone]
  rfl

theorem Traced.step_run_quiet (h : t.node.thread = .handling) (hdone : t.stored.state ≠ allDone) :
    t.step .run = { t with
      node := msgReceive { t.node with rxBuf := .empty, results := t.stored }
      now := t.now + 1
      rxBuf := .empty
      lines := t.readLine } := by
  simp only [Traced.step, Teleinfo.step, if_pos h, if_neg hdone, run_incomplete h hdone]
  rfl

end

/-- The label's value was read from the line. -/
def ReadFrom (m : Meter) (l : Label) (line : Stamped) : Prop :=
  ∃ v, scanLine (fillBuffer (line.map Prod.fst)) = some (l, v) ∧ m.get l = l.narrow v

/-- The bits of the labels that have a line. -/
def lineBits (lines : Label → Option Stamped) : UInt8 :=
  doneBits (lines .base).isSome (lines .papp).isSome (lines .iinst).isSome

theorem lineBits_update (lines : Label → Option Stamped) (l : Label) (line : Stamped) :
    lineBits (Function.update lines l (some line)) = lineBits lines ||| l.done := by
  have hbits := doneBits_or (lines .base).isSome (lines .papp).isSome (lines .iinst).isSome
  cases l with
  | base => exact hbits.1.symm
  | papp => exact hbits.2.1.symm
  | iinst => exact hbits.2.2.symm

theorem lines_eq_none {lines : Label → Option Stamped} (h : lineBits lines = 0) (l : Label) :
    lines l = none := by
  have hbits := (doneBits_eq_zero _ _ _).mp h
  cases l with
  | base => simpa using hbits.1
  | papp => simpa using hbits.2.1
  | iinst => simpa using hbits.2.2

theorem exists_line {lines : Label → Option Stamped} (h : lineBits lines = allDone) (l : Label) :
    ∃ line, lines l = some line := by
  obtain ⟨hb, hp, hi⟩ := (doneBits_eq_allDone _ _ _).mp h
  cases l with
  | base => exact Option.isSome_iff_exists.mp hb
  | papp => exact Option.isSome_iff_exists.mp hp
  | iinst => exact Option.isSome_iff_exists.mp hi

/-- The record tells what happened: the stamped bytes are those in the ring buffer, there is a line
for each done bit, from which the value was read, and a trace for each report. -/
structure Coherent (t : Traced) : Prop where
  rxBuf : t.rxBuf.data.map Prod.fst = t.node.rxBuf.data
  state : t.node.results.state = lineBits t.lines
  values : ∀ l line, t.lines l = some line → ReadFrom t.node.results.toMeter l line
  outbox : t.node.outbox = t.log.map fun tr => report tr.label tr.meter
  log : ∀ tr ∈ t.log, ∀ l, ∃ line, tr.lines l = some line ∧ ReadFrom tr.meter l line

theorem coherent_init : Coherent .init :=
  ⟨rfl, rfl, by simp [Traced.init], rfl, by simp [Traced.init]⟩

section
variable {t : Traced}

theorem Traced.readLine_of_none (h : scanLine (fillBuffer t.node.rxBuf.data) = none) :
    t.readLine = t.lines := by
  rw [readLine, h]

theorem Traced.readLine_of_some {l : Label} {v : ℤ}
    (h : scanLine (fillBuffer t.node.rxBuf.data) = some (l, v)) :
    t.readLine = Function.update t.lines l (some t.rxBuf.data) := by
  rw [readLine, h]

/-- A line kept after reading the buffer is the buffered one, or was kept before. -/
theorem Traced.readLine_eq_some {l : Label} {line : Stamped} (h : t.readLine l = some line) :
    (line = t.rxBuf.data ∧ ∃ v, scanLine (fillBuffer t.node.rxBuf.data) = some (l, v)) ∨
      t.lines l = some line := by
  cases hscan : scanLine (fillBuffer t.node.rxBuf.data) with
  | none =>
    rw [readLine_of_none hscan] at h
    exact .inr h
  | some kv =>
    obtain ⟨k, v⟩ := kv
    rw [readLine_of_some hscan] at h
    by_cases hlk : l = k
    · subst hlk
      rw [Function.update_self, Option.some.injEq] at h
      exact .inl ⟨h.symm, v, rfl⟩
    · rw [Function.update_of_ne hlk] at h
      exact .inr h

/-- Reading the buffered line keeps values and lines together. -/
theorem readFrom_readLine (h : Coherent t) :
    t.stored.state = lineBits t.readLine ∧
      ∀ l line, t.readLine l = some line → ReadFrom t.stored.toMeter l line := by
  cases hscan : scanLine (fillBuffer t.node.rxBuf.data) with
  | none =>
    have hstored : t.stored = t.node.results := by rw [Traced.stored, storeLine, hscan]
    rw [hstored, Traced.readLine_of_none hscan]
    exact ⟨h.state, h.values⟩
  | some kv =>
    obtain ⟨k, v⟩ := kv
    have hstored : t.stored =
        { toMeter := t.node.results.toMeter.store k v, state := t.node.results.state ||| k.done } := by
      rw [Traced.stored, storeLine, hscan]
    rw [hstored]
    refine ⟨by rw [Traced.readLine_of_some hscan, lineBits_update, h.state], fun l line hline => ?_⟩
    by_cases hlk : l = k
    · subst hlk
      rw [Traced.readLine_of_some hscan, Function.update_self, Option.some.injEq] at hline
      exact ⟨v, by rw [← hline, h.rxBuf, hscan], Meter.get_store _ _ _⟩
    · rw [Traced.readLine_of_some hscan, Function.update_of_ne hlk] at hline
      obtain ⟨w, hw, hget⟩ := h.values l line hline
      exact ⟨w, hw, by rw [Meter.get_store_of_ne _ hlk, hget]⟩

theorem coherent_step (h : Coherent t) (e : Event) : Coherent (t.step e) := by
  cases e with
  | enableRx c =>
    exact ⟨by simpa [Traced.step, Teleinfo.step] using h.rxBuf,
      by simpa [Traced.step, Teleinfo.step] using h.state,
      by simpa [Traced.step, Teleinfo.step] using h.values,
      by simpa [Traced.step, Teleinfo.step] using h.outbox, h.log⟩
  | disableRx => exact ⟨h.rxBuf, h.state, h.values, h.outbox, h.log⟩
  | rx data =>
    by_cases hstored : t.node.rxTeleinfo ≠ 0 ∧ data &&& 0x7F ≠ byte '\n' ∧
        byte ' ' ≤ data &&& 0x7F
    · rw [Traced.step_rx_stored hstored]
      exact ⟨Ring.addOne_map h.rxBuf _, h.state, h.values, h.outbox, h.log⟩
    · obtain ⟨thread, q, hstep⟩ := Traced.step_rx_other hstored
      rw [hstep]
      exact ⟨h.rxBuf, h.state, h.values, h.outbox, h.log⟩
  | run =>
    obtain ⟨hbits, hvalues⟩ := readFrom_readLine h
    by_cases hthread : t.node.thread = .handling
    · by_cases hdone : t.stored.state = allDone
      · rw [Traced.step_run_report hthread hdone]
        have hnone : (0 : UInt8) = lineBits fun _ => none := by decide
        refine ⟨rfl, hnone, by simp, by simp [h.outbox], fun tr htr l => ?_⟩
        rcases List.mem_append.mp htr with htr | htr
        · exact h.log tr htr l
        · obtain rfl := List.mem_singleton.mp htr
          obtain ⟨line, hline⟩ := exists_line (hbits.symm.trans hdone) l
          exact ⟨line, hline, hvalues l line hline⟩
      · rw [Traced.step_run_quiet hthread hdone]
        exact ⟨by simp, by simpa using hbits, by simpa using hvalues, by simpa using h.outbox, h.log⟩
    · rw [Traced.step_run_idle hthread]
      exact ⟨h.rxBuf, h.state, h.values, h.outbox, h.log⟩

end

theorem coherent_run {t : Traced} (h : Coherent t) (es : List Event) :
    Coherent (Run.run Traced.step t es) :=
  Run.run_invariant (I := Coherent) (fun _ e ht => coherent_step ht e) h es

/-- The text cannot become part of a line that is kept: it holds no label, and it does not end
inside one. -/
def Inert (text : List UInt8) : Prop :=
  ∀ l : Label, ¬ l.text <:+: text ∧ ∀ p, p ≠ [] → p <+: l.text → ¬ p <:+ text

/-- Nothing of the meter listened to before can get into a report: no value is kept, and nothing
in the ring buffer can become part of a line. -/
def Clean (n : Teleinfo) : Prop := n.results.state = 0 ∧ Inert n.rxBuf.data

/-- The condition that a run meets if all its switches to a meter are clean. -/
def SwitchesClean (n : Teleinfo) : Event → Prop
  | .enableRx _ => Clean n
  | _ => True

/-- Only the beginnings of the three labels matter. -/
theorem inert_iff (text : List UInt8) : Inert text ↔
    ∀ l ∈ [Label.base, .papp, .iinst], ¬ l.text <:+: text ∧
      ∀ p ∈ l.text.inits, p ≠ [] → ¬ p <:+ text := by
  rw [Inert, Label.forall_iff]
  simp only [List.forall_mem_cons, List.not_mem_nil, false_implies, implies_true, and_true,
    List.mem_inits]
  have hswap (l : Label) : (∀ p, p ≠ [] → p <+: l.text → ¬ p <:+ text) ↔
      ∀ p, p <+: l.text → p ≠ [] → ¬ p <:+ text :=
    forall_congr' fun p => ⟨fun h hp hne => h hne hp, fun h hne hp => h hp hne⟩
  rw [hswap .base, hswap .papp, hswap .iinst]

instance (text : List UInt8) : Decidable (Inert text) := decidable_of_iff' _ (inert_iff text)

instance (n : Teleinfo) : Decidable (Clean n) := inferInstanceAs (Decidable (_ ∧ _))

instance (n : Teleinfo) : (e : Event) → Decidable (SwitchesClean n e)
  | .enableRx _ => inferInstanceAs (Decidable (Clean n))
  | .disableRx => isTrue trivial
  | .rx _ => isTrue trivial
  | .run => isTrue trivial

theorem Inert.suffix {s t : List UInt8} (h : Inert s) (ht : t <:+ s) : Inert t := fun l =>
  ⟨fun hl => (h l).1 (hl.trans ht.isInfix), fun p hp hpl hpt => (h l).2 p hp hpl (hpt.trans ht)⟩

theorem inert_nil : Inert [] := by
  intro l
  refine ⟨fun h => ?_, fun p hp _ h => hp (List.suffix_nil.mp h)⟩
  have := List.infix_nil.mp h
  cases l <;> contradiction

/-- A line that begins with inert text is not kept, whatever follows. -/
theorem Inert.scanLine_append {t : List UInt8} (h : Inert t) (hne : t ≠ []) (x : List UInt8) :
    scanLine (fillBuffer (t ++ x)) = none := by
  cases hscan : scanLine (fillBuffer (t ++ x)) with
  | none => rfl
  | some lv =>
    obtain ⟨l, v⟩ := lv
    have htext := (Label.accepts_iff.mp (accepts_of_scanLine hscan).1).1
    have hprefix : t <+: fillBuffer (t ++ x) := by
      rw [fillBuffer, List.append_assoc]
      exact List.prefix_append _ _
    rcases List.prefix_or_prefix_of_prefix htext hprefix with hl | hl
    · exact absurd hl.isInfix (h l).1
    · exact absurd List.suffix_rfl ((h l).2 t hne hl)

/-- Since the last switch at time `e` only bytes of the selected meter were received and only lines
of them were kept: what is older in the ring buffer is inert. -/
structure Fresh (t : Traced) (e : ℕ) : Prop where
  before : e < t.now
  selected : t.node.rxTeleinfo ≠ 0 → t.enabled t.node.rxTeleinfo = e
  rxBuf : ∃ old new, t.rxBuf.data = old ++ new ∧ Inert (old.map Prod.fst) ∧ ∀ x ∈ new, e < x.2
  lines : ∀ l line, t.lines l = some line → ∀ x ∈ line, e < x.2
  log : ∀ tr ∈ t.log, tr.label ≠ 0 → ∀ l line, tr.lines l = some line → ∀ x ∈ line, tr.enabled < x.2

theorem fresh_init : Fresh .init 0 :=
  ⟨Nat.one_pos, fun h => absurd rfl h, ⟨[], [], rfl, inert_nil, by simp⟩, by simp [Traced.init],
    by simp [Traced.init]⟩

section
variable {t : Traced} {e : ℕ}

theorem fresh_enableRx (ht : Coherent t) (h : Fresh t e) (hclean : Clean t.node) (c : UInt8) :
    Fresh (t.step (.enableRx c)) t.now := by
  refine ⟨Nat.lt_succ_self _, fun _ => ?_, ⟨t.rxBuf.data, [], ?_, ?_, by simp⟩, ?_, h.log⟩
  · simp [Traced.step, Teleinfo.step]
  · simp [Traced.step]
  · rw [ht.rxBuf]
    exact hclean.2
  · intro l line hline
    rw [show (t.step (.enableRx c)).lines = t.lines from rfl,
      lines_eq_none (ht.state.symm.trans hclean.1)] at hline
    contradiction

/-- A received byte lengthens the new part of the ring buffer, and may push out old bytes. -/
theorem fresh_rx_stored (h : Fresh t e) {data : UInt8} (hstored : t.node.rxTeleinfo ≠ 0 ∧
    data &&& 0x7F ≠ byte '\n' ∧ byte ' ' ≤ data &&& 0x7F) :
    Fresh (t.step (.rx data)) e := by
  rw [Traced.step_rx_stored hstored]
  obtain ⟨old, new, hdata, hinert, hnew⟩ := h.rxBuf
  refine ⟨h.before.trans (Nat.lt_succ_self _), h.selected, ?_, h.lines, h.log⟩
  have hsuffix := List.suffix_iff_eq_drop.mp (Ring.addOne_suffix t.rxBuf (data &&& 0x7F, t.now))
  rw [hdata, List.append_assoc, List.drop_append] at hsuffix
  refine ⟨_, _, hsuffix, ?_, fun x hx => ?_⟩
  · apply hinert.suffix
    rw [List.map_drop]
    exact List.drop_suffix _ _
  · rcases List.mem_append.mp (List.mem_of_mem_drop hx) with hx | hx
    · exact hnew x hx
    · obtain rfl := List.mem_singleton.mp hx
      exact h.before

/-- The lines kept after reading the buffer consist of new bytes. -/
theorem fresh_readLine (ht : Coherent t) (h : Fresh t e) {l : Label} {line : Stamped}
    (hline : t.readLine l = some line) : ∀ x ∈ line, e < x.2 := by
  obtain ⟨old, new, hdata, hinert, hnew⟩ := h.rxBuf
  rcases Traced.readLine_eq_some hline with ⟨rfl, v, hscan⟩ | hkept
  · have hold : old = [] := by
      by_contra hne
      have := hinert.scanLine_append (by simpa using hne) (new.map Prod.fst)
      rw [← List.map_append, ← hdata, ht.rxBuf, hscan] at this
      contradiction
    rw [hdata, hold]
    exact hnew
  · exact h.lines l line hkept

theorem fresh_run (ht : Coherent t) (h : Fresh t e) : Fresh (t.step .run) e := by
  have hbefore : e < t.now + 1 := h.before.trans (Nat.lt_succ_self _)
  by_cases hthread : t.node.thread = .handling
  · by_cases hdone : t.stored.state = allDone
    · rw [Traced.step_run_report hthread hdone]
      refine ⟨hbefore, fun hrx => absurd rfl hrx, ⟨[], [], rfl, inert_nil, by simp⟩, by simp, ?_⟩
      intro tr htr hlabel l line hline
      rcases List.mem_append.mp htr with htr | htr
      · exact h.log tr htr hlabel l line hline
      · obtain rfl := List.mem_singleton.mp htr
        simp only at hlabel hline ⊢
        rw [h.selected hlabel]
        exact fresh_readLine ht h hline
    · rw [Traced.step_run_quiet hthread hdone]
      exact ⟨hbefore, by simpa using h.selected, ⟨[], [], rfl, inert_nil, by simp⟩,
        fun l line hline => fresh_readLine ht h hline, h.log⟩
  · rw [Traced.step_run_idle hthread]
    exact ⟨hbefore, h.selected, h.rxBuf, h.lines, h.log⟩

/-- Every step keeps the record fresh, if the switches are clean. -/
theorem fresh_step (ht : Coherent t) (h : Fresh t e) (ev : Event)
    (hclean : SwitchesClean t.node ev) : ∃ e', Fresh (t.step ev) e' := by
  cases ev with
  | enableRx c => exact ⟨_, fresh_enableRx ht h hclean c⟩
  | disableRx =>
    exact ⟨e, h.before.trans (Nat.lt_succ_self _), fun hrx => absurd rfl hrx, h.rxBuf, h.lines, h.log⟩
  | rx data =>
    by_cases hstored : t.node.rxTeleinfo ≠ 0 ∧ data &&& 0x7F ≠ byte '\n' ∧
        byte ' ' ≤ data &&& 0x7F
    · exact ⟨e, fresh_rx_stored h hstored⟩
    · obtain ⟨thread, q, hstep⟩ := Traced.step_rx_other hstored
      rw [hstep]
      exact ⟨e, h.before.trans (Nat.lt_succ_self _), h.selected, h.rxBuf, h.lines, h.log⟩
  | run => exact ⟨e, fresh_run ht h⟩

end

/-- All values of the report were read from lines of bytes received since its meter was enabled
last. -/
def Trace.Unmixed (tr : Trace) : Prop :=
  ∀ l, ∃ line, tr.lines l = some line ∧ ReadFrom tr.meter l line ∧ ∀ x ∈ line, tr.enabled < x.2

/-- In every run in which all switches to a meter are clean, no report mixes two meters. -/
theorem reports_unmixed (es : List Event)
    (hclean : Run.Along Teleinfo.step SwitchesClean .init es) :
    let t := Run.run Traced.step .init es
    t.node = Run.run Teleinfo.step .init es ∧
      t.node.outbox = t.log.map (fun tr => report tr.label tr.meter) ∧
      ∀ tr ∈ t.log, tr.label ≠ 0 → tr.Unmixed := by
  have hboth : Coherent (Run.run Traced.step .init es) ∧
      ∃ e, Fresh (Run.run Traced.step .init es) e := by
    refine Run.along_invariant (I := fun t => Coherent t ∧ ∃ e, Fresh t e) ?_
      ⟨coherent_init, 0, fresh_init⟩ (Run.along_map Traced.step_node hclean)
    rintro t ev ⟨ht, e, h⟩ hok
    exact ⟨coherent_step ht ev, fresh_step ht h ev hok⟩
  obtain ⟨hcoherent, e, hfresh⟩ := hboth
  refine ⟨Traced.run_node _ _, hcoherent.outbox, fun tr htr hlabel l => ?_⟩
  obtain ⟨line, hline, hread⟩ := hcoherent.log tr htr l
  exact ⟨line, hline, hread, hfresh.log tr htr hlabel l line hline⟩

/-- The events of a text that is received while the thread keeps up. -/
def received (text : List UInt8) : List Event := text.flatMap fun b => [.rx b, .run]

/-- A report of each meter, with a cut-off line in front of the second. -/
def bothHeard : List Event :=
  .enableRx 1 :: received (ascii "IINST 010 X\nBASE 014038982 .\nPAPP 02340 *\n") ++
    .disableRx :: .enableRx 2 ::
      received (ascii "340 *\nIINST 007 X\nBASE 000001234 .\nPAPP 00120 *\n")

theorem reports_unmixed_bothHeard :
    let t := Run.run Traced.step .init bothHeard
    t.node = Run.run Teleinfo.step .init bothHeard ∧
      t.node.outbox = t.log.map (fun tr => report tr.label tr.meter) ∧
      ∀ tr ∈ t.log, tr.label ≠ 0 → tr.Unmixed :=
  reports_unmixed bothHeard (by decide +kernel)

/-- The first meter is only heard long enough for its index. -/
def indexHeard : List Event :=
  .enableRx 1 :: received (ascii "BASE 014038982 .\n") ++
    .disableRx :: .enableRx 2 :: received (ascii "PAPP 02340 *\nIINST 010 X\n")

/-- The second meter's report carries the index of the first. -/
theorem index_of_the_other_meter :
    (Run.run Teleinfo.step .init indexHeard).outbox =
        [ascii "PAPP2:2340;BASE2:14038982;IINST2:10;"] ∧
      ∃ tr ∈ (Run.run Traced.step .init indexHeard).log, tr.label = 2 ∧ ¬ tr.Unmixed := by
  have hstale : (Run.run Traced.step .init indexHeard).log.any (fun tr => tr.label = 2 &&
      (tr.lines .base).any fun line => line.any fun x => x.2 ≤ tr.enabled) = true := by
    decide +kernel
  obtain ⟨tr, htr, h⟩ := List.any_eq_true.mp hstale
  rw [Bool.and_eq_true, decide_eq_true_iff] at h
  refine ⟨by decide +kernel, tr, htr, h.1, fun hunmixed => ?_⟩
  obtain ⟨line, hline, -, hfresh⟩ := hunmixed .base
  rw [hline, Option.any_some, List.any_eq_true] at h
  obtain ⟨-, x, hx, hle⟩ := h
  exact absurd (hfresh x hx) (not_lt.mpr (of_decide_eq_true hle))

end Teleinfo
end OflMotes.Node
