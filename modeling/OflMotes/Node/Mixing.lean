import OflMotes.Node.Provenance

/-! The condition of clean switches is exact: behind any other switch the meter can send bytes that
make the thread report values of both meters as one. -/
namespace OflMotes.Node.Teleinfo
open Ascii

/-- What holds between two steps of any run: the record lies in the past, the buffer holds printable
characters, the results are not complete, and the thread waits only if no message does. -/
structure Settled (t : Traced) : Prop where
  rxBuf : ∀ x ∈ t.rxBuf.data, x.2 < t.now ∧ byte ' ' ≤ x.1
  lines : ∀ l line, t.lines l = some line → ∀ x ∈ line, x.2 < t.now
  unfinished : t.node.results.state ≠ allDone
  waits : t.node.thread = .receiving → t.node.msgQueue = 0

theorem settled_init : Settled .init :=
  ⟨by simp [Traced.init], by simp [Traced.init], by decide, fun _ => rfl⟩

theorem msgReceive_waits (n : Teleinfo) :
    n.msgReceive.thread = .receiving → n.msgReceive.msgQueue = 0 := by
  unfold msgReceive
  split
  · next h => exact fun _ => h
  · intro h
    contradiction

theorem msgSend_waits (n : Teleinfo) (h : n.thread = .receiving → n.msgQueue = 0) :
    n.msgSend.thread = .receiving → n.msgSend.msgQueue = 0 := by
  unfold msgSend
  split
  · simp
  · split_ifs
    · next hne _ => exact fun hr => absurd hr hne
    · exact h

theorem rxCb_waits (n : Teleinfo) (h : n.thread = .receiving → n.msgQueue = 0) (data : UInt8) :
    (n.rxCb data).thread = .receiving → (n.rxCb data).msgQueue = 0 := by
  by_cases hrx : n.rxTeleinfo = 0
  · rw [rxCb_of_disabled hrx]
    exact h
  by_cases hn : data &&& 0x7F = byte '\n'
  · rw [rxCb_newline hrx hn]
    exact n.msgSend_waits h
  by_cases hb : byte ' ' ≤ data &&& 0x7F
  · rw [rxCb_printable hrx hn hb]
    exact h
  · rw [rxCb_control hn hb]
    exact h

section
variable {t : Traced}

theorem settled_step (h : Settled t) (e : Event) : Settled (t.step e) := by
  have hring : ∀ x ∈ t.rxBuf.data, x.2 < t.now + 1 ∧ byte ' ' ≤ x.1 := fun x hx =>
    ⟨(h.rxBuf x hx).1.trans (Nat.lt_succ_self _), (h.rxBuf x hx).2⟩
  have hlines : ∀ l line, t.lines l = some line → ∀ x ∈ line, x.2 < t.now + 1 :=
    fun l line hl x hx => (h.lines l line hl x hx).trans (Nat.lt_succ_self _)
  have hread : ∀ l line, t.readLine l = some line → ∀ x ∈ line, x.2 < t.now + 1 := by
    intro l line hline x hx
    rcases Traced.readLine_eq_some hline with ⟨rfl, -⟩ | hkept
    · exact (hring x hx).1
    · exact hlines l line hkept x hx
  cases e with
  | enableRx c =>
    refine ⟨hring, hlines, by simpa [Traced.step, Teleinfo.step] using h.unfinished, ?_⟩
    change (t.node.enableRx c).thread = .receiving → (t.node.enableRx c).msgQueue = 0
    obtain ⟨p₁, p₂, heq⟩ := t.node.enableRx_eq c
    rw [heq]
    split_ifs
    · exact msgReceive_waits _
    · exact h.waits
  | disableRx => exact ⟨hring, hlines, h.unfinished, h.waits⟩
  | rx data =>
    by_cases hstored : t.node.rxTeleinfo ≠ 0 ∧ data &&& 0x7F ≠ byte '\n' ∧ byte ' ' ≤ data &&& 0x7F
    · rw [Traced.step_rx_stored hstored]
      refine ⟨fun x hx => ?_, hlines, h.unfinished, h.waits⟩
      rcases List.mem_append.mp ((Ring.addOne_suffix _ _).subset hx) with hx | hx
      · exact hring x hx
      · obtain rfl := List.mem_singleton.mp hx
        exact ⟨Nat.lt_succ_self _, hstored.2.2⟩
    · have hwaits := rxCb_waits t.node h.waits data
      obtain ⟨thread, q, hstep⟩ := Traced.step_rx_other hstored
      have hnode := t.step_node (.rx data)
      rw [Teleinfo.step] at hnode
      rw [← hnode, hstep] at hwaits
      rw [hstep]
      exact ⟨hring, hlines, h.unfinished, hwaits⟩
  | run =>
    by_cases hthread : t.node.thread = .handling
    · by_cases hdone : t.stored.state = allDone
      · rw [Traced.step_run_report hthread hdone]
        exact ⟨by simp, by simp, by simp [allDone]; decide, by simp⟩
      · rw [Traced.step_run_quiet hthread hdone]
        exact ⟨by simp, hread, by simpa using hdone, msgReceive_waits _⟩
    · rw [Traced.step_run_idle hthread]
      exact ⟨hring, hlines, h.unfinished, h.waits⟩

theorem settled_run (h : Settled t) (es : List Event) : Settled (Run.run Traced.step t es) :=
  Run.run_invariant (I := Settled) (fun _ e ht => settled_step ht e) h es

/-- Printable characters of seven bits, as the meter sends them. -/
def Printable (text : List UInt8) : Prop := ∀ b ∈ text, b &&& 0x7F = b ∧ byte ' ' ≤ b

theorem ne_newline_of_printable {b : UInt8} (h : byte ' ' ≤ b) : b ≠ byte '\n' := by
  rintro rfl
  exact absurd h (by decide)

/-- Text goes into the ring buffers, whatever the thread does. -/
theorem run_rx_text (hrx : t.node.rxTeleinfo ≠ 0) {text : List UInt8} (h : Printable text) :
    Run.run Traced.step t (text.map .rx) = { t with
      node := { t.node with rxBuf := text.foldl Ring.addOne t.node.rxBuf }
      now := t.now + text.length
      rxBuf := (text.zipIdx t.now).foldl Ring.addOne t.rxBuf } := by
  induction text generalizing t with
  | nil => rfl
  | cons b text ih =>
    obtain ⟨hb, hspace⟩ := h b (by simp)
    have hstored : t.node.rxTeleinfo ≠ 0 ∧ b &&& 0x7F ≠ byte '\n' ∧ byte ' ' ≤ b &&& 0x7F := by
      rw [hb]
      exact ⟨hrx, ne_newline_of_printable hspace, hspace⟩
    rw [List.map_cons, Run.run_cons, Traced.step_rx_stored hstored,
      ih (by exact hrx) fun a ha => h a (by simp [ha])]
    simp only [hb, List.zipIdx_cons, List.foldl_cons, List.length_cons, Nat.add_assoc,
      Nat.add_comm 1]

/-- A newline makes a thread that is awake handle a message. -/
theorem step_newline (hrx : t.node.rxTeleinfo ≠ 0) (hawake : t.node.thread ≠ .sleeping) :
    ∃ q, t.step (.rx (byte '\n')) = { t with
      node := { t.node with thread := .handling, msgQueue := q }, now := t.now + 1 } := by
  have hother : ¬ (t.node.rxTeleinfo ≠ 0 ∧ byte '\n' &&& 0x7F ≠ byte '\n' ∧
      byte ' ' ≤ byte '\n' &&& 0x7F) := fun h => h.2.1 (by decide)
  have hcb : ∃ q, t.node.rxCb (byte '\n') = { t.node with thread := .handling, msgQueue := q } := by
    rw [rxCb_newline hrx (by decide), msgSend]
    cases hthread : t.node.thread with
    | receiving => exact ⟨t.node.msgQueue, rfl⟩
    | handling =>
      simp only
      split_ifs
      · exact ⟨_, by rw [← hthread]⟩
      · exact ⟨t.node.msgQueue, by rw [← hthread]⟩
    | sleeping => exact absurd hthread hawake
  obtain ⟨q, hq⟩ := hcb
  exact ⟨q, by simp only [Traced.step, Teleinfo.step, if_neg hother, hq]⟩

/-- A report of meter `c` was sent that mixes two meters. -/
def Mixed (t : Traced) (c : UInt8) : Prop := ∃ tr ∈ t.log, tr.label = c ∧ ¬ tr.Unmixed

/-- No meter is switched to. -/
def NoSwitch (es : List Event) : Prop := ∀ e ∈ es, ∀ c, e ≠ .enableRx c

/-- Some events bring the machine into a state of the given kind, without another switch. -/
def Reaches (t : Traced) (P : Traced → Prop) : Prop :=
  ∃ es, NoSwitch es ∧ P (Run.run Traced.step t es)

theorem Reaches.here {P : Traced → Prop} (h : P t) : Reaches t P := ⟨[], by simp [NoSwitch], h⟩

theorem Reaches.after {P : Traced → Prop} {es : List Event} (hes : NoSwitch es)
    (h : Reaches (Run.run Traced.step t es) P) : Reaches t P := by
  obtain ⟨fs, hfs, hp⟩ := h
  refine ⟨es ++ fs, fun e he => ?_, by rwa [Run.run_append]⟩
  rcases List.mem_append.mp he with he | he
  · exact hes e he
  · exact hfs e he

theorem Reaches.bind {P Q : Traced → Prop} (h : Reaches t P) (hpq : ∀ t', P t' → Reaches t' Q) :
    Reaches t Q := by
  obtain ⟨es, hes, hp⟩ := h
  exact .after hes (hpq _ hp)

theorem noSwitch_run : NoSwitch [.run] := by simp [NoSwitch]

theorem noSwitch_rx (text : List UInt8) : NoSwitch (text.map .rx) := by simp [NoSwitch]

/-- Meter `c` is selected and the thread awake, and the value of label `l` stems from a line begun
before the meter was. -/
structure Tainted (t : Traced) (c : UInt8) (l : Label) : Prop where
  coherent : Coherent t
  settled : Settled t
  selected : t.node.rxTeleinfo = c
  awake : t.node.thread ≠ .sleeping
  stale : ∃ line, t.lines l = some line ∧ ∃ x ∈ line, x.2 ≤ t.enabled c

/-- The thread waits for the next line. -/
structure Ready (t : Traced) (c : UInt8) (l : Label) : Prop extends Tainted t c l where
  thread : t.node.thread = .receiving
  rxBuf : t.node.rxBuf.data = []

theorem scanLine_nil : scanLine (fillBuffer []) = none := by decide

variable {c : UInt8} {l : Label}

/-- A round that keeps a stale line sends a mixed report, or leaves the stale line. -/
theorem run_tainted (ht : Coherent t) (hs : Settled t) (hc : t.node.rxTeleinfo = c)
    (hthread : t.node.thread = .handling)
    (hstale : ∃ line, t.readLine l = some line ∧ ∃ x ∈ line, x.2 ≤ t.enabled c) :
    Mixed (t.step .run) c ∨ (Tainted (t.step .run) c l ∧ (t.step .run).node.rxBuf.data = [] ∧
      (t.step .run).lines = t.readLine ∧
      (t.step .run).node.msgQueue = t.node.msgQueue - 1 ∧
      ((t.step .run).node.thread = .receiving ∨ 0 < t.node.msgQueue)) := by
  have ht' := coherent_step ht .run
  have hs' := settled_step hs .run
  by_cases hdone : t.stored.state = allDone
  · rw [Traced.step_run_report hthread hdone]
    refine .inl ⟨_, List.mem_append.mpr (.inr (List.mem_singleton.mpr rfl)), hc, fun h => ?_⟩
    obtain ⟨line, hline, x, hx, hle⟩ := hstale
    obtain ⟨line', hline', -, hfresh⟩ := h l
    obtain rfl : line = line' := Option.some.inj (hline.symm.trans hline')
    have := hfresh x hx
    simp only [hc] at this
    omega
  · rw [Traced.step_run_quiet hthread hdone] at ht' hs' ⊢
    refine .inr ⟨⟨ht', hs', by simpa using hc, msgReceive_thread _, hstale⟩, by simp, rfl, ?_⟩
    simp only [msgReceive]
    cases t.node.msgQueue <;> simp

/-- The thread works off its messages. -/
theorem drain (h : Tainted t c l) (hempty : t.node.rxBuf.data = []) :
    Reaches t fun t' => Mixed t' c ∨ (Ready t' c l ∧ t'.lines = t.lines) := by
  induction hq : t.node.msgQueue using Nat.strongRecOn generalizing t with
  | _ q ih =>
    cases hthread : t.node.thread with
    | receiving => exact .here (.inr ⟨⟨h, hthread, hempty⟩, rfl⟩)
    | sleeping => exact absurd hthread h.awake
    | handling =>
      have hread : t.readLine = t.lines := by
        apply Traced.readLine_of_none
        rw [hempty, scanLine_nil]
      apply Reaches.after noSwitch_run
      rw [Run.run_cons, Run.run_nil]
      rcases run_tainted h.coherent h.settled h.selected hthread (by rw [hread]; exact h.stale) with
        hmixed | ⟨htainted, hempty', hlines, hqueue, hnext⟩
      · exact .here (.inl hmixed)
      · rw [hread] at hlines
        rcases hnext with hwait | hpos
        · exact .here (.inr ⟨⟨htainted, hwait, hempty'⟩, hlines⟩)
        · rw [← hlines]
          exact ih (q - 1) (by omega) htainted hempty' (by omega)

/-- A newline hands the buffered line to the thread: afterwards the stale line is still there, and
the lines are those that reading the buffer leaves. -/
theorem finish_line (ht : Coherent t) (hs : Settled t) (hc : t.node.rxTeleinfo = c) (hne : c ≠ 0)
    (hawake : t.node.thread ≠ .sleeping)
    (hstale : ∃ line, t.readLine l = some line ∧ ∃ x ∈ line, x.2 ≤ t.enabled c) :
    Reaches t fun t' => Mixed t' c ∨ (Ready t' c l ∧ t'.lines = t.readLine) := by
  obtain ⟨q, hstep⟩ := step_newline (t := t) (by rwa [hc]) hawake
  have ht' := coherent_step ht (.rx (byte '\n'))
  have hs' := settled_step hs (.rx (byte '\n'))
  have hread : (t.step (.rx (byte '\n'))).readLine = t.readLine := by
    rw [hstep]
    rfl
  apply Reaches.after (show NoSwitch [.rx (byte '\n'), .run] by simp [NoSwitch])
  rw [Run.run_cons, Run.run_cons, Run.run_nil]
  rcases run_tainted (c := c) (l := l) ht' hs' (by rw [hstep]; exact hc) (by rw [hstep])
      (by rw [hread, hstep]; exact hstale) with hmixed | ⟨htainted, hempty, hlines, -, -⟩
  · exact .here (.inl hmixed)
  · rw [hread] at hlines
    rw [← hlines]
    exact drain htainted hempty

/-- A line of a label, as the meter sends it. -/
def sampleLine (k : Label) : List UInt8 := k.line (List.replicate k.digits 48) 32

theorem text_printable (l : Label) : Printable l.text := by
  unfold Printable
  cases l <;> decide +kernel

theorem sampleLine_printable (k : Label) : Printable (sampleLine k) := by
  intro b hb
  simp only [sampleLine, Label.line, List.mem_append, List.mem_cons, List.mem_replicate,
    List.not_mem_nil, or_false] at hb
  rcases hb with hb | rfl | ⟨-, rfl⟩ | rfl | rfl
  · exact text_printable k b hb
  all_goals decide

theorem scanLine_sampleLine (k : Label) :
    scanLine (fillBuffer (sampleLine k)) = some (k, (numeral (List.replicate k.digits 48) : ℤ)) := by
  refine scanLine_line (fun b hb => ?_) (by simp) 32
  obtain rfl := List.eq_of_mem_replicate hb
  decide

/-- A line for another label is kept beside the stale one. -/
theorem feed_line (h : Ready t c l) (hne : c ≠ 0) {k : Label} (hk : k ≠ l) :
    Reaches t fun t' => Mixed t' c ∨ (Ready t' c l ∧ (t'.lines k).isSome ∧
      ∀ j, (t.lines j).isSome → (t'.lines j).isSome) := by
  have hfed := run_rx_text (t := t) (by rwa [h.selected]) (sampleLine_printable k)
  set t₁ := Run.run Traced.step t ((sampleLine k).map .rx) with ht₁
  have hcoherent : Coherent t₁ := coherent_run h.coherent _
  have hsettled : Settled t₁ := settled_run h.settled _
  have hbuf : t₁.node.rxBuf.data = sampleLine k := by
    have hlen : (sampleLine k).length ≤ uartBufsize := by
      rw [sampleLine, Label.line_length List.length_replicate]
      exact k.cut_add_two_le
    rw [hfed]
    simp only
    rw [Ring.foldl_addOne_data_of_le (by rw [h.rxBuf, List.length_nil, Nat.zero_add]; exact hlen),
      h.rxBuf, List.nil_append]
  have hread : t₁.readLine = Function.update t.lines k (some t₁.rxBuf.data) := by
    rw [Traced.readLine_of_some (by rw [hbuf]; exact scanLine_sampleLine k), hfed]
  have hstale : ∃ line, t₁.readLine l = some line ∧ ∃ x ∈ line, x.2 ≤ t₁.enabled c := by
    rw [hread, Function.update_of_ne (Ne.symm hk), hfed]
    exact h.stale
  apply Reaches.after (noSwitch_rx (sampleLine k))
  rw [← ht₁]
  refine (finish_line hcoherent hsettled (by rw [hfed]; exact h.selected) hne
    (by rw [hfed]; exact h.awake) hstale).bind fun t' ht' => .here ?_
  refine ht'.imp_right fun ⟨hready, hlines⟩ => ⟨hready, ?_, fun j hj => ?_⟩
  · rw [hlines, hread, Function.update_self]
    rfl
  · rw [hlines, hread]
    by_cases hjk : j = k
    · rw [hjk, Function.update_self]
      rfl
    · rwa [Function.update_of_ne hjk]

/-- From a stale line on, lines for the other two labels complete a mixed report. -/
theorem mixed_of_ready (h : Ready t c l) (hne : c ≠ 0) : Reaches t fun t' => Mixed t' c := by
  obtain ⟨j, k, hj, hk, hall⟩ : ∃ j k, j ≠ l ∧ k ≠ l ∧ ∀ i : Label, i = l ∨ i = j ∨ i = k := by
    cases l with
    | base => exact ⟨.papp, .iinst, by decide, by decide, fun i => by cases i <;> simp⟩
    | papp => exact ⟨.base, .iinst, by decide, by decide, fun i => by cases i <;> simp⟩
    | iinst => exact ⟨.base, .papp, by decide, by decide, fun i => by cases i <;> simp⟩
  refine (feed_line h hne hj).bind fun t₁ h₁ => ?_
  rcases h₁ with hmixed | ⟨hready₁, hseen₁, -⟩
  · exact .here hmixed
  refine (feed_line hready₁ hne hk).bind fun t₂ h₂ => ?_
  rcases h₂ with hmixed | ⟨hready₂, hseen₂, hkeep⟩
  · exact .here hmixed
  -- All three labels have a line now, but then the report was sent.
  have hsome : ∀ i, (t₂.lines i).isSome := by
    intro i
    rcases hall i with rfl | rfl | rfl
    · obtain ⟨line, hline, -⟩ := hready₂.stale
      rw [hline]
      rfl
    · exact hkeep i hseen₁
    · exact hseen₂
  have hdone : t₂.node.results.state = allDone := by
    rw [hready₂.coherent.state]
    exact (doneBits_eq_allDone _ _ _).mpr ⟨hsome _, hsome _, hsome _⟩
  exact absurd hdone hready₂.settled.unfinished

/-- A stale line that is there once the buffer is read leads to a mixed report. -/
theorem mixed_of_stale (ht : Coherent t) (hs : Settled t) (hc : t.node.rxTeleinfo = c)
    (hne : c ≠ 0) (hawake : t.node.thread ≠ .sleeping)
    (hstale : ∃ line, t.readLine l = some line ∧ ∃ x ∈ line, x.2 ≤ t.enabled c) :
    Reaches t fun t' => Mixed t' c := by
  apply (finish_line ht hs hc hne hawake hstale).bind
  rintro t' (hmixed | ⟨hready, -⟩)
  · exact .here hmixed
  · exact mixed_of_ready hready hne

/-- A text that is not inert has an end that agrees with the beginning of a label. -/
theorem exists_suffix_of_not_inert {text : List UInt8} (h : ¬ Inert text) :
    ∃ (l : Label) (p : List UInt8), p ≠ [] ∧ p <:+ text ∧ (l.text <+: p ∨ p <+: l.text) := by
  unfold Inert at h
  push Not at h
  obtain ⟨l, hl⟩ := h
  by_cases hinfix : l.text <:+: text
  · obtain ⟨u, w, rfl⟩ := hinfix
    refine ⟨l, l.text ++ w, ?_, ⟨u, by simp⟩, .inl (List.prefix_append _ _)⟩
    cases l <;> simp [Label.text, ascii]
  · obtain ⟨p, hne, hpre, hsuf⟩ := hl hinfix
    exact ⟨l, p, hne, hsuf, .inr hpre⟩

/-- What the meter sends behind an end of the ring buffer that agrees with a label: the rest of the
label, and blanks until everything in front of that end is pushed out. -/
def completion (l : Label) (p : List UInt8) : List UInt8 :=
  l.text.drop p.length ++
    List.replicate (uartBufsize - (p ++ l.text.drop p.length).length) (byte ' ')

variable {p : List UInt8}

theorem completion_printable (l : Label) (p : List UInt8) : Printable (completion l p) := by
  intro b hb
  rcases List.mem_append.mp hb with hb | hb
  · exact text_printable l b (List.mem_of_mem_drop hb)
  · obtain rfl := List.eq_of_mem_replicate hb
    decide

theorem completion_length (l : Label) (hp : p.length ≤ uartBufsize) :
    (p ++ completion l p).length = uartBufsize := by
  have htext := l.text_length
  have hoffset := l.offset_add_digits
  have hcut := l.cut_add_two_le
  simp only [completion, List.length_append, List.length_drop, List.length_replicate]
  omega

/-- The completed line is kept for its label. -/
theorem scanLine_completion (hp : p.length ≤ uartBufsize) (hspace : ∀ b ∈ p, byte ' ' ≤ b)
    (hl : l.text <+: p ∨ p <+: l.text) :
    scanLine (fillBuffer (p ++ completion l p)) = some (l, l.value (p ++ completion l p)) := by
  have hlen := completion_length l hp
  have hfill : fillBuffer (p ++ completion l p) = p ++ completion l p := by
    rw [fillBuffer, hlen, Nat.sub_self, List.replicate_zero, List.append_nil]
  have htext : l.text <+: p ++ completion l p := by
    rcases hl with hl | ⟨rest, hrest⟩
    · exact hl.trans (List.prefix_append _ _)
    · rw [completion, ← hrest, List.drop_left, ← List.append_assoc]
      exact List.prefix_append _ _
  have hzero : 0 ∉ p ++ completion l p := by
    intro h
    rcases List.mem_append.mp h with h | h
    · exact absurd (hspace 0 h) (by decide)
    · exact absurd (completion_printable l p 0 h).2 (by decide)
  rw [hfill]
  refine scanLine_of_accepts (Label.accepts_iff.mpr ⟨htext, ?_⟩)
  have hcut := l.cut_add_two_le
  have hstrlen := le_strlen hzero List.prefix_rfl
  omega

/-- Old bytes at the end of the ring buffer that agree with a label get into a line of it. -/
theorem mixed_of_not_inert (ht : Coherent t) (hs : Settled t) (hc : t.node.rxTeleinfo = c)
    (hne : c ≠ 0) (hawake : t.node.thread ≠ .sleeping)
    (hold : ∀ x ∈ t.rxBuf.data, x.2 ≤ t.enabled c) (h : ¬ Inert t.node.rxBuf.data) :
    Reaches t fun t' => Mixed t' c := by
  obtain ⟨l, p, hp, ⟨u, hu⟩, hl⟩ := exists_suffix_of_not_inert h
  have hbound := t.node.rxBuf.bound
  have hsplit : t.rxBuf.data.length = u.length + p.length := by
    rw [← List.length_map Prod.fst, ht.rxBuf, ← hu, List.length_append]
  have hplen : p.length ≤ uartBufsize := by
    rw [← hu, List.length_append] at hbound
    omega
  have hlen := completion_length l hplen
  rw [List.length_append] at hlen
  have hspace : ∀ b ∈ p, byte ' ' ≤ b := by
    intro b hb
    have hmem : b ∈ t.rxBuf.data.map Prod.fst := by
      rw [ht.rxBuf, ← hu]
      exact List.mem_append_right _ hb
    obtain ⟨x, hx, rfl⟩ := List.mem_map.mp hmem
    exact (hs.rxBuf x hx).2
  -- Behind the completion the ring buffers hold that end and the completion.
  have hfed := run_rx_text (t := t) (by rwa [hc]) (completion_printable l p)
  set t₁ := Run.run Traced.step t ((completion l p).map .rx) with ht₁
  have hcoherent : Coherent t₁ := coherent_run ht _
  have hsettled : Settled t₁ := settled_run hs _
  have hbytes : t₁.node.rxBuf.data = p ++ completion l p := by
    rw [hfed]
    simp only
    rw [Ring.foldl_addOne_data, ← hu, List.append_assoc, List.length_append, List.length_append,
      hlen, Nat.add_sub_cancel, List.drop_left]
  have hstamps : t₁.rxBuf.data =
      t.rxBuf.data.drop u.length ++ (completion l p).zipIdx t.now := by
    rw [hfed]
    simp only
    rw [Ring.foldl_addOne_data, List.length_append, List.length_zipIdx, hsplit, Nat.add_assoc, hlen,
      Nat.add_sub_cancel, List.drop_append_of_le_length (by omega)]
  have hread : t₁.readLine = Function.update t₁.lines l (some t₁.rxBuf.data) := by
    apply Traced.readLine_of_some
    rw [hbytes]
    exact scanLine_completion hplen hspace hl
  have hstale : ∃ line, t₁.readLine l = some line ∧ ∃ x ∈ line, x.2 ≤ t₁.enabled c := by
    refine ⟨t₁.rxBuf.data, by rw [hread, Function.update_self], ?_⟩
    have hlast : t.rxBuf.data.drop u.length ≠ [] := by
      have := List.length_pos_iff.mpr hp
      simp
      omega
    obtain ⟨x, hx⟩ := List.exists_mem_of_ne_nil _ hlast
    refine ⟨x, by rw [hstamps]; exact List.mem_append_left _ hx, ?_⟩
    rw [hfed]
    exact hold x (List.mem_of_mem_drop hx)
  apply Reaches.after (noSwitch_rx (completion l p))
  rw [← ht₁]
  exact mixed_of_stale hcoherent hsettled (by rw [hfed]; exact hc) hne
    (by rw [hfed]; exact hawake) hstale

/-- A kept value is not overwritten by what is in an inert ring buffer. -/
theorem mixed_of_kept (ht : Coherent t) (hs : Settled t) (hc : t.node.rxTeleinfo = c)
    (hne : c ≠ 0) (hawake : t.node.thread ≠ .sleeping)
    (hkept : ∃ line, t.lines l = some line ∧ ∃ x ∈ line, x.2 ≤ t.enabled c)
    (h : Inert t.node.rxBuf.data) : Reaches t fun t' => Mixed t' c := by
  have hscan : scanLine (fillBuffer t.node.rxBuf.data) = none := by
    by_cases hempty : t.node.rxBuf.data = []
    · rw [hempty, scanLine_nil]
    · simpa using h.scanLine_append hempty []
  apply mixed_of_stale ht hs hc hne hawake
  rwa [Traced.readLine_of_none hscan]

/-- Bits of the state stand for lines with a byte. -/
theorem exists_kept (ht : Coherent t) (h : t.node.results.state ≠ 0) :
    ∃ l line, t.lines l = some line ∧ line ≠ [] := by
  have hsome : ∃ l, t.lines l ≠ none := by
    by_contra hnone
    push Not at hnone
    apply h
    rw [ht.state, lineBits, hnone, hnone, hnone]
    decide
  obtain ⟨l, hl⟩ := hsome
  obtain ⟨line, hline⟩ := Option.ne_none_iff_exists'.mp hl
  refine ⟨l, line, hline, ?_⟩
  rintro rfl
  obtain ⟨v, hscan, -⟩ := ht.values l [] hline
  rw [List.map_nil, scanLine_nil] at hscan
  contradiction

end

/-- Whenever a meter is switched to and the switch is not clean, that meter can send bytes after
which its report mixes two meters. -/
theorem mixed_of_not_clean (es : List Event) (c : UInt8) (hc : c ≠ 0)
    (h : ¬ Clean (Run.run Teleinfo.step .init es)) :
    ∃ fs, NoSwitch fs ∧
      Mixed (Run.run Traced.step .init (es ++ .enableRx c :: fs)) c := by
  set t := Run.run Traced.step .init es with ht
  have hnode : t.node = Run.run Teleinfo.step .init es := Traced.run_node _ es
  rw [← hnode] at h
  have hcoherent : Coherent t := coherent_run coherent_init es
  have hsettled : Settled t := settled_run settled_init es
  have hcoherent' := coherent_step hcoherent (.enableRx c)
  have hsettled' := settled_step hsettled (.enableRx c)
  have henabled : (t.step (.enableRx c)).enabled c = t.now := Function.update_self ..
  have hselected : (t.step (.enableRx c)).node.rxTeleinfo = c := t.node.enableRx_rxTeleinfo c
  have hbuf : (t.step (.enableRx c)).node.rxBuf = t.node.rxBuf := t.node.enableRx_rxBuf c
  have hawake : (t.step (.enableRx c)).node.thread ≠ .sleeping := t.node.enableRx_thread c
  have hreaches : Reaches (t.step (.enableRx c)) fun t' => Mixed t' c := by
    by_cases hinert : Inert t.node.rxBuf.data
    · have hstate : t.node.results.state ≠ 0 := fun hstate => h ⟨hstate, hinert⟩
      obtain ⟨l, line, hline, hbytes⟩ := exists_kept hcoherent hstate
      obtain ⟨x, hx⟩ := List.exists_mem_of_ne_nil _ hbytes
      refine mixed_of_kept (l := l) hcoherent' hsettled' hselected hc hawake
        ⟨line, hline, x, hx, ?_⟩ (by rwa [hbuf])
      rw [henabled]
      exact (hsettled.lines l line hline x hx).le
    · refine mixed_of_not_inert hcoherent' hsettled' hselected hc hawake (fun x hx => ?_)
        (by rwa [hbuf])
      rw [henabled]
      exact (hsettled.rxBuf x hx).1.le
  obtain ⟨fs, hfs, hmixed⟩ := hreaches
  exact ⟨fs, hfs, by rwa [Run.run_append, Run.run_cons]⟩

end OflMotes.Node.Teleinfo
