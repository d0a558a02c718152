import OflMotes.Lib.Epochs
import OflMotes.Node.MoteReader

/-! What the cycles of `mote-teleinfo` send: while the thread keeps up with the bytes, each cycle sends
its periodic frame, if it is due, and behind it the reports that its own two windows read. -/
namespace OflMotes.Node.MoteTeleinfo
open Epochs

def Device.Event.byte : Device.Event → List UInt8
  | .rx data => [data]
  | _ => []

/-- The meter whose window is open where `main` stands. -/
def openWindow : Position → Statement → Option UInt8
  | .mote, .poweroff c => some c
  | _, _ => none

/-- The byte that is received in the open window of a cycle. -/
def hears (s : Device) (e : Device.Event) (k : ℕ) (c : UInt8) : List UInt8 :=
  if k = s.cycle ∧ openWindow s.position s.mote.main = some c then e.byte else []

/-- The bytes received in each window of each cycle of a run. -/
def heard (d : Driver) (nodeId : UInt8) : Device → List Device.Event → ℕ → UInt8 → List UInt8
  | _, [], _, _ => []
  | s, e :: es, k, c => hears s e k c ++ heard d nodeId (s.step d nodeId e) es k c

/-- The thread keeps up: it handles a newline before anything else happens, with fewer than 128
characters waiting for it, and goes on behind a report before anything else happens. In front of the
first window, when no meter has had power, the UART is on already, but receives nothing. -/
def KeepsUp (s : Device) (e : Device.Event) : Prop :=
  (s.mote.processor = .handling → e = .process ∧ s.mote.rxBuf.data.length < uartBufsize) ∧
  (s.mote.processor = .notifying → e = .notified) ∧
  (s.mote.uartOn = true → openWindow s.position s.mote.main = none → e.byte = [])

instance (s : Device) (e : Device.Event) : Decidable (KeepsUp s e) :=
  inferInstanceAs (Decidable ((_ → _) ∧ (_ → _) ∧ (_ → _ → _)))

/-- How far `main` has come with the label and the values of the next window. -/
def Resetting (n : Mote) : Prop :=
  match n.main with
  | .base c => n.curPitinfo = c
  | .iinst c => n.curPitinfo = c ∧ n.results.base = -1
  | .papp c => n.curPitinfo = c ∧ n.results.base = -1 ∧ n.results.iinst = -1
  | .poweron c => n.curPitinfo = c ∧ n.results = ⟨-1, -1, -1⟩
  | _ => True

/-- Outside of the windows, with what they have left. -/
structure Idle (k : Carry Meter) (n : Mote) : Prop where
  closed : Closed k n
  resetting : Resetting n
  present : n.main ≠ .uartInit → n.main ≠ .threadCreate → n.processor = .receiving

section
variable {n : Mote} {k : Carry Meter} {c : UInt8} {r : Reader Meter}

theorem Idle.mainStep (h : Idle k n) (hopen : ∀ c, n.main ≠ .poweron c)
    (hclose : ∀ c, n.main ≠ .poweroff c) : Idle k n.mainStep := by
  obtain ⟨⟨hwaits, hqueue, hline, hnoNewline⟩, hresetting, hpresent⟩ := h
  unfold Resetting at hresetting
  cases hmain : n.main with
  | uartInit =>
    simp only [Mote.mainStep, hmain]
    exact ⟨⟨hwaits, hqueue, hline, hnoNewline⟩, trivial, fun _ hno => absurd rfl hno⟩
  | threadCreate =>
    simp only [Mote.mainStep, hmain]
    exact ⟨⟨.inl rfl, hqueue, hline, hnoNewline⟩, trivial, fun _ _ => rfl⟩
  | curPitinfo c =>
    have hthread := hpresent (by simp [hmain]) (by simp [hmain])
    simp only [Mote.mainStep, hmain]
    exact ⟨⟨.inl hthread, hqueue, hline, hnoNewline⟩, rfl, fun _ _ => hthread⟩
  | base c =>
    have hthread := hpresent (by simp [hmain]) (by simp [hmain])
    rw [hmain] at hresetting
    simp only [Mote.mainStep, hmain]
    exact ⟨⟨.inl hthread, hqueue, hline, hnoNewline⟩, ⟨hresetting, rfl⟩, fun _ _ => hthread⟩
  | iinst c =>
    have hthread := hpresent (by simp [hmain]) (by simp [hmain])
    rw [hmain] at hresetting
    simp only [Mote.mainStep, hmain]
    exact ⟨⟨.inl hthread, hqueue, hline, hnoNewline⟩, ⟨hresetting.1, hresetting.2, rfl⟩,
      fun _ _ => hthread⟩
  | papp c =>
    have hthread := hpresent (by simp [hmain]) (by simp [hmain])
    rw [hmain] at hresetting
    obtain ⟨hlabel, hbase, hiinst⟩ := hresetting
    have hunread : (⟨-1, n.results.iinst, n.results.base⟩ : Meter) = ⟨-1, -1, -1⟩ := by
      rw [hbase, hiinst]
    simp only [Mote.mainStep, hmain]
    exact ⟨⟨.inl hthread, hqueue, hline, hnoNewline⟩, ⟨hlabel, hunread⟩, fun _ _ => hthread⟩
  | poweron c => exact absurd hmain (hopen c)
  | poweroff c => exact absurd hmain (hclose c)

/-- The window of a meter opens with values that are unread. -/
theorem Idle.poweron (h : Idle k n) (hmain : n.main = .poweron c) :
    Follows c (.reading k.reopen) n.mainStep := by
  have hthread := h.present (by simp [hmain]) (by simp [hmain])
  have hresetting := h.resetting
  rw [Resetting, hmain] at hresetting
  simp only [Mote.mainStep, hmain]
  exact h.closed.tracks hthread hresetting.1 hresetting.2 _

/-- It closes with what its reader has come to. -/
theorem Follows.poweroff (h : Follows c r n) (hmain : n.main = .poweroff c)
    (hline : k.line = r.result.2.line) : Idle k n.mainStep := by
  obtain ⟨hwaits, hqueue, hring, hnoNewline⟩ := h.closed.of_line hline
  have hthread := h.thread
  simp only [Mote.mainStep, hmain]
  exact ⟨⟨hwaits, hqueue, hring, hnoNewline⟩, trivial, fun _ _ => hthread⟩

end

/-- Where the thread stands in a cycle: it follows the reader of the open window, or rests with what
the windows have left. -/
def Attends (k : Carry Meter) (heard : UInt8 → List UInt8) (s : Device) : Prop :=
  match openWindow s.position s.mote.main with
  | some c => Follows c (k.reader heard c) s.mote
  | none => Idle (k.cycle heard) s.mote

/-- The window of this meter has been opened in the cycle. -/
def opened : Position → Statement → UInt8 → Prop
  | .mote, .curPitinfo c', c => c < c'
  | .mote, .base c', c => c < c'
  | .mote, .iinst c', c => c < c'
  | .mote, .papp c', c => c < c'
  | .gpioSet c', _, c => c < c'
  | .mote, .poweron c', c => c < c'
  | .mote, .poweroff c', c => c ≤ c'
  | .gpioClear c', _, c => c ≤ c'
  | .radioOff, _, _ => True
  | _, _, _ => False

/-- The periodic frame of the cycle has been sent, if it is due. -/
def begun : Position → Statement → Bool
  | .mote, .uartInit => false
  | .network, _ => false
  | .mote, .threadCreate => false
  | .radioTx, _ => false
  | .device, _ => false
  | _, _ => true

/-- The periodic text, in the cycles that the counter divides. -/
def periodic (k : ℕ) (bat : Int32) : List (List UInt8) :=
  if k % 256 % 5 = 0 then [deviceText bat] else []

/-- What a cycle sends: the periodic text, if it is due, and the reports. -/
def CycleTexts (k : ℕ) (reports : List (List UInt8)) (fs : List Frame) : Prop :=
  ∃ bat, fs.map Frame.payload = (periodic k bat ++ reports).map some

/-- A frame that is sent in time: the radio is on, where its driver works, and the meter of the
report, and no other, has power. -/
structure Timely (d : Driver) (f : Frame) : Prop where
  state : d.Works → f.netif.state = .tx
  payload : (∃ bat, f.payload = some (deviceText bat) ∧ f.powerPort1 = false ∧ f.powerPort2 = false) ∨
    ∃ c m, IsMeter c ∧ f.payload = some (report c m) ∧
      f.powerPort1 = (c == 1) ∧ f.powerPort2 = (c == 2)

/-- The device with what it has heard, while the thread has nothing to do. -/
structure Settled (d : Driver) (h : ℕ → UInt8 → List UInt8) (s : Device) : Prop where
  log : UpTo Frame.cycle s.cycle s.frames
  unheard : ∀ k c, h k c ≠ [] → k < s.cycle ∨ k = s.cycle ∧ opened s.position s.mote.main c
  attends : Attends (carryInto Meter h s.cycle) (h s.cycle) s
  waits : begun s.position s.mote.main = false → epoch Frame.cycle s.frames s.cycle = []
  sends : begun s.position s.mote.main = true →
    CycleTexts s.cycle ((carryInto Meter h s.cycle).cycleReports (h s.cycle))
      (epoch Frame.cycle s.frames s.cycle)
  past : ∀ k < s.cycle, CycleTexts k ((carryInto Meter h k).cycleReports (h k))
    (epoch Frame.cycle s.frames k)
  timely : ∀ f ∈ s.frames, Timely d f

section
variable {d : Driver} {nodeId : UInt8} {h : ℕ → UInt8 → List UInt8} {s t : Device} {c : UInt8}

theorem Settled.follows (hs : Settled d h s) (hopen : openWindow s.position s.mote.main = some c) :
    Follows c ((carryInto Meter h s.cycle).reader (h s.cycle) c) s.mote := by
  have hattends := hs.attends
  rw [Attends, hopen] at hattends
  exact hattends

theorem Settled.idle (hs : Settled d h s) (hopen : openWindow s.position s.mote.main = none) :
    Idle ((carryInto Meter h s.cycle).cycle (h s.cycle)) s.mote := by
  have hattends := hs.attends
  rw [Attends, hopen] at hattends
  exact hattends

/-- A step of `main` that sends nothing, within a cycle. -/
theorem Settled.of_main (hs : Settled d h s) (hframes : t.frames = s.frames)
    (hcycle : t.cycle = s.cycle)
    (hbegun : begun t.position t.mote.main = begun s.position s.mote.main)
    (hopened : ∀ c, opened s.position s.mote.main c → opened t.position t.mote.main c)
    (hattends : Attends (carryInto Meter h s.cycle) (h s.cycle) t) : Settled d h t := by
  refine ⟨?_, ?_, ?_, ?_, ?_, ?_, ?_⟩
  · rw [hframes, hcycle]
    exact hs.log
  · rw [hcycle]
    exact HeardUpTo.mono hs.unheard hopened
  · rw [hcycle]
    exact hattends
  · rw [hframes, hcycle, hbegun]
    exact hs.waits
  · rw [hframes, hcycle, hbegun]
    exact hs.sends
  · rw [hframes, hcycle]
    exact hs.past
  · rw [hframes]
    exact hs.timely

theorem Settled.heard_nil (hs : Settled d h s) (hc : ¬ opened s.position s.mote.main c) :
    h s.cycle c = [] := HeardUpTo.nil hs.unheard hc

theorem attends_of_idle {k : Carry Meter} {heard : UInt8 → List UInt8}
    (hopen : openWindow s.position s.mote.main = none) (hidle : Idle (k.cycle heard) s.mote) :
    Attends k heard s := by
  rw [Attends, hopen]
  exact hidle

theorem begun_after (m : Statement) : begun m.next m.after = begun .mote m := by cases m <;> rfl

theorem opened_after {m : Statement} {c : UInt8} (h : opened .mote m c) :
    opened m.next m.after c := by
  cases m with
  | uartInit => exact h.elim
  | threadCreate => exact h.elim
  | poweron c' => exact UInt8.le_of_lt h
  | _ => exact h

theorem openWindow_after {m : Statement} (h : ∀ c, m ≠ .poweron c) :
    openWindow m.next m.after = none := by
  cases m with
  | poweron c => exact absurd rfl (h c)
  | _ => rfl

/-- A step on the variables of the threads. -/
theorem Settled.of_mote (hs : Settled d h s) (hposition : s.position = .mote)
    (hattends : Attends (carryInto Meter h s.cycle) (h s.cycle)
      { s with mote := s.mote.mainStep, position := s.mote.main.next }) :
    Settled d h { s with mote := s.mote.mainStep, position := s.mote.main.next } := by
  refine hs.of_main rfl rfl ?_ (fun c hc => ?_) hattends
  · rw [hposition, mainStep_main]
    exact begun_after _
  · rw [hposition] at hc
    rw [mainStep_main]
    exact opened_after hc

/-- A step between the windows. -/
theorem settled_between (hs : Settled d h s) (hposition : s.position = .mote)
    (hopen : ∀ c, s.mote.main ≠ .poweron c) (hclose : ∀ c, s.mote.main ≠ .poweroff c) :
    Settled d h { s with mote := s.mote.mainStep, position := s.mote.main.next } := by
  have hidle := hs.idle (by
    rw [hposition]
    cases hmain : s.mote.main with
    | poweroff c => exact absurd hmain (hclose c)
    | _ => rfl)
  refine hs.of_mote hposition (attends_of_idle ?_ (hidle.mainStep hopen hclose))
  rw [mainStep_main]
  exact openWindow_after hopen

/-- A window opens: its reader starts with the line that the windows before it have left. -/
theorem settled_poweron (hs : Settled d h s) (hposition : s.position = .mote)
    (hmain : s.mote.main = .poweron c) (hc : IsMeter c) :
    Settled d h { s with mote := s.mote.mainStep, position := s.mote.main.next } := by
  have hidle := hs.idle (by rw [hposition, hmain]; rfl)
  have hopened (c' : UInt8) (hle : ¬ c' < c) : h s.cycle c' = [] := hs.heard_nil (by
    rw [hposition, hmain]
    exact hle)
  have htwo := hopened 2 (by rcases hc with rfl | rfl <;> decide)
  have hself := hopened c (UInt8.lt_irrefl c)
  have hreader := Carry.reader_of_nil (carryInto_clean (σ := Meter) h s.cycle) hc hself htwo
  have hfollows := hidle.poweron hmain
  rw [← hreader] at hfollows
  have hopen : openWindow s.mote.main.next s.mote.mainStep.main = some c := by
    rw [mainStep_main, hmain]
    rfl
  refine hs.of_mote hposition ?_
  rw [Attends]
  dsimp only
  rw [hopen]
  exact hfollows

/-- A window closes, and leaves what its reader has come to. -/
theorem settled_poweroff (hs : Settled d h s) (hposition : s.position = .mote)
    (hmain : s.mote.main = .poweroff c) (hc : IsMeter c) :
    Settled d h { s with mote := s.mote.mainStep, position := s.mote.main.next } := by
  have hfollows := hs.follows (c := c) (by rw [hposition, hmain]; rfl)
  have hlater : c = 1 → h s.cycle 2 = [] := by
    rintro rfl
    apply hs.heard_nil
    rw [hposition, hmain]
    show ¬ (2 : UInt8) ≤ 1
    decide
  have hcycle := (Carry.cycle_of_open (carryInto_clean (σ := Meter) h s.cycle) hc hlater).1
  have hidle := hfollows.poweroff hmain (Carry.line_eq_of_reopen hcycle)
  refine hs.of_mote hposition (attends_of_idle ?_ hidle)
  rw [mainStep_main]
  exact openWindow_after (by simp [hmain])

/-- A statement that does not concern the threads, within a cycle and between the windows. -/
theorem Settled.of_elsewhere {p q : Position} (hs : Settled d h s) (hposition : s.position = p)
    (hnext : t.position = q) (hmain : s.mote.main = p.behind) (hmote : t.mote = s.mote)
    (hframes : t.frames = s.frames) (hcycle : t.cycle = s.cycle)
    (hopen : openWindow p p.behind = none) (hopen' : openWindow q p.behind = none)
    (hbegun : begun q p.behind = begun p p.behind)
    (hopened : ∀ c, opened p p.behind c → opened q p.behind c) : Settled d h t := by
  subst hposition hnext
  rw [← hmain] at hopen hopen' hbegun hopened
  have hidle := hs.idle hopen
  rw [← hmote] at hidle hopen'
  refine hs.of_main hframes hcycle ?_ ?_ (attends_of_idle hopen' hidle) <;> rw [hmote]
  · exact hbegun
  · exact hopened

/-- The frames that a step adds are these texts, with the cycle, the interface and the meters as they
are. -/
def Adds (s t : Device) (l : List (List UInt8)) : Prop :=
  ∃ fs : List Frame, t.frames = s.frames ++ fs ∧ fs.map Frame.payload = l.map some ∧
    ∀ f ∈ fs, f.cycle = s.cycle ∧ f.netif = s.netif ∧ f.powerPort1 = s.port1 ∧ f.powerPort2 = s.port2

theorem adds_nil (hframes : t.frames = s.frames) : Adds s t [] :=
  ⟨[], by rw [hframes, List.append_nil], rfl, by simp⟩

theorem adds_dataTx {text : List UInt8} (hframes : t.frames = s.frames ++ [s.frame d nodeId text])
    (hpayload : (transmit text).payload = text) : Adds s t [text] := by
  refine ⟨[s.frame d nodeId text], hframes, ?_, ?_⟩
  · exact congrArg (fun p => [some p]) hpayload
  · intro f hf
    rw [List.mem_singleton.mp hf]
    exact ⟨rfl, rfl, rfl, rfl⟩

section
variable {l : List (List UInt8)} (ha : Adds s t l)
include ha

theorem Adds.log (hlog : UpTo Frame.cycle s.cycle s.frames) : UpTo Frame.cycle s.cycle t.frames := by
  obtain ⟨fs, hframes, -, hsame⟩ := ha
  rw [hframes]
  exact hlog.append_all fun f hf => (hsame f hf).1

theorem Adds.current : (epoch Frame.cycle t.frames s.cycle).map Frame.payload =
    (epoch Frame.cycle s.frames s.cycle).map Frame.payload ++ l.map some := by
  obtain ⟨fs, hframes, htexts, hsame⟩ := ha
  rw [hframes, epoch_append_all fun f hf => (hsame f hf).1, List.map_append, htexts]

theorem Adds.before {k : ℕ} (hk : k < s.cycle) :
    epoch Frame.cycle t.frames k = epoch Frame.cycle s.frames k := by
  obtain ⟨fs, hframes, -, hsame⟩ := ha
  rw [hframes, epoch_append_all_of_ne (fun f hf => (hsame f hf).1) hk.ne]

/-- What holds of the frames before and of each that is added. -/
theorem Adds.forall {P : Frame → Prop} (hold : ∀ f ∈ s.frames, P f)
    (hnew : ∀ f, f.netif = s.netif → f.powerPort1 = s.port1 ∧ f.powerPort2 = s.port2 →
      ∀ text ∈ l, f.payload = some text → P f) : ∀ f ∈ t.frames, P f := by
  obtain ⟨fs, hframes, htexts, hsame⟩ := ha
  rw [hframes]
  intro f hf
  rcases List.mem_append.mp hf with hf | hf
  · exact hold f hf
  · have hpayload : f.payload ∈ l.map some := htexts ▸ List.mem_map_of_mem hf
    obtain ⟨text, htext, heq⟩ := List.mem_map.mp hpayload
    obtain ⟨-, hnetif, hports⟩ := hsame f hf
    exact hnew f hnetif hports text htext heq.symm

end

/-- The periodic frame, which begins what a cycle sends. -/
theorem Settled.of_begun (hs : Settled d h s) (hstate : d.Works → s.netif.state = .tx)
    (hports : s.port1 = false ∧ s.port2 = false) {bat : Int32} (ha : Adds s t (periodic s.cycle bat))
    (hcycle : t.cycle = s.cycle) (hmote : t.mote = s.mote)
    (hopen : openWindow s.position s.mote.main = none)
    (hnext : openWindow t.position s.mote.main = none)
    (hbegun : begun s.position s.mote.main = false) (hbegins : begun t.position s.mote.main = true)
    (hopened : ∀ c, ¬ opened s.position s.mote.main c) : Settled d h t := by
  have hidle := hs.idle hopen
  have hempty := hs.waits hbegun
  have hreports := (Carry.cycle_of_nil (carryInto_clean (σ := Meter) h s.cycle)
    (hs.heard_nil (hopened 1)) (hs.heard_nil (hopened 2))).2
  rw [← hmote] at hidle hnext hbegins
  refine ⟨?_, ?_, ?_, ?_, ?_, ?_, ?_⟩
  · rw [hcycle]
    exact ha.log hs.log
  · rw [hcycle]
    exact HeardUpTo.mono hs.unheard fun c hc => absurd hc (hopened c)
  · rw [hcycle]
    exact attends_of_idle hnext hidle
  · rw [hbegins]
    exact fun hno => absurd hno.symm Bool.false_ne_true
  · intro _
    refine ⟨bat, ?_⟩
    rw [hcycle, ha.current, hempty, hreports, List.append_nil]
    rfl
  · rw [hcycle]
    intro k hk
    rw [ha.before hk]
    exact hs.past k hk
  · refine ha.forall hs.timely fun f hnetif hf text htext hpayload => ⟨?_, .inl ?_⟩
    · rw [hnetif]
      exact hstate
    · rw [periodic] at htext
      split_ifs at htext
      · rw [List.mem_singleton.mp htext] at hpayload
        exact ⟨bat, hpayload, hf.1.trans hports.1, hf.2.trans hports.2⟩
      · contradiction

/-- The end of a cycle. The next one starts with what this one leaves, and has heard nothing. -/
theorem Settled.next (hs : Settled d h s) (hmote : t.mote = s.mote) (hframes : t.frames = s.frames)
    (hcycle : t.cycle = s.cycle + 1) (hopen : openWindow s.position s.mote.main = none)
    (hnext : openWindow t.position s.mote.main = none)
    (hbegun : begun s.position s.mote.main = true) (hbegins : begun t.position s.mote.main = false) :
    Settled d h t := by
  have hidle : Idle (carryInto Meter h (s.cycle + 1)) s.mote := hs.idle hopen
  have hlater := HeardUpTo.later hs.unheard (Nat.lt_succ_self s.cycle)
  have hsame := (Carry.cycle_of_nil (carryInto_clean (σ := Meter) h (s.cycle + 1))
    (hlater 1) (hlater 2)).1
  have hidle' : Idle ((carryInto Meter h (s.cycle + 1)).cycle (h (s.cycle + 1))) s.mote :=
    ⟨hidle.closed.of_line (Carry.line_eq_of_reopen hsame), hidle.resetting, hidle.present⟩
  rw [← hmote] at hidle' hnext hbegins
  refine ⟨?_, ?_, ?_, ?_, ?_, ?_, ?_⟩
  · rw [hframes, hcycle]
    exact hs.log.mono (Nat.le_succ _)
  · rw [hcycle]
    exact HeardUpTo.next hs.unheard
  · rw [hcycle]
    exact attends_of_idle hnext hidle'
  · rw [hframes, hcycle]
    exact fun _ => hs.log.epoch_eq_nil (Nat.lt_succ_self _)
  · rw [hbegins]
    exact fun hno => absurd hno Bool.false_ne_true
  · rw [hframes, hcycle]
    intro k hk
    rcases Nat.lt_succ_iff_lt_or_eq.mp hk with hk | rfl
    · exact hs.past k hk
    · exact hs.sends hbegun
  · rw [hframes]
    exact hs.timely

theorem settled_device (hs : Settled d h s) (hkept : Kept d nodeId s) (hposition : s.position = .device)
    (bat : Int32) : Settled d h (s.mainStep d nodeId bat) := by
  have hmain : s.mote.main = .curPitinfo 1 := hkept.main_eq hposition (by decide)
  have hports := hkept.ports
  have hstate (hd : d.Works) : s.netif.state = .tx := hkept.awake hd (by rw [hposition]; rfl)
  rw [hposition] at hports
  replace hports : s.port1 = false ∧ s.port2 = false := hports
  have hdivides : s.loopCntr % 5 = 0 ↔ s.cycle % 256 % 5 = 0 := by
    rw [hkept.counted]
    exact loopCntr_mod s.cycle
  have hbegun {t : Device} (ha : Adds s t (periodic s.cycle bat)) (hcycle : t.cycle = s.cycle)
      (hmote : t.mote = s.mote) (hnext : t.position = .mote) : Settled d h t := by
    refine hs.of_begun hstate hports ha hcycle hmote ?_ ?_ ?_ ?_ ?_ <;> rw [hmain]
    · rw [hposition]
      rfl
    · rw [hnext]
      rfl
    · rw [hposition]
      rfl
    · rw [hnext]
      rfl
    · rw [hposition]
      exact fun c hc => hc
  rw [Device.mainStep, hposition]
  dsimp only
  split_ifs with hdue
  · refine hbegun ?_ rfl rfl rfl
    rw [periodic, if_pos (hdivides.mp hdue)]
    exact adds_dataTx rfl (transmit_deviceText bat)
  · refine hbegun ?_ rfl rfl rfl
    rw [periodic, if_neg fun hno => hdue (hdivides.mpr hno)]
    exact adds_nil rfl

/-- A step on the variables of the threads. -/
theorem settled_mote (hs : Settled d h s) (hkept : Kept d nodeId s) (hposition : s.position = .mote) :
    Settled d h { s with mote := s.mote.mainStep, position := s.mote.main.next } := by
  have haligned := hkept.aligned
  rw [hposition] at haligned
  cases hmain : s.mote.main with
  | poweron c =>
    rw [hmain] at haligned
    have hc : IsMeter c := by cases haligned with | poweron hc => exact hc
    rw [← hmain]
    exact settled_poweron hs hposition hmain hc
  | poweroff c =>
    rw [hmain] at haligned
    have hc : IsMeter c := by cases haligned with | poweroff hc => exact hc
    rw [← hmain]
    exact settled_poweroff hs hposition hmain hc
  | _ =>
    rw [← hmain]
    exact settled_between hs hposition (by simp [hmain]) (by simp [hmain])

theorem settled_gpioSet {c : UInt8} (hs : Settled d h s) (hkept : Kept d nodeId s)
    (hposition : s.position = .gpioSet c) :
    Settled d h { s.setPort c true with position := .mote } := by
  have hmain := hkept.main_eq hposition (by simp)
  unfold Device.setPort
  split_ifs
  · exact hs.of_elsewhere hposition rfl hmain rfl rfl rfl rfl rfl rfl fun _ hc => hc
  · exact hs.of_elsewhere hposition rfl hmain rfl rfl rfl rfl rfl rfl fun _ hc => hc

/-- Behind the first window the second is still to be opened. -/
theorem settled_gpioClear {c : UInt8} (hs : Settled d h s) (hkept : Kept d nodeId s)
    (hposition : s.position = .gpioClear c) :
    Settled d h { s.setPort c false with position := if c = 1 then .mote else .radioOff } := by
  have hmain := hkept.main_eq hposition (by simp)
  have haligned := hkept.aligned
  rw [hposition] at haligned
  rcases haligned.isMeter with rfl | rfl
  · refine hs.of_elsewhere hposition rfl hmain rfl rfl rfl rfl rfl rfl fun c' hc' => ?_
    exact UInt8.lt_iff_toNat_lt.mpr (Nat.lt_succ_of_le (UInt8.le_iff_toNat_le.mp hc'))
  · exact hs.of_elsewhere hposition rfl hmain rfl rfl rfl rfl rfl rfl fun _ _ => trivial

theorem settled_mainStep (hs : Settled d h s) (hkept : Kept d nodeId s) (bat : Int32) :
    Settled d h (s.mainStep d nodeId bat) := by
  cases hposition : s.position with
  | device => exact settled_device hs hkept hposition bat
  | mote => simpa only [Device.mainStep, hposition] using settled_mote hs hkept hposition
  | gpioSet c => simpa only [Device.mainStep, hposition] using settled_gpioSet hs hkept hposition
  | gpioClear c => simpa only [Device.mainStep, hposition] using settled_gpioClear hs hkept hposition
  | network =>
    have hmain := hkept.main_eq hposition (by decide)
    simp only [Device.mainStep, hposition]
    exact hs.of_elsewhere hposition rfl hmain rfl rfl rfl rfl rfl rfl fun _ hc => hc
  | radioTx =>
    have hmain := hkept.main_eq hposition (by decide)
    simp only [Device.mainStep, hposition]
    exact hs.of_elsewhere hposition rfl hmain rfl rfl rfl rfl rfl rfl fun _ hc => hc
  | radioOff =>
    have hmain : s.mote.main = .curPitinfo 1 := hkept.main_eq hposition (by decide)
    simp only [Device.mainStep, hposition]
    refine hs.next rfl rfl rfl ?_ ?_ ?_ ?_ <;> simp only [hmain, hposition]
    · rfl
    · rfl
    · rfl
    · rfl

/-- What is heard, with the byte of an event. -/
def hear (h : ℕ → UInt8 → List UInt8) (s : Device) (e : Device.Event) : ℕ → UInt8 → List UInt8 :=
  fun k c => h k c ++ hears s e k c

theorem hear_of_byte_nil {e : Device.Event} (he : e.byte = []) : hear h s e = h := by
  funext k c
  simp [hear, hears, he]

theorem hear_of_closed {e : Device.Event} (hopen : openWindow s.position s.mote.main = none) :
    hear h s e = h := by
  funext k c
  simp [hear, hears, hopen]

/-- A byte in an open window. -/
theorem hear_of_open (data : UInt8) (hopen : openWindow s.position s.mote.main = some c) :
    HearsByte s.cycle c data h (hear h s (.rx data)) := by
  refine ⟨fun k hk => ?_, ?_, fun c' hc' => ?_⟩
  · funext c'
    simp [hear, hears, hk]
  · simp [hear, hears, hopen, Device.Event.byte]
  · simp [hear, hears, hopen, Ne.symm hc']

theorem eq_of_openWindow {p : Position} {m : Statement} (hopen : openWindow p m = some c) :
    p = .mote ∧ m = .poweroff c := by
  unfold openWindow at hopen
  split at hopen
  · exact ⟨rfl, congrArg Statement.poweroff (Option.some.inj hopen)⟩
  · contradiction

theorem Kept.isMeter (hkept : Kept d nodeId s) (hopen : openWindow s.position s.mote.main = some c) :
    IsMeter c := by
  have haligned := hkept.aligned
  obtain ⟨hposition, hmain⟩ := eq_of_openWindow hopen
  rw [hposition, hmain] at haligned
  cases haligned with
  | poweroff hc => exact hc

theorem Kept.window (hkept : Kept d nodeId s) (hopen : openWindow s.position s.mote.main = some c) :
    (d.Works → s.netif.state = .tx) ∧ s.port1 = (c == 1) ∧ s.port2 = (c == 2) := by
  have hports := hkept.ports
  obtain ⟨hposition, hmain⟩ := eq_of_openWindow hopen
  rw [hposition, hmain] at hports
  exact ⟨fun hd => hkept.awake hd (by rw [hposition, hmain]; rfl), hports⟩

theorem isMeter_le (hc : IsMeter c) : c ≤ 2 := by rcases hc with rfl | rfl <;> decide

/-- A byte in an open window leaves a settled state, if the thread follows the reader and what the
reader completes has been sent. -/
theorem Settled.of_open {data : UInt8} {l : List (List UInt8)} (hs : Settled d h s)
    (hkept : Kept d nodeId s) (hopen : openWindow s.position s.mote.main = some c) (ha : Adds s t l)
    (hcycle : t.cycle = s.cycle) (hposition : t.position = s.position)
    (hmain : t.mote.main = s.mote.main)
    (hfollows : Follows c (((carryInto Meter h s.cycle).reader (h s.cycle) c).byte data) t.mote)
    (hl : ((((carryInto Meter h s.cycle).reader (h s.cycle) c).byte data).result.1.map
        (Values.report Meter c)).toList =
      (((carryInto Meter h s.cycle).reader (h s.cycle) c).result.1.map
        (Values.report Meter c)).toList ++ l) :
    Settled d (hear h s (.rx data)) t := by
  have hb := hear_of_open (h := h) data hopen
  obtain ⟨hp, hm⟩ := eq_of_openWindow hopen
  have hc := hkept.isMeter hopen
  obtain ⟨hstate, hports⟩ := hkept.window hopen
  have hlater : c = 1 → h s.cycle 2 = [] := by
    rintro rfl
    apply hs.heard_nil
    rw [hp, hm]
    show ¬ (2 : UInt8) ≤ 1
    decide
  have hreports := hb.cycleReports_eq hc hlater hl
  obtain ⟨bat, hsent⟩ := hs.sends (by rw [hp, hm]; rfl)
  refine ⟨?_, ?_, ?_, ?_, ?_, ?_, ?_⟩
  · rw [hcycle]
    exact ha.log hs.log
  · rw [hcycle, hposition, hmain]
    refine hb.heardUpTo hs.unheard ?_
    rw [hp, hm]
    exact UInt8.le_refl c
  · rw [hcycle, Attends, hposition, hmain, hopen]
    dsimp only
    rw [hb.reader_eq hc]
    exact hfollows
  · rw [hposition, hmain, hp, hm]
    exact fun hno => absurd hno.symm Bool.false_ne_true
  · intro _
    refine ⟨bat, ?_⟩
    rw [hcycle, ha.current, hsent, hreports]
    simp only [List.map_append, List.append_assoc]
  · rw [hcycle]
    intro k hk
    rw [hb.carryInto_eq hk.le, hb.cycles k hk.ne, ha.before hk]
    exact hs.past k hk
  · refine ha.forall hs.timely fun f hnetif hf text htext hpayload => ⟨?_, .inr ?_⟩
    · rw [hnetif]
      exact hstate
    have hreport := List.mem_append_right (((carryInto Meter h s.cycle).reader (h s.cycle) c).result.1.map
      (Values.report Meter c)).toList htext
    rw [← hl, Option.mem_toList, Option.map_eq_some_iff] at hreport
    obtain ⟨m, -, rfl⟩ := hreport
    exact ⟨c, m, hc, hpayload, hf.1.trans hports.1, hf.2.trans hports.2⟩

/-- A byte that finishes no line of a window. -/
theorem settled_rx (hs : Settled d h s) (hkept : Kept d nodeId s) {data : UInt8}
    (hdata : ∀ c k, openWindow s.position s.mote.main = some c →
      (carryInto Meter h s.cycle).reader (h s.cycle) c = .reading k → data &&& 0x7F ≠ Ascii.byte '\n')
    (hquiet : openWindow s.position s.mote.main = none → s.mote.uartOn = false) :
    Settled d (hear h s (.rx data)) (s.step d nodeId (.rx data)) := by
  cases hopen : openWindow s.position s.mote.main with
  | some c =>
    have hb := fun k => hdata c k hopen
    refine hs.of_open (l := []) hkept hopen (adds_nil rfl) rfl rfl
      (rxCb_main s.mote data).1 ((hs.follows hopen).rxCb hb) ?_
    rw [Reader.byte_result hb, List.append_nil]
  | none =>
    have hsame : s.mote.rxCb data = s.mote := rxCb_off (hquiet hopen) data
    rw [hear_of_closed hopen]
    show Settled d h { s with mote := s.mote.rxCb data }
    rw [hsame]
    exact hs

section
variable {data : UInt8} {k : Carry Meter} (hs : Settled d h s) (hkept : Kept d nodeId s)
  (hopen : openWindow s.position s.mote.main = some c)
  (hreader : (carryInto Meter h s.cycle).reader (h s.cycle) c = .reading k)
  (hdata : data &&& 0x7F = Ascii.byte '\n') (hlen : s.mote.rxBuf.data.length < uartBufsize)
include hs hkept hopen hreader hdata hlen

/-- A newline in an open window that still reads, and the round that handles it. -/
theorem settled_process (hnone : ((Reader.reading k).byte data).result.1 = none) :
    Settled d (hear h s (.rx data)) ((s.step d nodeId (.rx data)).step d nodeId .process) := by
  have hfollows := hs.follows hopen
  rw [hreader] at hfollows
  have htracks : Tracks c k s.mote := hfollows
  have hsends : (s.mote.rxCb data).sends = none := by
    rw [htracks.sends hlen hdata, hnone]
    rfl
  have hstep : (s.step d nodeId (.rx data)).step d nodeId .process =
      { s with mote := (s.mote.rxCb data).process } := by
    unfold Device.step
    dsimp only
    rw [hsends]
  rw [hstep]
  refine hs.of_open (l := []) hkept hopen (adds_nil rfl) rfl rfl ?_ ?_ ?_
  · exact (process_main _).1.trans (rxCb_main s.mote data).1
  · rw [hreader]
    exact htracks.process_none hlen hdata hnone
  · rw [hreader, hnone]
    rfl

/-- A newline that completes the values: the round, and what follows the report in the thread. -/
theorem settled_notified {m : Meter} (hsome : ((Reader.reading k).byte data).result.1 = some m) :
    (s.mote.rxCb data).sends = some (report c m) ∧
      (s.mote.rxCb data).process.processor = .notifying ∧
      Settled d (hear h s (.rx data))
        (((s.step d nodeId (.rx data)).step d nodeId .process).step d nodeId .notified) := by
  have hfollows := hs.follows hopen
  rw [hreader] at hfollows
  have htracks : Tracks c k s.mote := hfollows
  have hsends : (s.mote.rxCb data).sends = some (report c m) := by
    rw [htracks.sends hlen hdata, hsome]
    rfl
  obtain ⟨hnotifying, hnext⟩ := htracks.process_some hlen hdata (by rw [hsome]; simp)
  have hc := hkept.isMeter hopen
  have hstep : ((s.step d nodeId (.rx data)).step d nodeId .process).step d nodeId .notified =
      { s.dataTx d nodeId (report c m) with mote := (s.mote.rxCb data).process.notified } := by
    unfold Device.step
    dsimp only
    rw [hsends]
    rfl
  refine ⟨hsends, hnotifying, ?_⟩
  rw [hstep]
  refine hs.of_open hkept hopen (adds_dataTx rfl (transmit_report (isMeter_le hc) m)) rfl rfl ?_ ?_ ?_
  · exact ((notified_main _).1.trans (process_main _).1).trans (rxCb_main s.mote data).1
  · rw [hreader]
    exact hnext
  · rw [hreader, hsome]
    rfl

end
end

/-- A newline that the thread has to handle next, in a window that still reads; and the report behind
which it has to go on next. -/
inductive Pending (d : Driver) (nodeId : UInt8) (s₀ : Device) (data : UInt8) (m : Option Meter) :
    Device → Prop
  | handling : Pending d nodeId s₀ data m (s₀.step d nodeId (.rx data))
  | notifying (hsome : m ≠ none) (hlen : s₀.mote.rxBuf.data.length < uartBufsize) :
    Pending d nodeId s₀ data m ((s₀.step d nodeId (.rx data)).step d nodeId .process)

/-- The device with what it has heard: settled, or in the middle of a round of the thread. -/
def Reached (d : Driver) (nodeId : UInt8) (h : ℕ → UInt8 → List UInt8) (s : Device) : Prop :=
  Settled d h s ∨ ∃ h₀ s₀ data c k, Settled d h₀ s₀ ∧ Kept d nodeId s₀ ∧
    openWindow s₀.position s₀.mote.main = some c ∧
    (carryInto Meter h₀ s₀.cycle).reader (h₀ s₀.cycle) c = .reading k ∧
    data &&& 0x7F = Ascii.byte '\n' ∧ h = hear h₀ s₀ (.rx data) ∧
    Pending d nodeId s₀ data ((Reader.reading k).byte data).result.1 s

section
variable {d : Driver} {nodeId : UInt8} {h : ℕ → UInt8 → List UInt8} {s : Device}

theorem Settled.waiting (hs : Settled d h s) :
    s.mote.processor ≠ .handling ∧ s.mote.processor ≠ .notifying := by
  cases hopen : openWindow s.position s.mote.main with
  | some c =>
    rw [(hs.follows hopen).thread]
    decide
  | none =>
    rcases (hs.idle hopen).closed.waits with hthread | hthread <;> rw [hthread] <;> decide

theorem reached_of_settled (hs : Settled d h s) (hkept : Kept d nodeId s) {e : Device.Event}
    (hup : KeepsUp s e) : Reached d nodeId (hear h s e) (s.step d nodeId e) := by
  obtain ⟨hhandling, hnotifying⟩ := hs.waiting
  cases e with
  | main bat =>
    rw [hear_of_byte_nil rfl]
    exact .inl (settled_mainStep hs hkept bat)
  | process =>
    have hstep : s.step d nodeId .process = s := by
      unfold Device.step
      rw [sends_of_ne hhandling, Mote.process_of_ne hhandling]
    rw [hear_of_byte_nil rfl, hstep]
    exact .inl hs
  | notified =>
    have hstep : s.step d nodeId .notified = s := by
      unfold Device.step
      rw [Mote.notified_of_ne hnotifying]
    rw [hear_of_byte_nil rfl, hstep]
    exact .inl hs
  | rx data =>
    by_cases hnl : ∃ c k, openWindow s.position s.mote.main = some c ∧
        (carryInto Meter h s.cycle).reader (h s.cycle) c = .reading k ∧ data &&& 0x7F = Ascii.byte '\n'
    · obtain ⟨c, k, hopen, hreader, hdata⟩ := hnl
      exact .inr ⟨h, s, data, c, k, hs, hkept, hopen, hreader, hdata, rfl, .handling⟩
    · refine .inl (settled_rx hs hkept (fun c k hopen hreader hdata => hnl ?_) fun hopen => ?_)
      · exact ⟨c, k, hopen, hreader, hdata⟩
      · by_contra hon
        have hquiet := hup.2.2 (Bool.eq_true_of_not_eq_false hon) hopen
        contradiction

theorem reached_step (hr : Reached d nodeId h s) (hkept : Kept d nodeId s) {e : Device.Event}
    (hup : KeepsUp s e) : Reached d nodeId (hear h s e) (s.step d nodeId e) := by
  rcases hr with hs | ⟨h₀, s₀, data, c, k, hs, hkept₀, hopen, hreader, hdata, rfl, hpending⟩
  · exact reached_of_settled hs hkept hup
  have hfollows := hs.follows hopen
  rw [hreader] at hfollows
  have htracks : Tracks c k s₀.mote := hfollows
  cases hpending with
  | handling =>
    have hmote : (s₀.step d nodeId (.rx data)).mote = { s₀.mote with processor := .handling } :=
      htracks.newline hdata
    rw [KeepsUp, hmote] at hup
    obtain ⟨rfl, hlen⟩ := hup.1 rfl
    rw [hear_of_byte_nil rfl]
    cases hresult : ((Reader.reading k).byte data).result.1 with
    | none => exact .inl (settled_process hs hkept₀ hopen hreader hdata hlen hresult)
    | some m =>
      refine .inr ⟨h₀, s₀, data, c, k, hs, hkept₀, hopen, hreader, hdata, rfl, ?_⟩
      rw [hresult]
      exact .notifying (by simp) hlen
  | notifying hsome hlen =>
    obtain ⟨m, hm⟩ := Option.ne_none_iff_exists'.mp hsome
    obtain ⟨hsends, hnotifying, hsettled⟩ :=
      settled_notified (d := d) hs hkept₀ hopen hreader hdata hlen hm
    have hmote : ((s₀.step d nodeId (.rx data)).step d nodeId .process).mote =
        (s₀.mote.rxCb data).process := rfl
    rw [KeepsUp, hmote, hnotifying] at hup
    obtain rfl := hup.2.1 rfl
    rw [hear_of_byte_nil rfl]
    exact .inl hsettled

/-- In the middle of a round, the report of the round is all that the device has sent since. -/
theorem Pending.adds {h₀ : ℕ → UInt8 → List UInt8} {s₀ : Device} {data c : UInt8} {k : Carry Meter}
    (hs : Settled d h₀ s₀) (hkept : Kept d nodeId s₀)
    (hopen : openWindow s₀.position s₀.mote.main = some c)
    (hreader : (carryInto Meter h₀ s₀.cycle).reader (h₀ s₀.cycle) c = .reading k)
    (hdata : data &&& 0x7F = Ascii.byte '\n')
    (hp : Pending d nodeId s₀ data ((Reader.reading k).byte data).result.1 s) :
    s.cycle = s₀.cycle ∧ ∃ l, Adds s₀ s l ∧ ∀ text ∈ l, ∃ m, text = report c m := by
  cases hp with
  | handling => exact ⟨rfl, [], adds_nil rfl, by simp⟩
  | notifying hsome hlen =>
    obtain ⟨m, hm⟩ := Option.ne_none_iff_exists'.mp hsome
    have hsends := (settled_notified (d := d) hs hkept hopen hreader hdata hlen hm).1
    have hc := isMeter_le (hkept.isMeter hopen)
    have hstep : (s₀.step d nodeId (.rx data)).step d nodeId .process =
        { s₀.dataTx d nodeId (report c m) with mote := (s₀.mote.rxCb data).process } := by
      unfold Device.step
      dsimp only
      rw [hsends]
      rfl
    rw [hstep]
    refine ⟨rfl, [report c m], adds_dataTx rfl (transmit_report hc m), fun text htext => ?_⟩
    exact ⟨m, List.mem_singleton.mp htext⟩

/-- In every state that is reached, the cycles that are over have sent what they heard. -/
theorem Reached.past (hr : Reached d nodeId h s) {k : ℕ} (hk : k < s.cycle) :
    CycleTexts k ((carryInto Meter h k).cycleReports (h k)) (epoch Frame.cycle s.frames k) := by
  rcases hr with hs | ⟨h₀, s₀, data, c, k', hs, hkept₀, hopen, hreader, hdata, rfl, hpending⟩
  · exact hs.past k hk
  obtain ⟨hcycle, l, ha, -⟩ := hpending.adds hs hkept₀ hopen hreader hdata
  rw [hcycle] at hk
  have hb := hear_of_open (h := h₀) data hopen
  rw [ha.before hk, hb.carryInto_eq hk.le, hb.cycles k hk.ne]
  exact hs.past k hk

/-- No frame is late. -/
theorem Reached.timely (hr : Reached d nodeId h s) : ∀ f ∈ s.frames, Timely d f := by
  rcases hr with hs | ⟨h₀, s₀, data, c, k', hs, hkept₀, hopen, hreader, hdata, rfl, hpending⟩
  · exact hs.timely
  obtain ⟨-, l, ha, hl⟩ := hpending.adds hs hkept₀ hopen hreader hdata
  obtain ⟨hstate, hports⟩ := hkept₀.window hopen
  refine ha.forall hs.timely fun f hnetif hf text htext hpayload => ⟨?_, .inr ?_⟩
  · rw [hnetif]
    exact hstate
  obtain ⟨m, rfl⟩ := hl text htext
  exact ⟨c, m, hkept₀.isMeter hopen, hpayload, hf.1.trans hports.1, hf.2.trans hports.2⟩

theorem reached_run (hr : Reached d nodeId h s) (hkept : Kept d nodeId s)
    {es : List Device.Event} (hup : Run.Along (Device.step d nodeId) KeepsUp s es) :
    Reached d nodeId (fun k c => h k c ++ heard d nodeId s es k c)
      (Run.run (Device.step d nodeId) s es) := by
  induction es generalizing h s with
  | nil =>
    have hsame : (fun k c => h k c ++ heard d nodeId s [] k c) = h := by
      funext k c
      exact List.append_nil _
    rw [hsame]
    exact hr
  | cons e es ih =>
    have hsplit : (fun k c => h k c ++ heard d nodeId s (e :: es) k c) =
        fun k c => hear h s e k c ++ heard d nodeId (s.step d nodeId e) es k c := by
      funext k c
      exact (List.append_assoc _ _ _).symm
    rw [hsplit]
    exact ih (reached_step hr hkept hup.1) (kept_step hkept e) hup.2

theorem reached_powerUp (boot : Netif) : Reached d nodeId (fun _ _ => []) (.powerUp boot) := by
  have hsame : ((Carry.none : Carry Meter).cycle fun _ => []).reopen = Carry.none.reopen :=
    (Carry.cycle_of_nil List.not_mem_nil rfl rfl).1
  have hclosed : Closed (Carry.none : Carry Meter) .powerUp :=
    ⟨.inr rfl, rfl, List.drop_nil.symm, List.not_mem_nil⟩
  refine .inl ⟨upTo_nil, by simp, ?_, fun _ => rfl, ?_, ?_, List.forall_mem_nil _⟩
  · exact ⟨hclosed.of_line (Carry.line_eq_of_reopen hsame), trivial, fun hno => absurd rfl hno⟩
  · exact fun hno => absurd hno Bool.false_ne_true
  · exact fun k hk => absurd hk (Nat.not_lt_zero k)

theorem reached_of_run (boot : Netif) {es : List Device.Event}
    (hup : Run.Along (Device.step d nodeId) KeepsUp (.powerUp boot) es) :
    Reached d nodeId (heard d nodeId (.powerUp boot) es)
      (Run.run (Device.step d nodeId) (.powerUp boot) es) := by
  have hreached := reached_run (reached_powerUp boot) (kept_powerUp boot) hup
  simp only [List.nil_append] at hreached
  exact hreached

end

end OflMotes.Node.MoteTeleinfo
