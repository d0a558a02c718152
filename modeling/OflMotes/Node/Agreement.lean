import OflMotes.Node.Cycles
import OflMotes.Node.MoteCycles

/-! The two programs for the meters beside each other: on the same bytes the newer one reports what
the older one does, as long as no number is too large for the member in which it is stored. -/
namespace OflMotes.Node
open Epochs

/-- The values in the form of the older program, where those not seen are negative. -/
def Latest.filled (s : Latest) : Meter := ⟨s.papp.getD (-1), s.iinst.getD (-1), s.base.getD (-1)⟩

/-- Both take the same lines, and keep the same values of them. -/
theorem filled_see (s : Latest) (line : List UInt8) :
    (s.see line).filled = Values.see s.filled line := by
  show _ = MoteTeleinfo.storeLine s.filled (fillBuffer line)
  unfold Latest.see MoteTeleinfo.storeLine
  cases scanLine (fillBuffer line) with
  | none => rfl
  | some lv =>
    obtain ⟨l, v⟩ := lv
    cases l <;> rfl

/-- Where all values are known, they are the same. -/
theorem filled_of_meter {s : Latest} {m : Meter} (h : s.meter = some m) : s.filled = m := by
  obtain ⟨papp, iinst, base⟩ := s
  cases papp with
  | none => contradiction
  | some papp =>
    cases iinst with
    | none => contradiction
    | some iinst =>
      cases base with
      | none => contradiction
      | some base => exact Option.some.inj h

/-- Where the older program has a complete meter, all values are known. -/
theorem meter_of_complete {s : Latest} (h : MoteTeleinfo.complete s.filled = true) :
    s.meter = some s.filled := by
  obtain ⟨papp, iinst, base⟩ := s
  simp only [MoteTeleinfo.complete, Bool.and_eq_true, decide_eq_true_eq] at h
  obtain ⟨⟨hpapp, hiinst⟩, hbase⟩ := h
  have hneg : ¬ (0 : Int16) ≤ -1 := by decide
  have hneg' : ¬ (0 : Int32) ≤ -1 := by decide
  cases papp with
  | none => exact absurd hpapp hneg
  | some papp =>
    cases iinst with
    | none => exact absurd hiinst hneg
    | some iinst =>
      cases base with
      | none => exact absurd hbase hneg'
      | some base => rfl

section
variable {σ : Type} [Values σ] {s : σ} {line : List UInt8}

theorem firstMeter_of_some {m : Meter} (h : Values.meter (Values.see s line) = some m)
    (lines : List (List UInt8)) : firstMeter s (line :: lines) = some m := by
  rw [firstMeter, h]

theorem firstMeter_of_none (h : Values.meter (Values.see s line) = none)
    (lines : List (List UInt8)) :
    firstMeter s (line :: lines) = firstMeter (Values.see s line) lines := by
  rw [firstMeter, h]

end

theorem firstMeter_cons (m : Meter) (line : List UInt8) (lines : List (List UInt8)) :
    firstMeter m (line :: lines) =
      if MoteTeleinfo.complete (Values.see m line) then some (Values.see m line)
      else firstMeter (Values.see m line) lines := by
  have hmeter : Values.meter (Values.see m line) =
      if MoteTeleinfo.complete (Values.see m line) then some (Values.see m line) else none := rfl
  split_ifs with hcomplete
  · exact firstMeter_of_some (hmeter.trans (if_pos hcomplete)) lines
  · exact firstMeter_of_none (hmeter.trans (if_neg hcomplete)) lines

/-- The older program reports values that are not negative, and no others. -/
theorem complete_of_firstMeter {s m : Meter} {lines : List (List UInt8)}
    (h : firstMeter s lines = some m) : MoteTeleinfo.complete m = true := by
  induction lines generalizing s with
  | nil => contradiction
  | cons line lines ih =>
    rw [firstMeter_cons] at h
    split_ifs at h with hcomplete
    · rw [← Option.some.inj h]
      exact hcomplete
    · exact ih h

/-- The two programs find the same meter in the same lines exactly if the newer one finds no
negative number. -/
theorem firstMeter_filled_iff (s : Latest) (lines : List (List UInt8)) :
    firstMeter s.filled lines = firstMeter s lines ↔
      ∀ m, firstMeter s lines = some m → MoteTeleinfo.complete m = true := by
  induction lines generalizing s with
  | nil => exact ⟨fun _ m h => by contradiction, fun _ => rfl⟩
  | cons line lines ih =>
    rw [firstMeter_cons, ← filled_see]
    cases hmeter : (s.see line).meter with
    | some m =>
      rw [filled_of_meter hmeter, firstMeter_of_some hmeter]
      by_cases hcomplete : MoteTeleinfo.complete m = true
      · rw [if_pos hcomplete]
        refine ⟨fun _ m' h => ?_, fun _ => rfl⟩
        rw [← Option.some.inj h]
        exact hcomplete
      · rw [if_neg hcomplete]
        exact ⟨fun h => absurd (complete_of_firstMeter h) hcomplete,
          fun h => absurd (h m rfl) hcomplete⟩
    | none =>
      have hcomplete : ¬ MoteTeleinfo.complete (s.see line).filled = true := by
        intro h
        rw [meter_of_complete h] at hmeter
        contradiction
      rw [if_neg hcomplete, firstMeter_of_none hmeter]
      exact ih (s.see line)

/-- Where the older program finds a meter, so does the newer one. -/
theorem firstMeter_ne_none {s : Latest} {lines : List (List UInt8)}
    (h : firstMeter s.filled lines ≠ none) : firstMeter s lines ≠ none := by
  intro hnone
  rw [(firstMeter_filled_iff s lines).mpr fun m hm => by rw [hnone] at hm; contradiction] at h
  exact h hnone

/-- Two windows that complete their meters send the reports of both. -/
theorem cycleReports_of_complete {σ : Type} [Values σ] {heard : UInt8 → List UInt8} {m₁ m₂ : Meter}
    (hone : ((Carry.none : Carry σ).listen (heard 1)).1 = some m₁)
    (htwo : ((Carry.none : Carry σ).listen (heard 2)).1 = some m₂) :
    (Carry.none : Carry σ).cycleReports heard = [Values.report σ 1 m₁, Values.report σ 2 m₂] := by
  have hnext : ((Carry.none : Carry σ).listen (heard 1)).2 = .none :=
    listen_complete (by rw [hone]; exact Option.some_ne_none m₁)
  rw [Carry.cycleReports, hnext, Carry.reports, Carry.reports, hone, htwo]
  rfl

theorem listen_older (bytes : List UInt8) : ((Carry.none : Carry Meter).listen bytes).1 =
    firstMeter Latest.none.filled (linesOf bytes).dropLast := Carry.read_fst _ bytes

theorem listen_newer (bytes : List UInt8) : ((Carry.none : Carry Latest).listen bytes).1 =
    firstMeter Latest.none (linesOf bytes).dropLast := Carry.read_fst _ bytes

/-- On the bytes of a window that starts anew, while the threads keep up and the lines that they
finish are shorter than the ring buffers, each program sends the report of what reading line by line
gives it. The two read the same exactly if the newer one reads no negative number, and the newer one
reads a meter wherever the older one does. -/
theorem windows_agree_iff {c : UInt8} (hc : c ≠ 0) {n : Teleinfo} (hthread : n.thread ≠ .handling)
    (hqueue : n.msgQueue = 0) (hring : n.rxBuf = .empty) (hstate : n.results.state = 0)
    {n' : MoteTeleinfo.Mote} (hopens : MoteTeleinfo.Opens c n') {sched : List (UInt8 × ℕ)}
    (hprompt : Teleinfo.Prompt sched)
    (hshort : ∀ line ∈ (linesOf (sched.map Prod.fst)).dropLast, line.length < uartBufsize) :
    let newer := ((Carry.none : Carry Latest).listen (sched.map Prod.fst)).1
    let older := ((Carry.none : Carry Meter).listen (sched.map Prod.fst)).1
    (Run.run Teleinfo.step n (.enableRx c :: Teleinfo.events sched)).outbox =
      n.outbox ++ (newer.map (report c)).toList ∧
    (Run.run MoteTeleinfo.Mote.step n' (.main :: MoteTeleinfo.Mote.events sched)).transmitted =
      n'.transmitted ++ (older.map (MoteTeleinfo.report c)).toList ∧
    (older = newer ↔ ∀ m, newer = some m → MoteTeleinfo.complete m = true) ∧
    (older ≠ none → newer ≠ none) := by
  intro newer older
  have hnewer : newer = firstMeter Latest.none (linesOf (sched.map Prod.fst)).dropLast :=
    listen_newer _
  have holder : older = firstMeter Latest.none.filled (linesOf (sched.map Prod.fst)).dropLast :=
    listen_older _
  refine ⟨Teleinfo.outbox_run hc hthread hqueue hring hstate hprompt hshort,
    MoteTeleinfo.transmitted_run hopens hprompt hshort, ?_, ?_⟩
  · rw [hnewer, holder]
    exact firstMeter_filled_iff _ _
  · rw [hnewer, holder]
    exact firstMeter_ne_none

/-- A window in which the newer program reports a negative number and the older one nothing. -/
def negativeWindow : List (UInt8 × ℕ) :=
  (Ascii.ascii "982 .\r\nBASE 014038982 .\r\nPAPP 40000 *\r\nIINST 010 X\r\n").map (·, 1)

theorem windows_agree_iff_negative :
    let n' := Run.run MoteTeleinfo.Mote.step .powerUp (List.replicate 6 .main)
    let newer := ((Carry.none : Carry Latest).listen (negativeWindow.map Prod.fst)).1
    let older := ((Carry.none : Carry Meter).listen (negativeWindow.map Prod.fst)).1
    ((Run.run Teleinfo.step .init (.enableRx 1 :: Teleinfo.events negativeWindow)).outbox =
        Teleinfo.init.outbox ++ (newer.map (report 1)).toList ∧
      (Run.run MoteTeleinfo.Mote.step n' (.main :: MoteTeleinfo.Mote.events negativeWindow)).transmitted =
        n'.transmitted ++ (older.map (MoteTeleinfo.report 1)).toList ∧
      (older = newer ↔ ∀ m, newer = some m → MoteTeleinfo.complete m = true) ∧
      (older ≠ none → newer ≠ none)) ∧
    newer = some ⟨-25536, 10, 14038982⟩ ∧ older = none := by
  refine ⟨windows_agree_iff (by decide) (by decide) rfl rfl rfl ?_ ?_ (by decide +kernel),
    by decide +kernel, by decide +kernel⟩
  · exact ⟨rfl, rfl, rfl, rfl, rfl, rfl⟩
  · intro x hx _
    obtain ⟨b, -, rfl⟩ := List.mem_map.mp hx
    exact Nat.one_pos

/-- The bytes of a window tell all of a meter, and no number is negative where it is stored. -/
def Tell (bytes : List UInt8) (m : Meter) : Prop :=
  ((Carry.none : Carry Latest).listen bytes).1 = some m ∧ MoteTeleinfo.complete m = true

instance (bytes : List UInt8) (m : Meter) : Decidable (Tell bytes m) :=
  inferInstanceAs (Decidable (_ ∧ _))

theorem Tell.older {bytes : List UInt8} {m : Meter} (h : Tell bytes m) :
    ((Carry.none : Carry Meter).listen bytes).1 = some m := by
  obtain ⟨hnewer, hcomplete⟩ := h
  rw [listen_newer] at hnewer
  rw [listen_older, ← hnewer]
  refine (firstMeter_filled_iff _ _).mpr fun m' hm' => ?_
  rw [hnewer] at hm'
  rw [← Option.some.inj hm']
  exact hcomplete

/-- The two programs agree. In runs of both whose threads keep up and whose packets are accepted, as
long as all windows have heard the same in both, and have been told all of their meters, each cycle
that is over has sent the same two meters from both nodes: the newer program behind its housekeeping
text, the older one behind its periodic text where it is due. -/
theorem programs_agree {d d' : Driver} (haccepts : d.Accepts) (haccepts' : d'.Accepts)
    (nodeId nodeId' : UInt8) (boot : Radio) (boot' : Netif) {es : List NodeTeleinfo.Program.Event}
    {es' : List MoteTeleinfo.Device.Event}
    (hup : Run.Along (NodeTeleinfo.Device.step d nodeId) NodeTeleinfo.KeepsUp
      (.start d nodeId boot) es)
    (hup' : Run.Along (MoteTeleinfo.Device.step d' nodeId') MoteTeleinfo.KeepsUp
      (.powerUp boot') es') :
    let s := Run.run (NodeTeleinfo.Device.step d nodeId) (.start d nodeId boot) es
    let s' := Run.run (MoteTeleinfo.Device.step d' nodeId') (.powerUp boot') es'
    let h := NodeTeleinfo.heard d nodeId (.start d nodeId boot) es
    let h' := MoteTeleinfo.heard d' nodeId' (.powerUp boot') es'
    ∀ k < s.cycle, k < s'.cycle →
      (∀ j ≤ k, ∀ c, c = 1 ∨ c = 2 → h' j c = h j c ∧ ∃ m, Tell (h j c) m) →
      ∃ m₁ m₂, Tell (h k 1) m₁ ∧ Tell (h k 2) m₂ ∧
        NodeTeleinfo.CycleTexts k [report 1 m₁, report 2 m₂]
          (NodeTeleinfo.texts (epoch Frame.cycle (sentFrames s.frames) k)) ∧
        MoteTeleinfo.CycleTexts k [MoteTeleinfo.report 1 m₁, MoteTeleinfo.report 2 m₂]
          (epoch Frame.cycle (sentFrames s'.frames) k) := by
  intro s s' h h' k hk hk' htell
  have hsent : sentFrames s.frames = s.frames :=
    NodeTeleinfo.Device.sentFrames_run haccepts nodeId boot es
  have hsent' : sentFrames s'.frames = s'.frames :=
    MoteTeleinfo.Device.sentFrames_run haccepts' nodeId' boot' es'
  obtain ⟨hsame₁, m₁, hm₁⟩ := htell k le_rfl 1 (.inl rfl)
  obtain ⟨hsame₂, m₂, hm₂⟩ := htell k le_rfl 2 (.inr rfl)
  rw [hsent, hsent']
  refine ⟨m₁, m₂, hm₁, hm₂, ?_, ?_⟩
  · have hnone : carryInto Latest h k = .none := carryInto_of_complete fun j hj c hc => by
      obtain ⟨-, m, hm⟩ := htell j hj.le c hc
      rw [hm.1]
      exact Option.some_ne_none m
    have hpast := NodeTeleinfo.past_of_run d nodeId boot hup hk
    dsimp only at hpast
    rw [hnone, cycleReports_of_complete hm₁.1 hm₂.1] at hpast
    exact hpast
  · have hnone : carryInto Meter h' k = .none := carryInto_of_complete fun j hj c hc => by
      obtain ⟨hsame, m, hm⟩ := htell j hj.le c hc
      rw [hsame, hm.older]
      exact Option.some_ne_none m
    have holder₁ : ((Carry.none : Carry Meter).listen (h' k 1)).1 = some m₁ := hsame₁ ▸ hm₁.older
    have holder₂ : ((Carry.none : Carry Meter).listen (h' k 2)).1 = some m₂ := hsame₂ ▸ hm₂.older
    have hpast : MoteTeleinfo.CycleTexts k ((carryInto Meter h' k).cycleReports (h' k))
        (epoch Frame.cycle s'.frames k) := (MoteTeleinfo.reached_of_run boot' hup').past hk'
    rw [hnone, cycleReports_of_complete holder₁ holder₂] at hpast
    exact hpast

theorem programs_agree_example :
    let s := Run.run (NodeTeleinfo.Device.step .plain 0x25) (.start .plain 0x25 .offAtBoot)
      NodeTeleinfo.exampleEvents
    let s' := Run.run (MoteTeleinfo.Device.step .plain 0x26) (.powerUp Radio.offAtBoot.netif)
      MoteTeleinfo.firstCycle
    ∃ m₁ m₂, NodeTeleinfo.CycleTexts 0 [report 1 m₁, report 2 m₂]
        (NodeTeleinfo.texts (epoch Frame.cycle (sentFrames s.frames) 0)) ∧
      MoteTeleinfo.CycleTexts 0 [MoteTeleinfo.report 1 m₁, MoteTeleinfo.report 2 m₂]
        (epoch Frame.cycle (sentFrames s'.frames) 0) := by
  have hnewer : Run.Along (NodeTeleinfo.Device.step .plain 0x25) NodeTeleinfo.KeepsUp
      (.start .plain 0x25 .offAtBoot) NodeTeleinfo.exampleEvents := by decide +kernel
  have holder : Run.Along (MoteTeleinfo.Device.step .plain 0x26) MoteTeleinfo.KeepsUp
      (.powerUp Radio.offAtBoot.netif) MoteTeleinfo.firstCycle := by decide +kernel
  obtain ⟨m₁, m₂, -, -, htexts⟩ := programs_agree Driver.plain_accepts Driver.plain_accepts 0x25 0x26
    .offAtBoot Radio.offAtBoot.netif hnewer holder 0 (by decide +kernel) (by decide +kernel) (by
      intro j hj c hc
      obtain rfl := Nat.le_zero.mp hj
      rcases hc with rfl | rfl
      · exact ⟨by decide +kernel, ⟨2340, 10, 14038982⟩, by decide +kernel⟩
      · exact ⟨by decide +kernel, ⟨120, 1, 7⟩, by decide +kernel⟩)
  exact ⟨m₁, m₂, htexts⟩

end OflMotes.Node
