import Mathlib.Order.Lattice.Nat
import OflMotes.Lib.Epochs
import OflMotes.Node.OnAir

/-! How often `node-teleinfo` sends: in each cycle one housekeeping frame and then the reports that
wait, of which each needs a listening window of its own. -/
namespace OflMotes.Node.NodeTeleinfo
open Program Epochs

/-- The reports that are still to be sent, with the one that may still be produced. -/
def due (s : Program) : ℕ := s.pending.length + if mayProduce s.calls then 1 else 0

/-- How many reports the opening of a window adds, and how many `data_tx` takes away. -/
def Statement.opens : Statement → ℕ
  | .enableRx _ => 1
  | _ => 0

def Statement.sends : Statement → ℕ
  | .dataTx _ => 1
  | _ => 0

section
variable {s : Program}

theorem due_mainStep (bat : Int32) :
    due (s.mainStep bat) + s.main.sends ≤ due s + s.main.opens := by
  cases hmain : s.main with
  | enableRx c =>
    simp [mainStep, hmain, due, pending, allow, Statement.sends, Statement.opens]
  | disableRx c =>
    simp [mainStep, hmain, due, pending, Statement.sends, Statement.opens]
    split_ifs <;> rfl
  | housekeeping => simp [mainStep, hmain, due, pending, allow, Statement.sends, Statement.opens]
  | msgTryReceive =>
    cases hqueue : s.msgQueue <;>
      simp [mainStep, hmain, hqueue, due, pending, Statement.sends, Statement.opens]
  | dataTx ptr =>
    simp only [mainStep, hmain, due, pending, mayProduce_append, allow, Statement.sends,
      Statement.opens, List.length_append, List.length_cons, List.length_nil]
    omega
  | free ptr => simp [mainStep, hmain, due, pending, allow, Statement.sends, Statement.opens]
  | hibernate => simp [mainStep, hmain, due, pending, Statement.sends, Statement.opens]

/-- A report that is produced was due before. -/
theorem due_teleinfoRun (h : Paced s) : due s.teleinfoRun = due s := by
  have hqueue := h.queue_length
  cases hproduces : s.teleinfo.produces with
  | none =>
    have hrun : s.teleinfoRun = { s with teleinfo := s.teleinfo.run } := by
      simp only [teleinfoRun, h.unblocked, hproduces, Bool.false_eq_true, if_false]
    rw [hrun]
    rfl
  | some text =>
    have hmay : mayProduce s.calls = true := by
      by_contra hno
      exact (h.quiet (by simpa using hno)).not_handling (Teleinfo.produces_eq_some hproduces).1
    rw [teleinfoRun_some h.unblocked hproduces (by omega)]
    simp [due, pending, allow, hmay]
    omega

end

/-- The frames of a cycle: the housekeeping frame with its number, and at most three reports. -/
def IsCycle (k : ℕ) (fs : List Frame) : Prop :=
  ∃ f rs, fs = f :: rs ∧ (∃ bat, f.payload = some (housekeeping bat (UInt16.ofNat k))) ∧
    (∀ g ∈ rs, ∃ text, g.payload = some text ∧ IsReport text) ∧ rs.length ≤ 3

theorem IsCycle.append {k : ℕ} {fs : List Frame} (h : IsCycle k fs) {g : Frame}
    (hg : ∃ text, g.payload = some text ∧ IsReport text) (hlen : fs.length ≤ 3) :
    IsCycle k (fs ++ [g]) := by
  obtain ⟨f, rs, rfl, hf, hrs, -⟩ := h
  refine ⟨f, rs ++ [g], rfl, hf, ?_, ?_⟩
  · intro g' hg'
    rcases List.mem_append.mp hg' with hg' | hg'
    · exact hrs g' hg'
    · exact List.mem_singleton.mp hg' ▸ hg
  · rw [List.length_cons] at hlen
    rw [List.length_append, List.length_singleton]
    exact hlen

/-- The frames that the windows and the housekeeping of a cycle have made room for so far. -/
def Statement.earned : Statement → ℕ
  | .enableRx c => c.toNat - 1
  | .disableRx c => c.toNat
  | .housekeeping => 2
  | _ => 3

/-- Where the frames stand in front of a statement of `main`. -/
structure Rationed (s : Device) : Prop where
  log : UpTo Frame.cycle s.cycle s.frames
  past : ∀ k < s.cycle, IsCycle k (epoch Frame.cycle s.frames k)
  silent : s.program.main.sending = false → epoch Frame.cycle s.frames s.cycle = []
  current : s.program.main.sending = true → IsCycle s.cycle (epoch Frame.cycle s.frames s.cycle)
  room : s.program.main.sending = true → s.program.main ≠ .hibernate →
    (epoch Frame.cycle s.frames s.cycle).length + due s.program ≤ 4
  total : s.frames.length + due s.program ≤ 3 * s.cycle + s.program.main.earned

section
variable (d : Driver) (nodeId : UInt8) {s : Device}

/-- A step that sends no frame, within a cycle. -/
theorem Rationed.of_same {t : Device} (h : Rationed s) (hframes : t.frames = s.frames)
    (hcycle : t.cycle = s.cycle) (hsending : t.program.main.sending = s.program.main.sending)
    (hhibernate : s.program.main = .hibernate → t.program.main = .hibernate)
    (hdue : due t.program + s.program.main.earned ≤ due s.program + t.program.main.earned)
    (hroom : s.program.main.sending = true → due t.program ≤ due s.program) : Rationed t := by
  refine ⟨?_, ?_, ?_, ?_, ?_, ?_⟩
  · rw [hframes, hcycle]
    exact h.log
  · rw [hframes, hcycle]
    exact h.past
  · rw [hframes, hcycle, hsending]
    exact h.silent
  · rw [hframes, hcycle, hsending]
    exact h.current
  · rw [hframes, hcycle, hsending]
    intro hs hne
    have := h.room hs fun he => hne (hhibernate he)
    have := hroom hs
    omega
  · have := h.total
    rw [hframes, hcycle]
    omega

/-- A step that sends a frame of the current cycle. -/
theorem Rationed.of_sent {t : Device} {f : Frame} (h : Rationed s) (hf : f.cycle = s.cycle)
    (hframes : t.frames = s.frames ++ [f]) (hcycle : t.cycle = s.cycle)
    (hsending : t.program.main.sending = true) (hearned : t.program.main.earned = 3)
    (hcurrent : IsCycle s.cycle (epoch Frame.cycle s.frames s.cycle ++ [f]))
    (hroom : (epoch Frame.cycle s.frames s.cycle).length + 1 + due t.program ≤ 4)
    (htotal : s.frames.length + 1 + due t.program ≤ 3 * s.cycle + 3) : Rationed t := by
  have hself : epoch Frame.cycle (s.frames ++ [f]) s.cycle =
      epoch Frame.cycle s.frames s.cycle ++ [f] := by
    rw [← hf]
    exact epoch_append_self
  refine ⟨?_, ?_, ?_, ?_, ?_, ?_⟩
  · rw [hframes, hcycle]
    exact h.log.append hf
  · rw [hframes, hcycle]
    intro k hk
    rw [epoch_append_of_ne (by omega)]
    exact h.past k hk
  · rw [hsending]
    exact fun hs => by contradiction
  · rw [hframes, hcycle, hself]
    exact fun _ => hcurrent
  · rw [hframes, hcycle, hself, List.length_append]
    exact fun _ _ => hroom
  · rw [hframes, hcycle, hearned, List.length_append]
    exact htotal

/-- A window that opens may bring one more report. -/
theorem rationed_enableRx (h : Rationed s) (hkept : Kept s) {c : UInt8}
    (hmain : s.program.main = .enableRx c) (bat : Int32) :
    Rationed (s.mainStep d nodeId bat) := by
  have hdue := due_mainStep (s := s.program) bat
  have hc := hkept.paced.window c (.inl hmain)
  have hnext := main_enableRx bat hmain
  rw [Device.mainStep_of_ne (by simp [hmain]) (by simp [hmain]) (by simp [hmain])]
  rw [hmain] at hdue
  refine h.of_same rfl rfl ?_ ?_ ?_ ?_
  · rw [hnext, hmain]
    rfl
  · simp [hmain]
  · rw [hnext, hmain]
    rcases hc with rfl | rfl
    · exact hdue
    · exact Nat.add_le_add_right hdue 1
  · simp [hmain, Statement.sending]

theorem rationed_disableRx (h : Rationed s) (hkept : Kept s) {c : UInt8}
    (hmain : s.program.main = .disableRx c) (bat : Int32) :
    Rationed (s.mainStep d nodeId bat) := by
  have hdue := due_mainStep (s := s.program) bat
  have hc := hkept.paced.window c (.inr hmain)
  have hnext := main_disableRx bat hmain
  rw [Device.mainStep_of_ne (by simp [hmain]) (by simp [hmain]) (by simp [hmain])]
  rw [hmain] at hdue
  refine h.of_same rfl rfl ?_ ?_ ?_ ?_
  · rw [hnext, hmain]
    split_ifs <;> rfl
  · simp [hmain]
  · rw [hnext, hmain]
    rcases hc with rfl | rfl
    · exact Nat.add_le_add_right hdue 1
    · exact Nat.add_le_add_right hdue 2
  · simp [hmain, Statement.sending]

/-- While `main` waits for the modem, nothing is sent. -/
theorem rationed_waits (h : Rationed s) (hwaits : s.Waits d) (bat : Int32) :
    Rationed (s.mainStep d nodeId bat) := by
  rw [Device.mainStep_waits hwaits]
  exact h.of_same rfl rfl rfl id le_rfl fun _ => le_rfl

/-- The housekeeping frame is the first of its cycle. -/
theorem rationed_housekeeping (h : Rationed s) (hkept : Kept s)
    (hmain : s.program.main = .housekeeping) (hwaits : ¬ s.Waits d) (bat : Int32) :
    Rationed (s.mainStep d nodeId bat) := by
  have hdue := due_mainStep (s := s.program) bat
  have htotal := h.total
  have hroom : due s.program ≤ 3 := by
    have hpaced := hkept.paced.room
    rw [hmain] at hpaced
    simpa [due, pending, hmain, slack] using hpaced
  have hnext := main_housekeeping bat hmain
  have hempty := h.silent (by rw [hmain]; rfl)
  have hsent := (housekeeping_sendable bat s.program.loopCntr).2
  rw [hmain] at hdue htotal
  replace hdue : due (s.program.mainStep bat) ≤ due s.program := hdue
  replace htotal : s.frames.length + due s.program ≤ 3 * s.cycle + 2 := htotal
  rw [Device.mainStep_housekeeping hmain hwaits]
  refine h.of_sent rfl rfl rfl ?_ ?_ ?_ ?_ ?_
  · rw [hnext]
    rfl
  · rw [hnext]
    rfl
  · rw [hempty]
    refine ⟨_, [], rfl, ⟨bat, ?_⟩, by simp, by simp⟩
    rw [← hkept.counted, Device.frame, Option.map_some, hsent]
  · rw [hempty]
    show 0 + 1 + due (s.program.mainStep bat) ≤ 4
    omega
  · show s.frames.length + 1 + due (s.program.mainStep bat) ≤ 3 * s.cycle + 3
    omega

theorem rationed_msgTryReceive (h : Rationed s) (hmain : s.program.main = .msgTryReceive)
    (bat : Int32) : Rationed (s.mainStep d nodeId bat) := by
  have hdue := due_mainStep (s := s.program) bat
  rw [Device.mainStep_of_ne (by simp [hmain]) (by simp [hmain]) (by simp [hmain])]
  rw [hmain] at hdue
  have hnext : (s.program.mainStep bat).main.sending = true ∧
      (s.program.mainStep bat).main.earned = 3 := by
    cases hqueue : s.program.msgQueue <;> simp only [mainStep, hmain, hqueue] <;> exact ⟨rfl, rfl⟩
  refine h.of_same rfl rfl ?_ ?_ ?_ ?_
  · rw [hnext.1, hmain]
    rfl
  · simp [hmain]
  · rw [hnext.2, hmain]
    exact Nat.add_le_add_right hdue 3
  · exact fun _ => hdue

/-- A report that is sent was due. -/
theorem rationed_dataTx (h : Rationed s) (hkept : Kept s) {ptr : ℕ}
    (hmain : s.program.main = .dataTx ptr) (bat : Int32) :
    Rationed (s.mainStep d nodeId bat) := by
  have hdue := due_mainStep (s := s.program) bat
  have htotal := h.total
  have hpending : ptr ∈ s.program.pending := by simp [pending, hmain]
  obtain ⟨text, htext, hheap⟩ := hkept.handed.heap_eq hpending
  have hreport := hkept.labelled.reports text htext
  have hsent : (transmit text).payload = text := by
    rw [(tells_sendable s.cycle (.inl hreport)).2]
  have hroom := h.room (by rw [hmain]; rfl) (by simp [hmain])
  have hnext := main_dataTx bat hmain
  have hone : 1 ≤ due s.program := by
    rw [due, pending, hmain]
    simp
    omega
  rw [hmain] at hdue htotal
  replace hdue : due (s.program.mainStep bat) + 1 ≤ due s.program := hdue
  replace htotal : s.frames.length + due s.program ≤ 3 * s.cycle + 3 := htotal
  rw [Device.mainStep_dataTx hmain, hheap]
  refine h.of_sent rfl rfl rfl ?_ ?_ ?_ ?_ ?_
  · rw [hnext]
    rfl
  · rw [hnext]
    rfl
  · refine (h.current (by rw [hmain]; rfl)).append ⟨text, ?_, hreport⟩ (by omega)
    rw [Device.frame, Option.map_some, hsent]
  · show (epoch Frame.cycle s.frames s.cycle).length + 1 + due (s.program.mainStep bat) ≤ 4
    omega
  · show s.frames.length + 1 + due (s.program.mainStep bat) ≤ 3 * s.cycle + 3
    omega

theorem rationed_free (h : Rationed s) {ptr : ℕ} (hmain : s.program.main = .free ptr)
    (bat : Int32) : Rationed (s.mainStep d nodeId bat) := by
  have hdue := due_mainStep (s := s.program) bat
  rw [Device.mainStep_of_ne (by simp [hmain]) (by simp [hmain]) (by simp [hmain])]
  rw [hmain] at hdue
  have hnext := main_free bat hmain
  refine h.of_same rfl rfl ?_ ?_ ?_ ?_
  · rw [hnext, hmain]
    rfl
  · simp [hmain]
  · rw [hnext, hmain]
    exact Nat.add_le_add_right hdue 3
  · exact fun _ => hdue

theorem rationed_hibernate (h : Rationed s) (hmain : s.program.main = .hibernate)
    (bat : Int32) : Rationed (s.mainStep d nodeId bat) := by
  have hdue := due_mainStep (s := s.program) bat
  have htotal := h.total
  have hnext := main_hibernate bat hmain
  have hcurrent := h.current (by rw [hmain]; rfl)
  rw [hmain] at hdue htotal
  replace hdue : due (s.program.mainStep bat) ≤ due s.program := hdue
  replace htotal : s.frames.length + due s.program ≤ 3 * s.cycle + 3 := htotal
  rw [Device.mainStep_hibernate hmain]
  refine ⟨h.log.mono (Nat.le_succ _), fun k hk => ?_, fun _ => h.log.epoch_eq_nil (Nat.lt_succ_self _),
    fun hs => ?_, fun hs => ?_, ?_⟩
  · rcases Nat.lt_succ_iff_lt_or_eq.mp hk with hk | rfl
    · exact h.past k hk
    · exact hcurrent
  · rw [hnext] at hs
    contradiction
  · rw [hnext] at hs
    contradiction
  · rw [hnext]
    show s.frames.length + due (s.program.mainStep bat) ≤ 3 * (s.cycle + 1) + 0
    omega

theorem rationed_mainStep (h : Rationed s) (hkept : Kept s) (bat : Int32) :
    Rationed (s.mainStep d nodeId bat) := by
  cases hmain : s.program.main with
  | enableRx c => exact rationed_enableRx d nodeId h hkept hmain bat
  | disableRx c => exact rationed_disableRx d nodeId h hkept hmain bat
  | housekeeping =>
    by_cases hwaits : s.Waits d
    · exact rationed_waits d nodeId h hwaits bat
    · exact rationed_housekeeping d nodeId h hkept hmain hwaits bat
  | msgTryReceive => exact rationed_msgTryReceive d nodeId h hmain bat
  | dataTx ptr => exact rationed_dataTx d nodeId h hkept hmain bat
  | free ptr => exact rationed_free d nodeId h hmain bat
  | hibernate => exact rationed_hibernate d nodeId h hmain bat

theorem rationed_step (h : Rationed s) (hkept : Kept s) (e : Program.Event) :
    Rationed (s.step d nodeId e) := by
  cases e with
  | main bat => exact rationed_mainStep d nodeId h hkept bat
  | rx data => exact h.of_same rfl rfl rfl id le_rfl fun _ => le_rfl
  | run =>
    have hmain : s.program.teleinfoRun.main = s.program.main := (teleinfoRun_eq hkept.paced).2.1
    have hdue := due_teleinfoRun hkept.paced
    refine h.of_same rfl rfl (congrArg Statement.sending hmain) (fun hs => hmain.trans hs) ?_ ?_
    · show due s.program.teleinfoRun + _ ≤ _ + s.program.teleinfoRun.main.earned
      rw [hdue, hmain]
    · exact fun _ => hdue.le

theorem rationed_start (boot : Radio) : Rationed (.start d nodeId boot) := by
  refine ⟨upTo_nil, ?_, fun _ => rfl, fun hs => ?_, fun hs => ?_, ?_⟩
  · intro k hk
    exact absurd hk (Nat.not_lt_zero k)
  · contradiction
  · contradiction
  · exact Nat.zero_le _

/-- The device keeps to its share of the air. In every run, in whatever order the bytes and the two
threads come, each cycle that is over has handed its housekeeping frame to `data_tx`, with the number
of the cycle in it, and after it at most three reports; the frames of the cycles are all the frames,
in order; and since a report needs a window, there are never more than three frames a cycle on the
average. Where every packet is accepted, these are the frames that leave the node. -/
theorem frames_by_cycles (boot : Radio) (es : List Program.Event) :
    let s := Run.run (Device.step d nodeId) (.start d nodeId boot) es
    (∀ k < s.cycle, IsCycle k (epoch Frame.cycle s.frames k)) ∧
    (epoch Frame.cycle s.frames s.cycle = [] ∨
      IsCycle s.cycle (epoch Frame.cycle s.frames s.cycle)) ∧
    (List.range (s.cycle + 1)).flatMap (epoch Frame.cycle s.frames) = s.frames ∧
    s.frames.length ≤ 3 * (s.cycle + 1) ∧
    (d.Accepts → sentFrames s.frames = s.frames) := by
  intro s
  have hboth : Rationed s ∧ Kept s := by
    refine Run.run_invariant (I := fun s => Rationed s ∧ Kept s) ?_
      ⟨rationed_start d nodeId boot, kept_start d nodeId boot⟩ es
    rintro s e ⟨h, hkept⟩
    exact ⟨rationed_step d nodeId h hkept e, kept_step d nodeId hkept e⟩
  obtain ⟨h, hkept⟩ := hboth
  refine ⟨h.past, ?_, h.log.flatMap_epoch, ?_,
    fun haccepts => Device.sentFrames_run haccepts nodeId boot es⟩
  · cases hsending : s.program.main.sending with
    | false => exact .inl (h.silent hsending)
    | true => exact .inr (h.current hsending)
  · have hearned : s.program.main.earned ≤ 3 := by
      cases hmain : s.program.main with
      | enableRx c => rcases hkept.paced.window c (.inl hmain) with rfl | rfl <;> decide
      | disableRx c => rcases hkept.paced.window c (.inr hmain) with rfl | rfl <;> decide
      | housekeeping => decide
      | _ => exact le_rfl
    have := h.total
    omega

end

def isMain : Program.Event → Bool
  | .main _ => true
  | _ => false

/-- The statements of `main` up to the end of the cycle, without those for the reports. -/
def Statement.left : Statement → ℕ
  | .enableRx c => if c = 1 then 7 else 5
  | .disableRx c => if c = 1 then 6 else 4
  | .housekeeping => 3
  | .msgTryReceive => 2
  | .dataTx _ => 1
  | .free _ => 3
  | .hibernate => 1

/-- The windows that are still to be opened in the cycle. -/
def Statement.unopened : Statement → ℕ
  | .enableRx c => if c = 1 then 2 else 1
  | .disableRx c => if c = 1 then 1 else 0
  | _ => 0

/-- How many statements there can at most be up to the end of the cycle: three for each report. -/
def rank (s : Program) : ℕ := s.main.left + 3 * (due s + s.main.unopened)

section
variable {s : Program}

/-- Where the next statement stands, with the window that is opened and the report that is sent. -/
theorem left_mainStep (h : Paced s) (hmain : s.main ≠ .hibernate) (bat : Int32) :
    (s.mainStep bat).main.left + 3 * ((s.mainStep bat).main.unopened + s.main.opens) + 1 ≤
      s.main.left + 3 * (s.main.unopened + s.main.sends) := by
  cases hm : s.main with
  | enableRx c =>
    have hnext := main_enableRx bat hm
    rw [hnext]
    rcases h.window c (.inl hm) with rfl | rfl <;> decide
  | disableRx c =>
    have hnext := main_disableRx bat hm
    rw [hnext]
    rcases h.window c (.inr hm) with rfl | rfl <;> decide
  | housekeeping =>
    have hnext := main_housekeeping bat hm
    rw [hnext]
    decide
  | msgTryReceive =>
    cases hqueue : s.msgQueue with
    | nil =>
      have hnext := main_msgTryReceive_nil bat hm hqueue
      rw [hnext]
      decide
    | cons ptr queue =>
      have hnext := main_msgTryReceive_cons bat hm hqueue
      rw [hnext]
      exact le_rfl
  | dataTx ptr =>
    have hnext := main_dataTx bat hm
    rw [hnext]
    exact le_rfl
  | free ptr =>
    have hnext := main_free bat hm
    rw [hnext]
    exact le_rfl
  | hibernate => exact absurd hm hmain

theorem rank_mainStep (h : Paced s) (hmain : s.main ≠ .hibernate) (bat : Int32) :
    rank (s.mainStep bat) + 1 ≤ rank s := by
  have hdue := due_mainStep (s := s) bat
  have hleft := left_mainStep h hmain bat
  unfold rank
  omega

theorem rank_pos (s : Program) : 1 ≤ rank s := by
  have hleft : 1 ≤ s.main.left := by
    cases s.main with
    | enableRx c => dsimp only [Statement.left]; split_ifs <;> decide
    | disableRx c => dsimp only [Statement.left]; split_ifs <;> decide
    | housekeeping => decide
    | msgTryReceive => decide
    | dataTx ptr => exact le_rfl
    | free ptr => exact Nat.le_add_left 1 2
    | hibernate => exact le_rfl
  exact hleft.trans (Nat.le_add_right _ _)

theorem pending_length (s : Program) : s.pending.length = s.main.sends + s.msgQueue.length := by
  unfold pending
  cases s.main with
  | dataTx ptr => exact (List.length_append).trans rfl
  | _ => exact (Nat.zero_add _).symm

/-- The room for reports that the windows leave, in statements: at most sixteen in a cycle. -/
theorem left_add_slack_le (h : Paced s) :
    s.main.left + 3 * (s.main.sends + slack s.main + s.main.unopened) ≤ 16 := by
  cases hm : s.main with
  | enableRx c => rcases h.window c (.inl hm) with rfl | rfl <;> decide
  | disableRx c => rcases h.window c (.inr hm) with rfl | rfl <;> decide
  | housekeeping => decide
  | msgTryReceive => decide
  | dataTx ptr => exact Nat.le_add_right 13 3
  | free ptr => exact Nat.le_add_right 12 4
  | hibernate => decide

theorem rank_le (h : Paced s) : rank s ≤ 16 := by
  have hroom := h.room
  have hleft := left_add_slack_le h
  unfold rank due
  rw [pending_length]
  omega

end

/-- The rounds of the loop in `radio_on` that are still to come in the cycle, where the interrupt line
is low at least once in `w + 1` polls. -/
noncomputable def pollsLeft (d : Driver) (w : ℕ) (s : Device) : ℕ :=
  match s.program.main with
  | .enableRx _ => w
  | .disableRx _ => w
  | .housekeeping => sInf {k | d.irqPin (s.polls + k) = false}
  | _ => 0

section
variable {d : Driver} {w : ℕ} {s t : Device}

theorem pollsLeft_congr (hmain : t.program.main = s.program.main) (hpolls : t.polls = s.polls) :
    pollsLeft d w t = pollsLeft d w s := by
  rw [pollsLeft, pollsLeft, hmain, hpolls]

theorem pollsLeft_of_window {c : UInt8}
    (hmain : s.program.main = .enableRx c ∨ s.program.main = .disableRx c) :
    pollsLeft d w s = w := by
  rcases hmain with hmain | hmain <;> rw [pollsLeft, hmain]

theorem pollsLeft_housekeeping (hmain : s.program.main = .housekeeping) :
    pollsLeft d w s = sInf {k | d.irqPin (s.polls + k) = false} := by
  rw [pollsLeft, hmain]

end

section
variable {d : Driver} {w : ℕ} (hwakes : d.Wakes w) (nodeId : UInt8) {s : Device}
include hwakes

theorem pollsLeft_le (s : Device) : pollsLeft d w s ≤ w := by
  cases hmain : s.program.main with
  | enableRx c => exact (pollsLeft_of_window (.inl hmain)).le
  | disableRx c => exact (pollsLeft_of_window (.inr hmain)).le
  | housekeeping =>
    obtain ⟨k, hk, hlow⟩ := hwakes s.polls
    rw [pollsLeft_housekeeping hmain]
    exact (Nat.sInf_le hlow).trans hk
  | _ =>
    rw [pollsLeft, hmain]
    exact Nat.zero_le w

/-- A poll that finds the line high is one of those that were still to come. -/
theorem pollsLeft_of_waits (h : s.Waits d) (bat : Int32) :
    pollsLeft d w (s.mainStep d nodeId bat) + 1 = pollsLeft d w s := by
  obtain ⟨hmain, -, hhigh⟩ := id h
  obtain ⟨k, -, hlow⟩ := hwakes s.polls
  have hne : {k | d.irqPin (s.polls + k) = false}.Nonempty := ⟨k, hlow⟩
  have hpos : 1 ≤ sInf {k | d.irqPin (s.polls + k) = false} := by
    refine Nat.one_le_iff_ne_zero.mpr fun hzero => ?_
    have hmem := Nat.sInf_mem hne
    rw [hzero] at hmem
    exact Bool.false_ne_true ((show _ = false from hmem).symm.trans hhigh)
  have hafter : pollsLeft d w (s.mainStep d nodeId bat) =
      sInf {k | d.irqPin (s.polls + (k + 1)) = false} := by
    rw [Device.mainStep_waits h]
    simp only [Nat.add_comm _ 1, ← Nat.add_assoc]
    exact pollsLeft_housekeeping hmain
  rw [hafter, pollsLeft_housekeeping hmain]
  exact Nat.sInf_add hpos

/-- Any other statement only ever comes closer to the loop, or leaves it behind. -/
theorem pollsLeft_mainStep (hwaits : ¬ s.Waits d) (hmain : s.program.main ≠ .hibernate) (bat : Int32) :
    pollsLeft d w (s.mainStep d nodeId bat) ≤ pollsLeft d w s := by
  have hprogram : (s.mainStep d nodeId bat).program = s.program.mainStep bat :=
    (s.step_program d nodeId (.main bat)).resolve_right fun h => hwaits h.1
  have hle := pollsLeft_le hwakes (s.mainStep d nodeId bat)
  cases hm : s.program.main with
  | enableRx c =>
    rw [pollsLeft_of_window (.inl hm)]
    exact hle
  | disableRx c =>
    rw [pollsLeft_of_window (.inr hm)]
    exact hle
  | housekeeping =>
    have hnext := main_housekeeping bat hm
    rw [pollsLeft, hprogram, hnext]
    exact Nat.zero_le _
  | msgTryReceive =>
    have hnext : (s.program.mainStep bat).main = .hibernate ∨
        ∃ ptr, (s.program.mainStep bat).main = .dataTx ptr := by
      cases hqueue : s.program.msgQueue with
      | nil => exact .inl (main_msgTryReceive_nil bat hm hqueue)
      | cons ptr queue => exact .inr ⟨ptr, main_msgTryReceive_cons bat hm hqueue⟩
    rw [pollsLeft, hprogram]
    rcases hnext with hnext | ⟨ptr, hnext⟩ <;> rw [hnext] <;> exact Nat.zero_le _
  | dataTx ptr =>
    rw [pollsLeft, hprogram, main_dataTx bat hm]
    exact Nat.zero_le _
  | free ptr =>
    rw [pollsLeft, hprogram, main_free bat hm]
    exact Nat.zero_le _
  | hibernate => exact absurd hm hmain

omit hwakes in
theorem cycle_mainStep (hmain : s.program.main ≠ .hibernate) (bat : Int32) :
    (s.mainStep d nodeId bat).cycle = s.cycle := by
  cases hm : s.program.main with
  | hibernate => exact absurd hm hmain
  | housekeeping =>
    by_cases hwaits : s.Waits d
    · rw [Device.mainStep_waits hwaits]
    · rw [Device.mainStep_housekeeping hm hwaits]
      rfl
  | dataTx ptr =>
    rw [Device.mainStep_dataTx hm]
    rfl
  | _ => rw [Device.mainStep_of_ne (by simp [hm]) (by simp [hm]) (by simp [hm])]

/-- How many statements and rounds there can at most be up to the end of the cycle. -/
noncomputable def Device.rank (d : Driver) (w : ℕ) (s : Device) : ℕ :=
  NodeTeleinfo.rank s.program + pollsLeft d w s

/-- A statement of `main` goes one step down in its cycle, or ends it; the bytes and the thread do
neither. -/
theorem rank_step (h : Kept s) (e : Program.Event) :
    (16 + w) * s.cycle + (s.step d nodeId e).rank d w + [e].countP isMain ≤
      (16 + w) * (s.step d nodeId e).cycle + s.rank d w := by
  cases e with
  | main bat =>
    show (16 + w) * s.cycle + (s.mainStep d nodeId bat).rank d w + 1 ≤
      (16 + w) * (s.mainStep d nodeId bat).cycle + s.rank d w
    by_cases hwaits : s.Waits d
    · have hdown := pollsLeft_of_waits hwakes nodeId hwaits bat
      have hsame : (s.mainStep d nodeId bat).program = s.program := by
        rw [Device.mainStep_waits hwaits]
      rw [cycle_mainStep nodeId (by rw [hwaits.1]; simp), Device.rank, Device.rank, hsame]
      omega
    · have hprogram : (s.mainStep d nodeId bat).program = s.program.mainStep bat :=
        (s.step_program d nodeId (.main bat)).resolve_right fun h => hwaits h.1
      rw [Device.rank, Device.rank, hprogram]
      by_cases hmain : s.program.main = .hibernate
      · have hcycle : (s.mainStep d nodeId bat).cycle = s.cycle + 1 := by
          rw [Device.mainStep_hibernate hmain]
        have hnext := rank_le (paced_mainStep h.paced bat)
        have hnext' := pollsLeft_le hwakes (s.mainStep d nodeId bat)
        have hpos := rank_pos s.program
        rw [hcycle, Nat.mul_succ]
        omega
      · have hdown := rank_mainStep h.paced hmain bat
        have hdown' := pollsLeft_mainStep hwakes nodeId hwaits hmain bat
        rw [cycle_mainStep nodeId hmain]
        omega
  | rx data => exact le_rfl
  | run =>
    have hsame : rank s.program.teleinfoRun = rank s.program := by
      rw [rank, rank, (teleinfoRun_eq h.paced).2.1, due_teleinfoRun h.paced]
    have hsame' : pollsLeft d w (s.step d nodeId .run) = pollsLeft d w s :=
      pollsLeft_congr (teleinfoRun_eq h.paced).2.1 rfl
    have hrank : (s.step d nodeId .run).rank d w = s.rank d w :=
      congrArg₂ (· + ·) hsame hsame'
    show (16 + w) * s.cycle + (s.step d nodeId .run).rank d w ≤ (16 + w) * s.cycle + s.rank d w
    rw [hrank]

/-- Every cycle ends, where the modem answers: where its interrupt line is low at least once in
`w + 1` polls. From any state that is reached, in whatever order the bytes and the two threads come, a
cycle is over for each `16 + w` statements and polls of `main`: the loop that takes the reports cannot
be kept going by new ones. -/
theorem cycles_end (boot : Radio) (es fs : List Program.Event) :
    let s := Run.run (Device.step d nodeId) (.start d nodeId boot) es
    let t := Run.run (Device.step d nodeId) (.start d nodeId boot) (es ++ fs)
    s.cycle + fs.countP isMain / (16 + w) ≤ t.cycle := by
  intro s t
  have hkept : Kept s :=
    Run.run_invariant (I := Kept) (fun _ e h => kept_step d nodeId h e) (kept_start d nodeId boot) es
  have hrun : t = Run.run (Device.step d nodeId) s fs := Run.run_append _ _ es fs
  have hcount : (16 + w) * s.cycle + t.rank d w + fs.countP isMain ≤
      (16 + w) * t.cycle + s.rank d w := by
    rw [hrun]
    exact Run.countP_run_le (I := Kept) (fun s => (16 + w) * s.cycle) (Device.rank d w)
      (fun _ e h => kept_step d nodeId h e) (fun _ e h => rank_step hwakes nodeId h e) hkept fs
  have hfirst : s.rank d w ≤ 16 + w := Nat.add_le_add (rank_le hkept.paced) (pollsLeft_le hwakes s)
  have hlast : 1 ≤ t.rank d w := (rank_pos t.program).trans (Nat.le_add_right _ _)
  have hlt : (16 + w) * s.cycle + fs.countP isMain < (16 + w) * (t.cycle + 1) := by
    rw [Nat.mul_succ]
    omega
  rw [← Nat.mul_add_div (by omega)]
  exact Nat.le_of_lt_succ (Nat.div_lt_of_lt_mul hlt)

end

/-- A cycle for each 17 statements and polls, where every other poll finds the line low. -/
theorem cycles_end_plain :
    Driver.plain.Wakes 1 ∧
    2 ≤ (Run.run (Device.step .plain 0x25) (.start .plain 0x25 .offAtBoot)
      (List.replicate 5 .run ++ List.replicate 34 (.main 2661))).cycle :=
  ⟨Driver.plain_wakes,
    cycles_end Driver.plain_wakes 0x25 .offAtBoot (List.replicate 5 .run)
      (List.replicate 34 (.main 2661))⟩

end OflMotes.Node.NodeTeleinfo
