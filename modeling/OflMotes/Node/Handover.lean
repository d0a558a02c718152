import OflMotes.Lib.Run
import OflMotes.Node.NodeTeleinfo

/-! How reports get from `teleinfo_run` to the radio: each buffer has one owner at a time, and the
queue of `main` never fills, because a report needs an `enableRx` of its own. -/
namespace OflMotes.Node.NodeTeleinfo
open Program

/-- Sent and pending reports are the reports produced, in order, and still as they were written;
what was sent is freed in the same order. -/
structure Handed (s : Program) : Prop where
  numbered : s.produced.map Prod.fst = List.range s.allocated
  handed : s.sent ++ s.pending.map (fun ptr => (ptr, s.heap ptr)) =
    s.produced.map (Prod.map id some)
  freed : s.freed ++ s.toFree = s.sent.map Prod.fst
  texts : s.produced.map Prod.snd = s.teleinfo.outbox

theorem handed_start : Handed start := ⟨rfl, rfl, rfl, rfl⟩

section
variable {s t : Program}

/-- A step that concerns no report. -/
theorem Handed.of_same (h : Handed s) (hproduced : t.produced = s.produced)
    (hsent : t.sent = s.sent) (hfreed : t.freed = s.freed) (hpending : t.pending = s.pending)
    (htoFree : t.toFree = s.toFree) (hheap : t.heap = s.heap) (hallocated : t.allocated = s.allocated)
    (houtbox : t.teleinfo.outbox = s.teleinfo.outbox) : Handed t :=
  ⟨by rw [hproduced, hallocated, h.numbered], by rw [hsent, hpending, hheap, hproduced, h.handed],
    by rw [hfreed, htoFree, hsent, h.freed], by rw [hproduced, houtbox, h.texts]⟩

theorem Handed.pointers (h : Handed s) :
    s.sent.map Prod.fst ++ s.pending = List.range s.allocated := by
  have hptr := congrArg (List.map Prod.fst) h.handed
  rw [List.map_append, List.map_map, List.map_map] at hptr
  simpa [Function.comp_def, ← h.numbered] using hptr

/-- No buffer is pending that was sent, or that is not allocated yet. -/
theorem Handed.not_sent (h : Handed s) {ptr : ℕ} (hptr : ptr ∈ s.pending) :
    ptr ∉ s.sent.map Prod.fst ∧ ptr < s.allocated := by
  have hnodup := List.nodup_range (n := s.allocated)
  have hmem : ptr ∈ List.range s.allocated := by
    rw [← h.pointers]
    exact List.mem_append_right _ hptr
  rw [← h.pointers] at hnodup
  exact ⟨fun hs => (List.disjoint_of_nodup_append hnodup) hs hptr, List.mem_range.mp hmem⟩

theorem handed_dataTx (h : Handed s) {ptr : ℕ} (hmain : s.main = .dataTx ptr) (bat : Int32) :
    Handed (s.mainStep bat) := by
  have hpending : s.pending = ptr :: s.msgQueue := by rw [pending, hmain]; rfl
  have hhanded := h.handed
  have hfreed := h.freed
  rw [hpending] at hhanded
  rw [toFree, hmain] at hfreed
  simp only [mainStep, hmain]
  refine ⟨?_, ?_, ?_, ?_⟩
  · simpa [produced, Call.produced, List.filterMap_cons] using h.numbered
  · simpa [produced, sent, pending, Call.produced, Call.sent, List.filterMap_cons] using hhanded
  · simpa [freed, sent, toFree, Call.freed, Call.sent, List.filterMap_cons] using hfreed
  · simpa [produced, Call.produced, List.filterMap_cons] using h.texts

/-- A buffer that is freed is read no more. -/
theorem handed_free (h : Handed s) {ptr : ℕ} (hmain : s.main = .free ptr) (bat : Int32) :
    Handed (s.mainStep bat) := by
  have hpending : s.pending = s.msgQueue := by rw [pending, hmain]; rfl
  have htoFree : s.toFree = [ptr] := by rw [toFree, hmain]
  have hsent : ptr ∈ s.sent.map Prod.fst := by
    rw [← h.freed, htoFree]
    simp
  have hheap : s.msgQueue.map (fun q => (q, Function.update s.heap ptr none q)) =
      s.pending.map fun q => (q, s.heap q) := by
    rw [hpending]
    apply List.map_congr_left
    intro q hq
    have hne : q ≠ ptr := by
      rintro rfl
      exact (h.not_sent (by rw [hpending]; exact hq)).1 hsent
    rw [Function.update_of_ne hne]
  have hfreed := h.freed
  rw [htoFree] at hfreed
  simp only [mainStep, hmain]
  refine ⟨?_, ?_, ?_, ?_⟩
  · simpa [produced, Call.produced, List.filterMap_cons] using h.numbered
  · have hhanded := h.handed
    rw [← hheap] at hhanded
    simpa [produced, sent, pending, Call.produced, Call.sent, List.filterMap_cons] using hhanded
  · simpa [freed, sent, toFree, Call.freed, Call.sent, List.filterMap_cons] using hfreed
  · simpa [produced, Call.produced, List.filterMap_cons] using h.texts

/-- The other statements of `main` pass messages on at most. -/
theorem handed_mainStep (h : Handed s) (bat : Int32) : Handed (s.mainStep bat) := by
  cases hmain : s.main with
  | enableRx c =>
    apply h.of_same <;>
      simp [mainStep, hmain, produced, sent, freed, pending, toFree, Call.produced, Call.sent,
        Call.freed, List.filterMap_cons]
  | disableRx c =>
    have hother : (if c + 1 < 3 then Statement.enableRx (c + 1) else .housekeeping) =
        .enableRx (c + 1) ∨
        (if c + 1 < 3 then Statement.enableRx (c + 1) else .housekeeping) = .housekeeping := by
      split_ifs <;> simp
    rcases hother with hm | hm <;> apply h.of_same <;>
      simp [mainStep, hmain, hm, produced, sent, freed, pending, toFree, Teleinfo.disableRx]
  | housekeeping =>
    apply h.of_same <;>
      simp [mainStep, hmain, produced, sent, freed, pending, toFree, Call.produced, Call.sent,
        Call.freed, List.filterMap_cons]
  | msgTryReceive =>
    cases hqueue : s.msgQueue with
    | nil =>
      apply h.of_same <;> simp [mainStep, hmain, hqueue, produced, sent, freed, pending, toFree]
    | cons ptr queue =>
      apply h.of_same <;> simp [mainStep, hmain, hqueue, produced, sent, freed, pending, toFree]
  | dataTx ptr => exact handed_dataTx h hmain bat
  | free ptr => exact handed_free h hmain bat
  | hibernate =>
    apply h.of_same <;> simp [mainStep, hmain, produced, sent, freed, pending, toFree]

theorem handed_rx (h : Handed s) (data : UInt8) : Handed (s.step (.rx data)) :=
  h.of_same rfl rfl rfl rfl rfl rfl rfl (s.teleinfo.rxCb_outbox data)

theorem handed_teleinfoRun (h : Handed s) (hblocked : s.blocked = false)
    (hroom : s.msgQueue.length < 8) : Handed s.teleinfoRun := by
  have hout := s.teleinfo.run_outbox
  cases hproduces : s.teleinfo.produces with
  | none =>
    rw [hproduces] at hout
    apply h.of_same <;>
      simp [teleinfoRun, hblocked, hproduces, hout, produced, sent, freed, pending, toFree]
  | some text =>
    rw [hproduces] at hout
    have hheap : s.pending.map (fun q => (q, Function.update s.heap s.allocated (some text) q)) =
        s.pending.map fun q => (q, s.heap q) := by
      apply List.map_congr_left
      intro q hq
      rw [Function.update_of_ne (h.not_sent hq).2.ne]
    rw [teleinfoRun_some hblocked hproduces hroom]
    refine ⟨?_, ?_, ?_, ?_⟩
    · have hnumbered := h.numbered
      simp only [produced] at hnumbered
      simp [produced, Call.produced, hnumbered, List.range_succ]
    · have hhanded := h.handed
      rw [← hheap] at hhanded
      simp only [produced, sent, pending] at hhanded ⊢
      simp [Call.produced, Call.sent, List.filterMap_cons, ← hhanded]
    · have hfreed := h.freed
      simpa [freed, sent, toFree, Call.freed, Call.sent, List.filterMap_cons] using hfreed
    · have htexts := h.texts
      simp only [produced] at htexts
      simp [produced, Call.produced, htexts, hout]

end

/-- An `enableRx` allows a report, which uses it up. -/
def allow : Bool → Call → Bool
  | _, .enableRx _ => true
  | _, .malloc _ _ => false
  | b, _ => b

/-- Whether a report may be produced behind these calls. -/
def mayProduce (calls : List Call) : Bool := calls.foldl allow false

@[simp] theorem mayProduce_append (calls : List Call) (call : Call) :
    mayProduce (calls ++ [call]) = allow (mayProduce calls) call := by
  rw [mayProduce, List.foldl_append]
  rfl

/-- Behind a report, and at the start, only an `enableRx` allows one. -/
theorem exists_enableRx {calls : List Call} (h : mayProduce calls = true) :
    ∃ c, Call.enableRx c ∈ calls := by
  induction calls using List.reverseRecOn with
  | nil => contradiction
  | append_singleton calls call ih =>
    rw [mayProduce_append] at h
    cases call with
    | enableRx c => exact ⟨c, by simp⟩
    | malloc ptr text => contradiction
    | _ =>
      obtain ⟨c, hc⟩ := ih h
      exact ⟨c, List.mem_append_left _ hc⟩

theorem mayProduce_malloc (pre mid : List Call) (ptr : ℕ) (text : List UInt8) :
    mayProduce (pre ++ .malloc ptr text :: mid) = mayProduce mid := by
  rw [mayProduce, List.foldl_append]
  rfl

/-- A thread without a message and without the means to get one. -/
def Quiet (n : Teleinfo) : Prop :=
  n.thread = .sleeping ∨ n.thread = .receiving ∧ n.rxTeleinfo = 0 ∧ n.msgQueue = 0

section
variable {n : Teleinfo}

theorem Quiet.not_handling (h : Quiet n) : n.thread ≠ .handling := by
  rcases h with h | ⟨h, -, -⟩ <;> rw [h] <;> decide

theorem Quiet.rxCb (h : Quiet n) (data : UInt8) : Quiet (n.rxCb data) := by
  by_cases hrx : n.rxTeleinfo = 0
  · rw [Teleinfo.rxCb_of_disabled hrx]
    exact h
  · have hsleep : n.thread = .sleeping := h.resolve_right fun h' => hrx h'.2.1
    by_cases hnl : data &&& 0x7F = Ascii.byte '\n'
    · have hstays : n.msgSend.thread = .sleeping := by
        rw [Teleinfo.msgSend, hsleep]
        simp only
        split_ifs <;> first | rfl | exact hsleep
      rw [Teleinfo.rxCb_newline hrx hnl]
      exact .inl hstays
    · by_cases hb : Ascii.byte ' ' ≤ data &&& 0x7F
      · rw [Teleinfo.rxCb_printable hrx hnl hb]
        exact .inl hsleep
      · rw [Teleinfo.rxCb_control hnl hb]
        exact h

theorem Quiet.disableRx (h : Quiet n) : Quiet n.disableRx := by
  rcases h with h | ⟨hthread, -, hqueue⟩
  · exact .inl h
  · exact .inr ⟨hthread, rfl, hqueue⟩

theorem Quiet.run (h : Quiet n) : n.run = n := Teleinfo.run_of_ne h.not_handling

end

/-- How many reports can at most be waiting, with the one that may still be produced, when a
statement of `main` is next. -/
def slack : Statement → ℕ
  | .enableRx c => if c = 1 then 1 else 2
  | .disableRx c => if c = 1 then 2 else 3
  | .housekeeping => 3
  | .msgTryReceive => 3
  | .dataTx _ => 3
  | .free _ => 3
  | .hibernate => 1

/-- Each report had an `enableRx` of its own, and there is room for the next. -/
structure Paced (s : Program) : Prop where
  window : ∀ c, s.main = .enableRx c ∨ s.main = .disableRx c → c = 1 ∨ c = 2
  room : s.msgQueue.length + (if mayProduce s.calls then 1 else 0) ≤ slack s.main
  quiet : mayProduce s.calls = false → Quiet s.teleinfo
  unblocked : s.blocked = false
  allowed : ∀ pre ptr text post, s.calls = pre ++ .malloc ptr text :: post → mayProduce pre = true

theorem paced_start : Paced start where
  window := by simp [start]
  room := by decide
  quiet := fun _ => .inr ⟨rfl, rfl, rfl⟩
  unblocked := rfl
  allowed := by simp [start]

section
variable {s : Program}

theorem Paced.queue_length (h : Paced s) : s.msgQueue.length ≤ 3 := by
  have hroom := h.room
  have hslack : slack s.main ≤ 3 := by
    unfold slack
    split <;> first | omega | split_ifs <;> omega
  omega

/-- A call that is no `malloc`, or one that was allowed, keeps all reports allowed. -/
theorem Paced.allowed_append (h : Paced s) {call : Call}
    (hcall : ∀ ptr text, call = .malloc ptr text → mayProduce s.calls = true) :
    ∀ pre ptr text post, s.calls ++ [call] = pre ++ .malloc ptr text :: post →
      mayProduce pre = true := by
  intro pre ptr text post he
  rcases List.eq_nil_or_concat post with rfl | ⟨post, x, rfl⟩
  · obtain ⟨rfl, hx⟩ := List.append_inj' he rfl
    exact hcall ptr text (List.cons.inj hx).1
  · rw [List.concat_eq_append, ← List.cons_append, ← List.append_assoc] at he
    exact h.allowed pre ptr text post (List.append_inj' he rfl).1

/-- A call that is neither an `enableRx` nor a `malloc`. -/
theorem Paced.call (h : Paced s) {main : Statement} {call : Call}
    (hslack : slack s.main = slack main) (hmain : ∀ c, main ≠ .enableRx c ∧ main ≠ .disableRx c)
    (hcall : ∀ b, allow b call = b) (heap : ℕ → Option (List UInt8)) :
    Paced { s with main := main, heap := heap, calls := s.calls ++ [call] } := by
  refine ⟨?_, ?_, ?_, h.unblocked, h.allowed_append ?_⟩
  · rintro c (hc | hc)
    · exact absurd hc (hmain c).1
    · exact absurd hc (hmain c).2
  · simpa [hcall, ← hslack] using h.room
  · simpa [hcall] using h.quiet
  · rintro ptr text rfl
    exact absurd (hcall true) (by simp [allow])

theorem paced_mainStep (h : Paced s) (bat : Int32) : Paced (s.mainStep bat) := by
  have hroom := h.room
  have hquiet := h.quiet
  have hone : (if mayProduce s.calls then 1 else 0) ≤ 1 := by split_ifs <;> omega
  cases hmain : s.main with
  | enableRx c =>
    have hslack : slack (.disableRx c) = slack (.enableRx c) + 1 := by
      simp only [slack]
      split_ifs <;> rfl
    rw [hmain] at hroom
    simp only [mainStep, hmain]
    refine ⟨?_, ?_, ?_, h.unblocked, h.allowed_append (by simp)⟩
    · intro c' hc'
      obtain rfl : c = c' := by simpa using hc'
      exact h.window c (.inl hmain)
    · simp only [mayProduce_append, allow, if_true, hslack]
      omega
    · simp [allow]
  | disableRx c =>
    have hc := h.window c (.inr hmain)
    rw [hmain] at hroom
    simp only [mainStep, hmain]
    refine ⟨?_, ?_, fun hno => (hquiet hno).disableRx, h.unblocked, h.allowed⟩
    · rcases hc with rfl | rfl
      · rintro c' hc'
        have : 2 = c' := by simpa using hc'
        exact .inr this.symm
      · simp
    · rcases hc with rfl | rfl <;> exact hroom
  | housekeeping =>
    rw [mainStep, hmain]
    exact h.call (by rw [hmain]; rfl) (by simp) (fun _ => rfl) s.heap
  | msgTryReceive =>
    rw [hmain] at hroom
    cases hqueue : s.msgQueue with
    | nil =>
      simp only [mainStep, hmain, hqueue]
      exact ⟨by simp, by simpa [hqueue, slack] using hone, hquiet, h.unblocked, h.allowed⟩
    | cons ptr queue =>
      rw [hqueue, List.length_cons] at hroom
      simp only [mainStep, hmain, hqueue]
      refine ⟨by simp, ?_, hquiet, h.unblocked, h.allowed⟩
      simp only [slack] at hroom ⊢
      omega
  | dataTx ptr =>
    rw [mainStep, hmain]
    exact h.call (by rw [hmain]; rfl) (by simp) (fun _ => rfl) s.heap
  | free ptr =>
    rw [mainStep, hmain]
    exact h.call (by rw [hmain]; rfl) (by simp) (fun _ => rfl) _
  | hibernate =>
    rw [hmain] at hroom
    simp only [mainStep, hmain]
    refine ⟨?_, hroom, hquiet, h.unblocked, h.allowed⟩
    rintro c' hc'
    have : 1 = c' := by simpa using hc'
    exact .inl this.symm

theorem paced_rx (h : Paced s) (data : UInt8) : Paced (s.step (.rx data)) :=
  ⟨h.window, h.room, fun hno => (h.quiet hno).rxCb data, h.unblocked, h.allowed⟩

theorem paced_teleinfoRun (h : Paced s) : Paced s.teleinfoRun := by
  have hqueue := h.queue_length
  cases hproduces : s.teleinfo.produces with
  | none =>
    have hstep : s.teleinfoRun = { s with teleinfo := s.teleinfo.run } := by
      simp only [teleinfoRun, h.unblocked, hproduces, Bool.false_eq_true, if_false]
    rw [hstep]
    exact ⟨h.window, h.room, fun hno => by rw [(h.quiet hno).run]; exact h.quiet hno,
      h.unblocked, h.allowed⟩
  | some text =>
    obtain ⟨hthread, hsleep⟩ := Teleinfo.produces_eq_some hproduces
    have hmay : mayProduce s.calls = true := by
      by_contra hno
      exact (h.quiet (by simpa using hno)).not_handling hthread
    have hroom := h.room
    rw [if_pos hmay] at hroom
    rw [teleinfoRun_some h.unblocked hproduces (by omega)]
    refine ⟨h.window, ?_, fun _ => .inl hsleep, h.unblocked, h.allowed_append fun _ _ _ => hmay⟩
    simpa [allow] using hroom

end

/-- Reports are handed over exactly once and never block the thread that reads the meters: after
every run, sent and pending reports are the reports produced, in order, each buffer is sent and
then freed exactly once, no report was produced in front of the first `enableRx`, and between two
reports there is one; and the messages that wait leave slots free. -/
theorem reports_handed_over (es : List Event) :
    let s := Run.run step start es
    (s.sent ++ s.pending.map (fun ptr => (ptr, s.heap ptr)) = s.produced.map (Prod.map id some) ∧
      s.freed ++ s.toFree = s.sent.map Prod.fst ∧
      (s.produced.map Prod.fst).Nodup ∧ s.produced.map Prod.snd = s.teleinfo.outbox) ∧
    (∀ pre ptr text post, s.calls = pre ++ .malloc ptr text :: post →
      ∃ c, Call.enableRx c ∈ pre) ∧
    (∀ pre ptr text mid ptr' text' post,
      s.calls = pre ++ .malloc ptr text :: (mid ++ .malloc ptr' text' :: post) →
        ∃ c, Call.enableRx c ∈ mid) ∧
    s.msgQueue.length < 8 ∧ s.blocked = false := by
  have hboth : Handed (Run.run step start es) ∧ Paced (Run.run step start es) := by
    refine Run.run_invariant (I := fun s => Handed s ∧ Paced s) ?_ ⟨handed_start, paced_start⟩ es
    rintro s e ⟨hhanded, hpaced⟩
    have hqueue := hpaced.queue_length
    cases e with
    | main bat => exact ⟨handed_mainStep hhanded bat, paced_mainStep hpaced bat⟩
    | rx data => exact ⟨handed_rx hhanded data, paced_rx hpaced data⟩
    | run =>
      exact ⟨handed_teleinfoRun hhanded hpaced.unblocked (by omega), paced_teleinfoRun hpaced⟩
  obtain ⟨hhanded, hpaced⟩ := hboth
  have hqueue := hpaced.queue_length
  refine ⟨⟨hhanded.handed, hhanded.freed, ?_, hhanded.texts⟩, ?_, ?_, by omega, hpaced.unblocked⟩
  · rw [hhanded.numbered]
    exact List.nodup_range
  · intro pre ptr text post hcalls
    exact exists_enableRx (hpaced.allowed pre ptr text post hcalls)
  · intro pre ptr text mid ptr' text' post hcalls
    have hmay := hpaced.allowed (pre ++ .malloc ptr text :: mid) ptr' text' post (by simp [hcalls])
    rw [mayProduce_malloc] at hmay
    exact exists_enableRx hmay

end OflMotes.Node.NodeTeleinfo
