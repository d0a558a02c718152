import OflMotes.Lib.Run

/-! A producer and a consumer that meet at an unbuffered channel: the one waits there with a
message, the other for one, and any order of their steps comes to the same. -/
namespace OflMotes.Rendezvous
open Run

/-- What a turn of a process does: it waits at the channel, goes on, or takes the program down. -/
inductive Move (κ : Type*)
  | waits
  | goes (k : κ)
  | panics

/-- The code of both processes. An input leads the producer to its next state, with the message
at which it waits, if there is one; without a result the program panics. -/
structure System (π κ ι μ : Type*) where
  produce : π → ι → Option (π × Option μ)
  work : κ → Move κ
  accept : κ → μ → κ

/-- Both processes, whether the program has ended, the inputs taken and the messages passed. -/
@[ext] structure State (π κ ι μ : Type*) where
  producer : π
  sending : Option μ
  consumer : κ
  ended : Bool
  inputs : List ι
  passed : List μ

inductive Event (ι : Type*)
  | input (i : ι)
  | meet
  | turn

/-- The turns of the consumer in a list of events. -/
def turns {ι : Type*} (es : List (Event ι)) : ℕ := es.countP fun e => e matches .turn

variable {π κ ι μ ρ : Type*}

namespace System
variable (A : System π κ ι μ)

def start (p : π) (k : κ) : State π κ ι μ := ⟨p, none, k, false, [], []⟩

/-- The producer takes an input, unless it waits at the channel. -/
def input (s : State π κ ι μ) (i : ι) : State π κ ι μ :=
  match s.sending with
  | some _ => s
  | none =>
    match A.produce s.producer i with
    | none => { s with ended := true }
    | some (p, m) => { s with producer := p, sending := m, inputs := s.inputs ++ [i] }

/-- A message passes when both wait at the channel. -/
def meet (s : State π κ ι μ) : State π κ ι μ :=
  match s.sending, A.work s.consumer with
  | some m, .waits => { s with
      sending := none
      consumer := A.accept s.consumer m
      passed := s.passed ++ [m] }
  | some _, .goes _ => s
  | some _, .panics => s
  | none, _ => s

/-- A turn of the consumer. -/
def turn (s : State π κ ι μ) : State π κ ι μ :=
  match A.work s.consumer with
  | .waits => s
  | .goes k => { s with consumer := k }
  | .panics => { s with ended := true }

/-- Nothing happens in a program that has ended. -/
def step (s : State π κ ι μ) (e : Event ι) : State π κ ι μ :=
  if s.ended then s
  else
    match e with
    | .input i => A.input s i
    | .meet => A.meet s
    | .turn => A.turn s

/-- The producer by itself: its state and all messages after a list of inputs. -/
def sequential (p : π) (is : List ι) : Option (π × List μ) :=
  is.foldlM (fun s i => (A.produce s.1 i).map fun x => (x.1, s.2 ++ x.2.toList)) (p, [])

theorem sequential_concat (p : π) (is : List ι) (i : ι) :
    A.sequential p (is ++ [i]) = (A.sequential p is).bind fun s =>
      (A.produce s.1 i).map fun x => (x.1, s.2 ++ x.2.toList) := by
  simp [sequential, List.foldlM_append]

/-- All that a step can do: to end the program or to do nothing, to take an input, to pass a
message, or to give the consumer a turn. -/
theorem step_cases (s : State π κ ι μ) (e : Event ι) :
    A.step s e = s ∨
    (∃ i, e = .input i ∧ s.ended = false ∧ A.produce s.producer i = none ∧
      A.step s e = { s with ended := true }) ∨
    (∃ i p m, e = .input i ∧ s.sending = none ∧ A.produce s.producer i = some (p, m) ∧
      A.step s e = { s with producer := p, sending := m, inputs := s.inputs ++ [i] }) ∨
    (∃ m, e = .meet ∧ s.sending = some m ∧ A.work s.consumer = .waits ∧
      A.step s e = { s with
        sending := none, consumer := A.accept s.consumer m, passed := s.passed ++ [m] }) ∨
    (∃ k, e = .turn ∧ A.work s.consumer = .goes k ∧ A.step s e = { s with consumer := k }) ∨
    (e = .turn ∧ s.ended = false ∧ A.work s.consumer = .panics ∧
      A.step s e = { s with ended := true }) := by
  unfold step
  by_cases hended : s.ended = true
  · exact .inl (if_pos hended)
  have hrunning : s.ended = false := by simpa using hended
  rw [if_neg hended]
  cases e with
  | input i =>
    cases hsending : s.sending with
    | some m => exact .inl (by simp only [input, hsending])
    | none =>
      cases hp : A.produce s.producer i with
      | none => exact .inr (.inl ⟨i, rfl, hrunning, hp, by simp only [input, hsending, hp]⟩)
      | some x =>
        exact .inr (.inr (.inl ⟨i, x.1, x.2, rfl, rfl, hp, by simp only [input, hsending, hp]⟩))
  | meet =>
    cases hsending : s.sending with
    | none => exact .inl (by simp only [meet, hsending])
    | some m =>
      cases hw : A.work s.consumer with
      | waits => exact .inr (.inr (.inr (.inl ⟨m, rfl, rfl, rfl, by simp only [meet, hsending, hw]⟩)))
      | goes k => exact .inl (by simp only [meet, hsending, hw])
      | panics => exact .inl (by simp only [meet, hsending, hw])
  | turn =>
    cases hw : A.work s.consumer with
    | waits => exact .inl (by simp only [turn, hw])
    | goes k => exact .inr (.inr (.inr (.inr (.inl ⟨k, rfl, rfl, by simp only [turn, hw]⟩))))
    | panics =>
      exact .inr (.inr (.inr (.inr (.inr ⟨rfl, hrunning, rfl, by simp only [turn, hw]⟩))))

/-- The messages are those of the producer by itself; one of them may still wait. -/
theorem run_producer (p : π) (k : κ) (es : List (Event ι)) :
    let s := run A.step (start p k) es
    A.sequential p s.inputs = some (s.producer, s.passed ++ s.sending.toList) := by
  refine run_invariant (I := fun s : State π κ ι μ =>
    A.sequential p s.inputs = some (s.producer, s.passed ++ s.sending.toList)) ?_ rfl es
  intro s e h
  rcases A.step_cases s e with hs | ⟨i, -, -, -, hs⟩ | ⟨i, q, m, -, hsending, hp, hs⟩ |
    ⟨m, -, hsending, -, hs⟩ | ⟨k', -, -, hs⟩ | ⟨-, -, -, hs⟩ <;> rw [hs]
  · exact h
  · exact h
  · rw [sequential_concat, h, hsending]
    simp [hp]
  · simpa [hsending] using h
  · exact h
  · exact h

section
variable {A} (finish : κ → Option ρ) (next : ρ → μ → Option ρ)
  (hgoes : ∀ k k', A.work k = .goes k' → finish k' = finish k)
  (haccept : ∀ k m, A.work k = .waits → finish (A.accept k m) = (finish k).bind (next · m))
include hgoes haccept

/-- What the consumer finishes with, once it is left alone, is the fold over the messages passed. -/
theorem run_consumer (p : π) (k : κ) (es : List (Event ι)) :
    let s := run A.step (start p k) es
    finish s.consumer = (finish k).bind (s.passed.foldlM next) := by
  refine run_invariant (I := fun s : State π κ ι μ =>
    finish s.consumer = (finish k).bind (s.passed.foldlM next)) ?_ ?_ es
  · intro s e h
    rcases A.step_cases s e with hs | ⟨i, -, -, -, hs⟩ | ⟨i, q, m, -, -, -, hs⟩ |
      ⟨m, -, -, hw, hs⟩ | ⟨k', -, hw, hs⟩ | ⟨-, -, -, hs⟩ <;> rw [hs]
    · exact h
    · exact h
    · exact h
    · rw [haccept _ _ hw, h]
      cases finish k <;> simp [List.foldlM_append]
    · rw [hgoes _ _ hw, h]
    · exact h
  · cases hk : finish k <;> simp [start, hk]

/-- The producer waits for an input, and the consumer for a message. -/
structure AtRest (A : System π κ ι μ) (s : State π κ ι μ) : Prop where
  running : s.ended = false
  sending : s.sending = none
  waits : A.work s.consumer = .waits

/-- Two orders of steps that come to rest after the same inputs come to the same state. -/
theorem atRest_eq (hwaits : ∀ k k', A.work k = .waits → A.work k' = .waits →
      finish k = finish k' → k = k') {p : π} {k : κ} {es fs : List (Event ι)}
    (h : AtRest A (run A.step (start p k) es)) (h' : AtRest A (run A.step (start p k) fs))
    (hinputs : (run A.step (start p k) es).inputs = (run A.step (start p k) fs).inputs) :
    run A.step (start p k) es = run A.step (start p k) fs := by
  have hp := A.run_producer p k es
  have hp' := A.run_producer p k fs
  simp only [hinputs, h.sending, h'.sending, Option.toList_none, List.append_nil] at hp hp'
  obtain ⟨hproducer, hpassed⟩ := Prod.mk.inj (Option.some.inj (hp.symm.trans hp'))
  refine State.ext hproducer (h.sending.trans h'.sending.symm) ?_
    (h.running.trans h'.running.symm) hinputs hpassed
  refine hwaits _ _ h.waits h'.waits ?_
  rw [run_consumer finish next hgoes haccept p k es, run_consumer finish next hgoes haccept p k fs,
    hpassed]

end

section
variable {A}

/-- Messages that have passed stay so. -/
theorem passed_prefix (s : State π κ ι μ) (es : List (Event ι)) :
    s.passed <+: (run A.step s es).passed := by
  refine run_invariant (I := fun s' : State π κ ι μ => s.passed <+: s'.passed) ?_
    List.prefix_rfl es
  intro s' e h
  rcases A.step_cases s' e with hs | ⟨i, -, -, -, hs⟩ | ⟨i, q, m, -, -, -, hs⟩ |
    ⟨m, -, -, -, hs⟩ | ⟨k', -, -, hs⟩ | ⟨-, -, -, hs⟩ <;> rw [hs]
  · exact h
  · exact h
  · exact h
  · exact h.trans (List.prefix_append _ _)
  · exact h
  · exact h

theorem step_turn_goes {s : State π κ ι μ} {k : κ} (hended : s.ended = false)
    (hw : A.work s.consumer = .goes k) : A.step s .turn = { s with consumer := k } := by
  simp [step, hended, turn, hw]

theorem step_meet_waits {s : State π κ ι μ} {m : μ} (hended : s.ended = false)
    (hsending : s.sending = some m) (hw : A.work s.consumer = .waits) :
    A.step s .meet = { s with
      sending := none, consumer := A.accept s.consumer m, passed := s.passed ++ [m] } := by
  simp [step, hended, meet, hsending, hw]

variable (rank : κ → ℕ) (hrank : ∀ k k', A.work k = .goes k' → rank k' < rank k)
  (hsafe : ∀ k, A.work k ≠ .panics)
include hrank hsafe

/-- A producer at the channel gets rid of its message as soon as the consumer has had as many turns
as its rank, whatever else is tried in between. -/
theorem released {s : State π κ ι μ} {m : μ} {es : List (Event ι)} (hended : s.ended = false)
    (hsending : s.sending = some m)
    (hturns : A.work s.consumer = .waits ∨ rank s.consumer ≤ turns es) :
    s.passed ++ [m] <+: (run A.step s (es ++ [.meet])).passed := by
  induction es generalizing s with
  | nil =>
    cases hw : A.work s.consumer with
    | waits =>
      have hpassed := congrArg State.passed (step_meet_waits hended hsending hw)
      exact ⟨[], (List.append_nil _).trans hpassed.symm⟩
    | goes k =>
      have hzero : rank s.consumer = 0 := by simpa [hw, turns] using hturns
      have := hrank _ _ hw
      omega
    | panics => exact absurd hw (hsafe _)
  | cons e es ih =>
    rw [List.cons_append, run_cons]
    have hsame (hs : A.step s e = s)
        (h : A.work s.consumer = .waits ∨ rank s.consumer ≤ turns es) :
        s.passed ++ [m] <+: (run A.step (A.step s e) (es ++ [.meet])).passed := by
      rw [hs]
      exact ih hended hsending h
    cases e with
    | input i => exact hsame (by simp [step, hended, input, hsending]) (by simpa [turns] using hturns)
    | meet =>
      cases hw : A.work s.consumer with
      | waits =>
        rw [step_meet_waits hended hsending hw]
        exact passed_prefix (State.mk _ _ _ _ _ (s.passed ++ [m])) _
      | goes k =>
        exact hsame (by simp [step, hended, meet, hsending, hw]) (by simpa [turns] using hturns)
      | panics => exact absurd hw (hsafe _)
    | turn =>
      cases hw : A.work s.consumer with
      | waits => exact hsame (by simp [step, hended, turn, hw]) (.inl hw)
      | goes k =>
        have hturn : rank s.consumer ≤ turns es + 1 := by simpa [hw, turns] using hturns
        have hk : rank k ≤ turns es := Nat.le_of_lt_succ (Nat.lt_of_lt_of_le (hrank _ _ hw) hturn)
        rw [step_turn_goes hended hw]
        exact ih (s := { s with consumer := k }) hended hsending (.inr hk)
      | panics => exact absurd hw (hsafe _)

/-- Left alone, the consumer comes to the channel. -/
theorem exists_waits (s : State π κ ι μ) (hended : s.ended = false) :
    ∃ n k, n ≤ rank s.consumer ∧ run A.step s (List.replicate n .turn) = { s with consumer := k } ∧
      A.work k = .waits ∧ rank k ≤ rank s.consumer := by
  induction hr : rank s.consumer using Nat.strongRecOn generalizing s with
  | ind r ih =>
    cases hw : A.work s.consumer with
    | waits => exact ⟨0, s.consumer, Nat.zero_le _, rfl, hw, Nat.le_of_eq hr⟩
    | goes k =>
      have hlt : rank k < r := hr ▸ hrank _ _ hw
      obtain ⟨n, k', hn, hrun, hwaits, hle⟩ := ih (rank k) hlt { s with consumer := k } hended rfl
      refine ⟨n + 1, k', by omega, ?_, hwaits, by omega⟩
      rw [List.replicate_succ, run_cons, step_turn_goes hended hw, hrun]
    | panics => exact absurd hw (hsafe _)

/-- Without further inputs the two come to rest, after a number of steps that the consumer's rank
bounds. -/
theorem exists_atRest {c : ℕ} (hc : ∀ k m, A.work k = .waits → rank (A.accept k m) ≤ rank k + c)
    (s : State π κ ι μ) (hended : s.ended = false) :
    ∃ es : List (Event ι), es.length ≤ 2 * rank s.consumer + c + 1 ∧
      (run A.step s es).inputs = s.inputs ∧ AtRest A (run A.step s es) := by
  obtain ⟨n, k, hn, hrun, hwaits, hle⟩ := exists_waits rank hrank hsafe s hended
  cases hsending : s.sending with
  | none =>
    refine ⟨List.replicate n .turn, by simp; omega, by rw [hrun], ?_⟩
    rw [hrun]
    exact ⟨hended, hsending, hwaits⟩
  | some m =>
    set s' : State π κ ι μ := { s with
      sending := none, consumer := A.accept k m, passed := s.passed ++ [m] } with hs'
    obtain ⟨n', k', hn', hrun', hwaits', -⟩ := exists_waits rank hrank hsafe s' hended
    have hacc : rank s'.consumer ≤ rank k + c := hc k m hwaits
    have hmeet : A.step { s with consumer := k } .meet = s' :=
      step_meet_waits hended hsending hwaits
    have hall : run A.step s (List.replicate n .turn ++ .meet :: List.replicate n' .turn) =
        { s' with consumer := k' } := by
      rw [run_append, hrun, run_cons, hmeet, hrun']
    refine ⟨_, ?_, by rw [hall], ?_⟩
    · simp
      omega
    · rw [hall]
      exact ⟨hended, rfl, hwaits'⟩

end
end System
end OflMotes.Rendezvous
