import Mathlib.Logic.Function.Basic
import OflMotes.Lib.Run

/-! Machines side by side, each with a log of its own, and the log that all of them write together:
in any interleaving each machine is where its own events lead it, and what the common log has of it
is its own log. -/
namespace OflMotes.Parallel
open Run

/-- A machine whose log only grows. -/
structure Logger (σ ε α : Type*) where
  step : σ → ε → σ
  log : σ → List α
  grows : ∀ s e, log s <+: log (step s e)

/-- Where the machines are, and what they have logged, in the order in which they have. -/
structure State (ι σ α : Type*) where
  states : ι → σ
  trace : List (ι × α)

variable {ι σ ε α : Type*} [DecidableEq ι]

/-- What a list has of one machine. -/
def part {β : Type*} (i : ι) (l : List (ι × β)) : List β :=
  l.filterMap fun x => if x.1 = i then some x.2 else none

section
variable {β : Type*}

@[simp] theorem part_nil (i : ι) : part i ([] : List (ι × β)) = [] := rfl

@[simp] theorem part_append (i : ι) (l l' : List (ι × β)) :
    part i (l ++ l') = part i l ++ part i l' := List.filterMap_append

theorem part_cons_self (i : ι) (b : β) (l : List (ι × β)) : part i ((i, b) :: l) = b :: part i l :=
  List.filterMap_cons_some (if_pos rfl)

theorem part_cons_of_ne {i j : ι} (h : j ≠ i) (b : β) (l : List (ι × β)) :
    part i ((j, b) :: l) = part i l :=
  List.filterMap_cons_none (if_neg h)

theorem part_map_self (i : ι) (bs : List β) : part i (bs.map (Prod.mk i)) = bs := by
  induction bs with
  | nil => rfl
  | cons b bs ih => rw [List.map_cons, part_cons_self, ih]

theorem part_map_of_ne {i j : ι} (h : j ≠ i) (bs : List β) : part i (bs.map (Prod.mk j)) = [] := by
  induction bs with
  | nil => rfl
  | cons b bs ih => rw [List.map_cons, part_cons_of_ne h, ih]

theorem mem_part {i : ι} {b : β} {l : List (ι × β)} : b ∈ part i l ↔ (i, b) ∈ l := by
  rw [part, List.mem_filterMap]
  constructor
  · rintro ⟨⟨j, c⟩, hmem, hc⟩
    split_ifs at hc with hj
    subst hj
    rw [← Option.some.inj hc]
    exact hmem
  · exact fun hmem => ⟨(i, b), hmem, if_pos rfl⟩

end

variable (m : ι → Logger σ ε α)

/-- One of the machines takes a step. -/
def step (s : State ι σ α) (e : ι × ε) : State ι σ α :=
  let old := s.states e.1
  let new := (m e.1).step old e.2
  { states := Function.update s.states e.1 new
    trace := s.trace ++
      (((m e.1).log new).drop ((m e.1).log old).length).map (Prod.mk e.1) }

/-- The common log has all that each machine has logged. -/
def Complete (s : State ι σ α) : Prop := ∀ i, part i s.trace = (m i).log (s.states i)

variable {m}

/-- A machine takes part in its own steps and in no others. -/
theorem step_states (s : State ι σ α) (e : ι × ε) (i : ι) :
    (step m s e).states i = run (m i).step (s.states i) (part i [e]) := by
  obtain ⟨j, e⟩ := e
  by_cases hij : j = i
  · subst hij
    rw [part_cons_self]
    exact Function.update_self j _ s.states
  · rw [part_cons_of_ne hij]
    exact Function.update_of_ne (Ne.symm hij) _ s.states

/-- In any interleaving, each machine is where its own events lead it. -/
theorem run_states (s : State ι σ α) (es : List (ι × ε)) (i : ι) :
    (run (step m) s es).states i = run (m i).step (s.states i) (part i es) := by
  induction es generalizing s with
  | nil => rfl
  | cons e es ih =>
    have hpart : part i (e :: es) = part i [e] ++ part i es := part_append i [e] es
    rw [run_cons, ih, step_states, hpart, run_append]

theorem complete_step {s : State ι σ α} (h : Complete m s) (e : ι × ε) : Complete m (step m s e) := by
  obtain ⟨j, e⟩ := e
  intro i
  rw [step_states]
  dsimp only [step]
  rw [part_append, h i]
  by_cases hij : j = i
  · subst hij
    rw [part_map_self, part_cons_self]
    obtain ⟨new, hnew⟩ := (m j).grows (s.states j) e
    show (m j).log (s.states j) ++ _ = (m j).log ((m j).step (s.states j) e)
    rw [← hnew, List.drop_left]
  · rw [part_map_of_ne hij, part_cons_of_ne hij, List.append_nil]
    rfl

/-- In any interleaving, the common log has of each machine what it logs by itself. -/
theorem part_trace {s : State ι σ α} (h : Complete m s) (es : List (ι × ε)) (i : ι) :
    part i (run (step m) s es).trace = (m i).log (run (m i).step (s.states i) (part i es)) := by
  have hcomplete : Complete m (run (step m) s es) :=
    run_invariant (I := Complete m) (fun _ e h => complete_step h e) h es
  rw [hcomplete i, run_states]

end OflMotes.Parallel
