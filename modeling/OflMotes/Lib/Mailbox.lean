import OflMotes.Lib.Run

/-! A buffer that is read as a whole for each signal. The writer puts the items of a batch into the
buffer and then gives a signal; the reader answers signals in any later order of steps, and takes
everything that is buffered by then. The buffer keeps no boundaries between batches. -/
namespace OflMotes

/-- The items buffered, the signals not answered yet, the batch that is being written, and the
batches completed and handed over so far. -/
@[ext] structure Mailbox (α : Type*) where
  buffer : List α
  pending : ℕ
  batch : List α
  completed : List (List α)
  handed : List (List α)

namespace Mailbox
variable {α : Type*}

inductive Event (α : Type*)
  | put (a : α)
  | signal
  | take
  | skip

def empty : Mailbox α := ⟨[], 0, [], [], []⟩

def put (m : Mailbox α) (a : α) : Mailbox α :=
  { m with buffer := m.buffer ++ [a], batch := m.batch ++ [a] }

def signal (m : Mailbox α) : Mailbox α :=
  { m with pending := m.pending + 1, batch := [], completed := m.completed ++ [m.batch] }

def take (m : Mailbox α) : Mailbox α :=
  match m.pending with
  | 0 => m
  | k + 1 => { m with buffer := [], pending := k, handed := m.handed ++ [m.buffer] }

def step (m : Mailbox α) : Event α → Mailbox α
  | .put a => m.put a
  | .signal => m.signal
  | .take => m.take
  | .skip => m

/-- Every batch is handed over or waits for its signal's answer, and what was handed over so far,
with what would be handed over now, are batches in their order. -/
def InStep (m : Mailbox α) : Prop :=
  m.completed.length = m.handed.length + m.pending ∧ m.take.handed <+: m.completed

/-- No item is put while a signal is pending. -/
def Calm (m : Mailbox α) : Event α → Prop
  | .put _ => m.pending = 0
  | _ => True

/-- Of the batches that wait the first is the buffer and the others are empty; without any the
buffer is the unfinished batch. -/
structure Tracked (m : Mailbox α) : Prop where
  idle : m.pending = 0 → m.completed = m.handed ∧ m.buffer = m.batch
  busy : ∀ k, m.pending = k + 1 →
    m.completed = m.handed ++ m.buffer :: List.replicate k [] ∧ m.batch = []

theorem tracked_empty : (empty : Mailbox α).Tracked :=
  ⟨fun _ => ⟨rfl, rfl⟩, fun k hk => absurd hk (Nat.succ_ne_zero k).symm⟩

variable {m : Mailbox α}

theorem take_succ {k : ℕ} (h : m.pending = k + 1) :
    m.take = { m with buffer := [], pending := k, handed := m.handed ++ [m.buffer] } := by
  simp only [take, h]

theorem take_zero (h : m.pending = 0) : m.take = m := by
  simp only [take, h]

theorem Tracked.inStep (h : m.Tracked) : m.InStep := by
  cases hpending : m.pending with
  | zero =>
    obtain ⟨hcompleted, -⟩ := h.idle hpending
    rw [InStep, take_zero hpending, hcompleted, hpending]
    exact ⟨rfl, List.prefix_rfl⟩
  | succ k =>
    obtain ⟨hcompleted, -⟩ := h.busy k hpending
    rw [InStep, take_succ hpending, hcompleted, hpending]
    refine ⟨by simp, ?_⟩
    rw [List.append_cons]
    exact List.prefix_append _ _

theorem tracked_step (h : m.Tracked) {e : Event α} (hcalm : m.Calm e) : (m.step e).Tracked := by
  cases e with
  | put a =>
    have hpending : m.pending = 0 := hcalm
    obtain ⟨hcompleted, hbuffer⟩ := h.idle hpending
    refine ⟨fun _ => ⟨hcompleted, ?_⟩, fun k hk => ?_⟩
    · rw [step, put, hbuffer]
    · have : m.pending = k + 1 := hk
      omega
  | signal =>
    refine ⟨fun hno => absurd hno (Nat.succ_ne_zero _), fun k hk => ?_⟩
    obtain rfl : m.pending = k := Nat.succ.inj hk
    refine ⟨?_, rfl⟩
    cases hpending : m.pending with
    | zero =>
      obtain ⟨hcompleted, hbuffer⟩ := h.idle hpending
      simp [step, signal, hcompleted, hbuffer]
    | succ k =>
      obtain ⟨hcompleted, hbatch⟩ := h.busy k hpending
      simp [step, signal, hcompleted, hbatch, List.replicate_succ']
  | take =>
    cases hpending : m.pending with
    | zero =>
      rw [step, take_zero hpending]
      exact h
    | succ k =>
      obtain ⟨hcompleted, hbatch⟩ := h.busy k hpending
      rw [step, take_succ hpending]
      refine ⟨?_, ?_⟩
      · rintro rfl
        exact ⟨hcompleted, hbatch.symm⟩
      · rintro l rfl
        exact ⟨by simp [hcompleted, List.replicate_succ], hbatch⟩
  | skip => exact h

/-- An item put too early lengthens a batch that was completed before. -/
theorem Tracked.not_inStep_put (h : m.Tracked) (hpending : m.pending ≠ 0) (a : α) :
    ¬ (m.step (.put a)).InStep := by
  obtain ⟨k, hk⟩ := Nat.exists_eq_succ_of_ne_zero hpending
  obtain ⟨hcompleted, -⟩ := h.busy k hk
  rintro ⟨-, hprefix⟩
  have hput : (m.step (.put a)).pending = k + 1 := hk
  rw [take_succ hput] at hprefix
  simp only [step, put, hcompleted] at hprefix
  rw [List.prefix_append_right_inj, List.cons_prefix_cons] at hprefix
  have := congrArg List.length hprefix.1
  simp at this

/-- The batches arrive one by one and in order throughout a run exactly if no item is put while a
signal is pending. -/
theorem throughout_inStep_iff (h : m.Tracked) (es : List (Event α)) :
    Run.Throughout step InStep m es ↔ Run.Along step Calm m es := by
  induction es generalizing m with
  | nil => exact iff_of_true h.inStep trivial
  | cons e es ih =>
    by_cases hcalm : m.Calm e
    · exact and_congr (iff_of_true h.inStep hcalm) (ih (tracked_step h hcalm))
    · refine iff_of_false (fun hrun => ?_) fun hrun => hcalm hrun.1
      cases e with
      | put a => exact h.not_inStep_put hcalm a hrun.2.head
      | _ => exact hcalm trivial

end Mailbox
end OflMotes
