import Mathlib.Data.List.Basic

/-! Runs of a machine over a list of events: the rule by which an invariant of its steps holds in
every state reached, and the rule by which a map between two machines carries runs over. -/
namespace OflMotes.Run
variable {σ τ ε : Type*} (step : σ → ε → σ)

/-- The state after a list of events. -/
def run (s : σ) (es : List ε) : σ := es.foldl step s

/-- Every step of the run meets a condition on its state and event. -/
def Along (ok : σ → ε → Prop) : σ → List ε → Prop
  | _, [] => True
  | s, e :: es => ok s e ∧ Along ok (step s e) es

/-- A property holds in every state of the run, the last one included. -/
def Throughout (P : σ → Prop) : σ → List ε → Prop
  | s, [] => P s
  | s, e :: es => P s ∧ Throughout P (step s e) es

instance Along.decidable {ok : σ → ε → Prop} [h : ∀ s e, Decidable (ok s e)] :
    (s : σ) → (es : List ε) → Decidable (Along step ok s es)
  | _, [] => isTrue trivial
  | s, e :: es => @instDecidableAnd _ _ (h s e) (Along.decidable (step s e) es)

instance Throughout.decidable {P : σ → Prop} [h : DecidablePred P] :
    (s : σ) → (es : List ε) → Decidable (Throughout step P s es)
  | s, [] => h s
  | s, e :: es => @instDecidableAnd _ _ (h s) (Throughout.decidable (step s e) es)

@[simp] theorem run_nil (s : σ) : run step s [] = s := rfl

@[simp] theorem run_cons (s : σ) (e : ε) (es : List ε) :
    run step s (e :: es) = run step (step s e) es := rfl

theorem run_append (s : σ) (es fs : List ε) :
    run step s (es ++ fs) = run step (run step s es) fs := List.foldl_append

variable {step}

/-- What every step preserves, a whole run preserves. -/
theorem run_invariant {I : σ → Prop} (hstep : ∀ s e, I s → I (step s e)) {s : σ} (hs : I s)
    (es : List ε) : I (run step s es) := by
  induction es generalizing s with
  | nil => exact hs
  | cons e es ih => exact ih (hstep s e hs)

/-- What every step under a condition preserves, a run along the condition preserves. -/
theorem along_invariant {I : σ → Prop} {ok : σ → ε → Prop}
    (hstep : ∀ s e, I s → ok s e → I (step s e)) {s : σ} (hs : I s) {es : List ε}
    (hok : Along step ok s es) : I (run step s es) := by
  induction es generalizing s with
  | nil => exact hs
  | cons e es ih => exact ih (hstep s e hs hok.1) hok.2

/-- Conditions that agree in all states of an invariant are met by the same runs. -/
theorem along_congr {I : σ → Prop} {ok ok' : σ → ε → Prop} (hstep : ∀ s e, I s → I (step s e))
    (hiff : ∀ s e, I s → (ok s e ↔ ok' s e)) {s : σ} (hs : I s) (es : List ε) :
    Along step ok s es ↔ Along step ok' s es := by
  induction es generalizing s with
  | nil => exact Iff.rfl
  | cons e es ih => exact and_congr (hiff s e hs) (ih (hstep s e hs))

/-- Where each event of a kind moves the balance of two measures by one, and no event moves it back,
their balance bounds the number of these events in a run. -/
theorem countP_run_le {I : σ → Prop} {p : ε → Bool} (gain loss : σ → ℕ)
    (hstep : ∀ s e, I s → I (step s e))
    (hmove : ∀ s e, I s →
      gain s + loss (step s e) + [e].countP p ≤ gain (step s e) + loss s)
    {s : σ} (hs : I s) (es : List ε) :
    gain s + loss (run step s es) + es.countP p ≤ gain (run step s es) + loss s := by
  induction es generalizing s with
  | nil => exact Nat.le_refl _
  | cons e es ih =>
    have hhead := hmove s e hs
    have htail := ih (hstep s e hs)
    have hcount : ([e] ++ es).countP p = [e].countP p + es.countP p := List.countP_append
    rw [List.singleton_append] at hcount
    rw [run_cons, hcount]
    omega

section
variable {step' : τ → ε → τ} {f : σ → τ} (hf : ∀ s e, f (step s e) = step' (f s) e)
include hf

/-- A map that commutes with the steps commutes with the runs. -/
theorem map_run (s : σ) (es : List ε) : f (run step s es) = run step' (f s) es := by
  induction es generalizing s with
  | nil => rfl
  | cons e es ih => rw [run_cons, run_cons, ih, hf]

/-- A condition on the image of a run is a condition on the run. -/
theorem along_map {ok : τ → ε → Prop} {s : σ} {es : List ε} (h : Along step' ok (f s) es) :
    Along step (fun s e => ok (f s) e) s es := by
  induction es generalizing s with
  | nil => trivial
  | cons e es ih => exact ⟨h.1, ih (by rw [hf]; exact h.2)⟩

end

theorem Throughout.head {P : σ → Prop} {s : σ} {es : List ε} (h : Throughout step P s es) : P s := by
  cases es with
  | nil => exact h
  | cons e es => exact h.1

section
variable {δ : Type*} {step' : τ → δ → τ} {g : ε → δ} {R : σ → τ → Prop} {K : σ → Prop}
  (hstep : ∀ s t e, R s t → K s → K (step s e) → R (step s e) (step' t (g e)))
include hstep

/-- A relation that the steps keep while a condition holds carries properties of states over. -/
theorem throughout_iff {P : σ → Prop} {Q : τ → Prop} (hPQ : ∀ s t, R s t → K s → (P s ↔ Q t))
    {s : σ} {t : τ} (hR : R s t) {es : List ε} (hK : Throughout step K s es) :
    Throughout step P s es ↔ Throughout step' Q t (es.map g) := by
  induction es generalizing s t with
  | nil => exact hPQ s t hR hK
  | cons e es ih => exact and_congr (hPQ s t hR hK.1) (ih (hstep s t e hR hK.1 hK.2.head) hK.2)

/-- The same for conditions on the steps. -/
theorem along_iff {ok : σ → ε → Prop} {ok' : τ → δ → Prop}
    (hok : ∀ s t e, R s t → K s → (ok s e ↔ ok' t (g e))) {s : σ} {t : τ} (hR : R s t)
    {es : List ε} (hK : Throughout step K s es) :
    Along step ok s es ↔ Along step' ok' t (es.map g) := by
  induction es generalizing s t with
  | nil => exact Iff.rfl
  | cons e es ih => exact and_congr (hok s t e hR hK.1) (ih (hstep s t e hR hK.1 hK.2.head) hK.2)

end
end OflMotes.Run
