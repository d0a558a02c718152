import Mathlib.Order.Basic

/-! Loops with fuel: the rules by which an invariant of the rounds holds of the result, by which a
counted loop ends, and by which more fuel gives the same result. -/
namespace OflMotes.Loop
variable {σ ρ : Type*}

/-- A loop, of which a round gives the result or the next state. Nothing comes of it where the
fuel is used up before the loop has ended, or where a round gives nothing. -/
def run (body : σ → Option (ρ ⊕ σ)) : ℕ → σ → Option ρ
  | 0, _ => none
  | fuel + 1, s =>
    match body s with
    | none => none
    | some (.inl r) => some r
    | some (.inr s') => run body fuel s'

section
variable {body : σ → Option (ρ ⊕ σ)}

theorem run_succ_inl {s : σ} {r : ρ} (h : body s = some (.inl r)) (fuel : ℕ) :
    run body (fuel + 1) s = some r := by
  rw [run, h]

theorem run_succ_inr {s s' : σ} (h : body s = some (.inr s')) (fuel : ℕ) :
    run body (fuel + 1) s = run body fuel s' := by
  rw [run, h]

/-- A result comes from the last round, in a state that the rounds before it have led to. -/
theorem run_post {I : σ → Prop} {Q : ρ → Prop}
    (hend : ∀ s r, I s → body s = some (.inl r) → Q r)
    (hgo : ∀ s s', I s → body s = some (.inr s') → I s') {fuel : ℕ} {s : σ} {r : ρ} (hs : I s)
    (h : run body fuel s = some r) : Q r := by
  induction fuel generalizing s with
  | zero => contradiction
  | succ fuel ih =>
    rw [run] at h
    split at h
    · contradiction
    · rename_i hbody
      cases h
      exact hend s _ hs hbody
    · rename_i s' hbody
      exact ih (hgo s s' hs hbody) h

/-- A loop none of whose rounds gives a result does not end. -/
theorem run_eq_none {I : σ → Prop} (hend : ∀ s r, I s → body s ≠ some (.inl r))
    (hgo : ∀ s s', I s → body s = some (.inr s') → I s') {s : σ} (hs : I s) (fuel : ℕ) :
    run body fuel s = none := by
  rw [Option.eq_none_iff_forall_ne_some]
  intro r h
  exact run_post (Q := fun _ => False) (fun s r hI hr => hend s r hI hr) hgo hs h

/-- A loop that goes on for some rounds and leaves in the next one ends with any fuel for these
rounds; the invariant knows the number of the round. -/
theorem run_of_rounds {I : ℕ → σ → Prop} {Q : ρ → Prop} {k : ℕ}
    (hgo : ∀ i s, i < k → I i s → ∃ s', body s = some (.inr s') ∧ I (i + 1) s')
    (hend : ∀ s, I k s → ∃ r, body s = some (.inl r) ∧ Q r) {fuel : ℕ} (hfuel : k < fuel) {s : σ}
    (hs : I 0 s) : ∃ r, run body fuel s = some r ∧ Q r := by
  induction k generalizing I fuel s with
  | zero =>
    obtain ⟨n, rfl⟩ := Nat.exists_eq_succ_of_ne_zero (Nat.ne_of_gt hfuel)
    obtain ⟨r, hr, hQ⟩ := hend s hs
    exact ⟨r, run_succ_inl hr n, hQ⟩
  | succ k ih =>
    obtain ⟨n, rfl⟩ := Nat.exists_eq_succ_of_ne_zero (Nat.ne_of_gt (Nat.zero_lt_of_lt hfuel))
    obtain ⟨s', hs', hI⟩ := hgo 0 s (Nat.zero_lt_succ k) hs
    obtain ⟨r, hr, hQ⟩ := ih (I := fun i => I (i + 1))
      (fun i s hi h => hgo (i + 1) s (Nat.succ_lt_succ hi) h) hend (Nat.lt_of_succ_lt_succ hfuel) hI
    exact ⟨r, (run_succ_inr hs' n).trans hr, hQ⟩

end

/-- More fuel, for the loop and for the loops in its rounds, gives the same result. -/
theorem run_mono {body body' : σ → Option (ρ ⊕ σ)}
    (hbody : ∀ s x, body s = some x → body' s = some x) {fuel fuel' : ℕ} (hle : fuel ≤ fuel')
    {s : σ} {r : ρ} (h : run body fuel s = some r) : run body' fuel' s = some r := by
  induction fuel generalizing fuel' s with
  | zero => contradiction
  | succ fuel ih =>
    obtain ⟨n, rfl⟩ := Nat.exists_eq_succ_of_ne_zero (Nat.ne_of_gt (Nat.zero_lt_of_lt hle))
    rw [run] at h
    split at h
    · contradiction
    · rename_i hs
      cases h
      exact run_succ_inl (hbody s _ hs) n
    · rename_i s' hs
      rw [run_succ_inr (hbody s _ hs)]
      exact ih (Nat.le_of_succ_le_succ hle) h

end OflMotes.Loop
