import Mathlib.Data.List.Basic
import Mathlib.Data.List.Induction

/-! Logs whose entries carry the number of an epoch, and that grow in the last epoch only. -/
namespace OflMotes.Epochs
variable {α : Type*} (number : α → ℕ)

/-- The entries of an epoch. -/
def epoch (log : List α) (k : ℕ) : List α := log.filter (number · = k)

/-- A log in the order of the epochs, up to the epoch `n`. -/
structure UpTo (n : ℕ) (log : List α) : Prop where
  sorted : log.Pairwise (number · ≤ number ·)
  bounded : ∀ x ∈ log, number x ≤ n

variable {number} {n : ℕ} {log : List α} {x : α}

theorem upTo_nil : UpTo number n [] := ⟨.nil, by simp⟩

theorem UpTo.mono (h : UpTo number n log) {m : ℕ} (hnm : n ≤ m) : UpTo number m log :=
  ⟨h.sorted, fun x hx => Nat.le_trans (h.bounded x hx) hnm⟩

/-- An entry of the last epoch keeps the order. -/
theorem UpTo.append (h : UpTo number n log) (hx : number x = n) : UpTo number n (log ++ [x]) := by
  constructor
  · rw [List.pairwise_append]
    refine ⟨h.sorted, List.pairwise_singleton _ _, ?_⟩
    intro a ha b hb
    rw [List.mem_singleton.mp hb, hx]
    exact h.bounded a ha
  · intro a ha
    rcases List.mem_append.mp ha with ha | ha
    · exact h.bounded a ha
    · exact Nat.le_of_eq (List.mem_singleton.mp ha ▸ hx)

theorem epoch_append_self : epoch number (log ++ [x]) (number x) =
    epoch number log (number x) ++ [x] := by
  rw [epoch, List.filter_append]
  simp [epoch]

theorem epoch_append_of_ne {k : ℕ} (hk : number x ≠ k) :
    epoch number (log ++ [x]) k = epoch number log k := by
  rw [epoch, List.filter_append]
  simp [epoch, hk]

/-- Several entries of the last epoch. -/
theorem UpTo.append_all (h : UpTo number n log) {xs : List α} (hxs : ∀ x ∈ xs, number x = n) :
    UpTo number n (log ++ xs) := by
  induction xs generalizing log with
  | nil =>
    rw [List.append_nil]
    exact h
  | cons x xs ih =>
    obtain ⟨hx, hxs⟩ := List.forall_mem_cons.mp hxs
    rw [List.append_cons]
    exact ih (h.append hx) hxs

theorem epoch_append_all {xs : List α} (hxs : ∀ x ∈ xs, number x = n) :
    epoch number (log ++ xs) n = epoch number log n ++ xs := by
  have hself : xs.filter (number · = n) = xs := by
    rw [List.filter_eq_self]
    intro x hx
    exact decide_eq_true (hxs x hx)
  rw [epoch, List.filter_append, hself]
  rfl

theorem epoch_append_all_of_ne {xs : List α} (hxs : ∀ x ∈ xs, number x = n) {k : ℕ} (hk : k ≠ n) :
    epoch number (log ++ xs) k = epoch number log k := by
  have hnone : xs.filter (number · = k) = [] := by
    rw [List.filter_eq_nil_iff]
    intro x hx
    rw [hxs x hx]
    simpa using hk.symm
  rw [epoch, List.filter_append, hnone, List.append_nil]
  rfl

theorem UpTo.epoch_eq_nil (h : UpTo number n log) {k : ℕ} (hk : n < k) :
    epoch number log k = [] := by
  rw [epoch, List.filter_eq_nil_iff]
  intro a ha
  have := h.bounded a ha
  simp
  omega

/-- The log is its epochs, one behind the other. -/
theorem UpTo.flatMap_epoch (h : UpTo number n log) :
    (List.range (n + 1)).flatMap (epoch number log) = log := by
  induction log using List.reverseRecOn generalizing n with
  | nil => simp [epoch]
  | append_singleton log x ih =>
    obtain ⟨hsorted, -, hlast⟩ := List.pairwise_append.mp h.sorted
    have hx : number x ≤ n := h.bounded x (by simp)
    have hlog : UpTo number (number x) log := ⟨hsorted, fun a ha => hlast a ha x (by simp)⟩
    -- behind the epoch of the last entry there is nothing
    obtain ⟨d, rfl⟩ := Nat.exists_eq_add_of_le hx
    have hrest : (List.range d).flatMap
        (fun i => epoch number (log ++ [x]) (number x + 1 + i)) = [] := by
      rw [List.flatMap_eq_nil_iff]
      intro i _
      rw [epoch_append_of_ne (by omega)]
      exact hlog.epoch_eq_nil (by omega)
    have hfront : (List.range (number x)).flatMap (epoch number (log ++ [x])) =
        (List.range (number x)).flatMap (epoch number log) := by
      apply List.flatMap_congr
      intro k hk
      exact epoch_append_of_ne (Nat.ne_of_gt (List.mem_range.mp hk))
    rw [show number x + d + 1 = number x + 1 + d by omega, List.range_add, List.flatMap_append,
      List.flatMap_map, hrest, List.range_succ, List.flatMap_append, hfront, List.append_nil,
      List.flatMap_singleton, epoch_append_self, ← List.append_assoc]
    have hself := ih hlog
    rw [List.range_succ, List.flatMap_append, List.flatMap_singleton] at hself
    rw [hself]

theorem forall₂_comp {α β γ : Type*} {R : α → β → Prop} {S : β → γ → Prop} {T : α → γ → Prop}
    (hT : ∀ a b c, R a b → S b c → T a c) {as : List α} {bs : List β} {cs : List γ}
    (hR : List.Forall₂ R as bs) (hS : List.Forall₂ S bs cs) : List.Forall₂ T as cs := by
  induction hR generalizing cs with
  | nil =>
    cases hS
    exact .nil
  | cons hab _ ih =>
    obtain _ | ⟨hbc, hS⟩ := hS
    exact .cons (hT _ _ _ hab hbc) (ih hS)

theorem exists_of_forall₂ {α β : Type*} {R : α → β → Prop} {as : List α} {bs : List β}
    (h : List.Forall₂ R as bs) {a : α} (ha : a ∈ as) : ∃ b ∈ bs, R a b := by
  induction h with
  | nil => contradiction
  | @cons a' b as bs hab _ ih =>
    rcases List.mem_cons.mp ha with rfl | ha
    · exact ⟨b, List.mem_cons_self, hab⟩
    · obtain ⟨b', hb', hR⟩ := ih ha
      exact ⟨b', List.mem_cons_of_mem _ hb', hR⟩

/-- What corresponds to a log entry by entry corresponds to its epochs. -/
theorem forall₂_epoch {β : Type*} {R : β → α → Prop} {l : List β} (h : List.Forall₂ R l log) (k : ℕ) :
    List.Forall₂ R ((epoch (fun x => number x.2) (l.zip log) k).map Prod.fst) (epoch number log k) := by
  induction h with
  | nil => exact .nil
  | @cons b a l log hab _ ih =>
    rw [List.zip_cons_cons]
    unfold epoch at ih ⊢
    by_cases ha : number a = k
    · rw [List.filter_cons_of_pos (by simpa using ha), List.filter_cons_of_pos (by simpa using ha)]
      exact .cons hab ih
    · rw [List.filter_cons_of_neg (by simpa using ha), List.filter_cons_of_neg (by simpa using ha)]
      exact ih

end OflMotes.Epochs
