import Mathlib.Data.List.Basic

/-! A bounded first-in first-out buffer. When a new element does not fit, the oldest one is
dropped. -/
namespace OflMotes

/-- The elements of the buffer, oldest first. -/
@[ext] structure Ring (α : Type*) (cap : ℕ) where
  data : List α
  bound : data.length ≤ cap

namespace Ring
variable {α : Type*} {cap : ℕ}

def empty : Ring α cap := ⟨[], Nat.zero_le cap⟩

def addOne (r : Ring α cap) (a : α) : Ring α cap :=
  ⟨(r.data ++ [a]).drop (r.data.length + 1 - cap), by simp; omega⟩

/-- Up to `n` elements, and the buffer without them. -/
def get (r : Ring α cap) (n : ℕ) : List α × Ring α cap :=
  (r.data.take n, ⟨r.data.drop n, by have := r.bound; simp; omega⟩)

@[simp] theorem empty_data : (empty : Ring α cap).data = [] := rfl

theorem get_cap (r : Ring α cap) : r.get cap = (r.data, empty) := by
  rw [get, Prod.mk.injEq]
  refine ⟨List.take_of_length_le r.bound, ?_⟩
  ext1
  exact List.drop_eq_nil_of_le r.bound

theorem addOne_data (r : Ring α cap) (a : α) :
    (r.addOne a).data = (r.data ++ [a]).drop (r.data.length + 1 - cap) := rfl

/-- A buffer of other elements stays in step. -/
theorem addOne_map {β : Type*} {r : Ring α cap} {q : Ring β cap} {f : α → β}
    (h : r.data.map f = q.data) (a : α) : (r.addOne a).data.map f = (q.addOne (f a)).data := by
  have hlen : r.data.length = q.data.length := by rw [← h, List.length_map]
  rw [addOne_data, addOne_data, List.map_drop, List.map_append, h, hlen]
  rfl

/-- What is in the buffer was there before, but for the new element. -/
theorem addOne_suffix (r : Ring α cap) (a : α) : (r.addOne a).data <:+ r.data ++ [a] :=
  List.drop_suffix _ _

/-- A buffer that holds the last of a list of elements holds the last of the longer list. -/
theorem addOne_data_of_drop {r : Ring α cap} {p : List α} (h : r.data = p.drop (p.length - cap))
    (a : α) : (r.addOne a).data = (p ++ [a]).drop ((p ++ [a]).length - cap) := by
  have hk : p.length - cap ≤ p.length := Nat.sub_le _ _
  rw [addOne_data, h, ← List.drop_append_of_le_length hk, List.drop_drop]
  congr 1
  simp only [List.length_drop, List.length_append, List.length_singleton]
  omega

/-- The buffer holds the last elements that were added. -/
theorem foldl_addOne_data_of_drop {r : Ring α cap} {p : List α}
    (h : r.data = p.drop (p.length - cap)) (as : List α) :
    (as.foldl addOne r).data = (p ++ as).drop ((p ++ as).length - cap) := by
  induction as generalizing r p with
  | nil => rw [List.foldl_nil, List.append_nil, h]
  | cons a as ih =>
    rw [List.foldl_cons, ih (addOne_data_of_drop h a), List.append_assoc, List.singleton_append]

theorem foldl_addOne_data (r : Ring α cap) (as : List α) :
    (as.foldl addOne r).data = (r.data ++ as).drop ((r.data ++ as).length - cap) := by
  apply foldl_addOne_data_of_drop
  rw [Nat.sub_eq_zero_of_le r.bound, List.drop_zero]

theorem foldl_addOne_data_of_le {r : Ring α cap} {as : List α}
    (h : r.data.length + as.length ≤ cap) : (as.foldl addOne r).data = r.data ++ as := by
  rw [foldl_addOne_data, List.length_append, Nat.sub_eq_zero_of_le h, List.drop_zero]

end Ring
end OflMotes
