import Mathlib.Data.List.Basic

/-! Key/value fields of a text: pieces between separators, each holding one equality sign. A
reader that assigns every field it meets keeps the last value of each key. -/
namespace OflMotes.Fields
variable {α : Type*} [DecidableEq α] (sep eq : α)

/-- The key and value of a piece with exactly one equality sign. -/
def pair (piece : List α) : Option (List α × List α) :=
  match piece.splitOn eq with
  | [k, v] => some (k, v)
  | _ => none

/-- The fields of a text, in order. -/
def fields (s : List α) : List (List α × List α) := (s.splitOn sep).filterMap (pair eq)

/-- The value of the last field with the given key. -/
def lastValue (name : List α) (fs : List (List α × List α)) : Option (List α) :=
  fs.foldl (fun acc f => if f.1 = name then some f.2 else acc) none

theorem pair_append {k v : List α} (hk : eq ∉ k) (hv : eq ∉ v) :
    pair eq (k ++ eq :: v) = some (k, v) := by
  rw [pair, List.splitOn_append_cons_self_of_not_mem hk, List.splitOn_eq_singleton hv]

/-- A piece with two equality signs is no field. -/
theorem pair_append_append (u v w : List α) : pair eq (u ++ eq :: (v ++ eq :: w)) = none := by
  rw [pair, List.splitOn_append_cons_self, List.splitOn_append_cons_self]
  have hu := List.length_pos_iff.mpr (List.splitOn_ne_nil eq u)
  have hv := List.length_pos_iff.mpr (List.splitOn_ne_nil eq v)
  have hw := List.length_pos_iff.mpr (List.splitOn_ne_nil eq w)
  split
  · rename_i h
    have := congrArg List.length h
    simp at this
    omega
  · rfl

/-- A text free of separators only lengthens the last piece. -/
theorem splitOn_append_of_notMem {y : List α} (hy : sep ∉ y) (x : List α) :
    (x ++ y).splitOn sep =
      (x.splitOn sep).dropLast ++ [(x.splitOn sep).getLast (List.splitOn_ne_nil sep x) ++ y] := by
  induction hn : x.length using Nat.strongRecOn generalizing x with
  | _ n ih =>
    by_cases hx : sep ∈ x
    · obtain ⟨u, w, rfl, hu⟩ := List.eq_append_cons_of_mem hx
      have hw := ih w.length (by subst hn; simp; omega) w rfl
      have hne := List.splitOn_ne_nil sep w
      simp only [List.append_assoc, List.cons_append,
        List.splitOn_append_cons_self_of_not_mem hu, hw]
      rw [List.dropLast_cons_of_ne_nil hne, List.getLast_cons hne]
      rfl
    · have hxy : sep ∉ x ++ y := by simp [hx, hy]
      simp only [List.splitOn_eq_singleton hx, List.splitOn_eq_singleton hxy]
      rfl

theorem fields_append_cons (x y : List α) :
    fields sep eq (x ++ sep :: y) = fields sep eq x ++ fields sep eq y := by
  simp [fields, List.splitOn_append_cons_self]

theorem fields_of_notMem {x : List α} (h : sep ∉ x) :
    fields sep eq x = (pair eq x).toList := by
  rw [fields, List.splitOn_eq_singleton h]
  cases hp : pair eq x <;> simp [hp]

/-- A text that is one field. -/
theorem fields_singleton {k v : List α} (hk : sep ∉ k ∧ eq ∉ k) (hv : sep ∉ v ∧ eq ∉ v)
    (hne : sep ≠ eq) : fields sep eq (k ++ eq :: v) = [(k, v)] := by
  rw [fields_of_notMem, pair_append eq hk.2 hv.2]
  · rfl
  · simp [hk.1, hv.1, hne]

/-- A first field is read off in front of the rest. -/
theorem fields_cons {k v : List α} (hk : sep ∉ k ∧ eq ∉ k) (hv : sep ∉ v ∧ eq ∉ v)
    (hne : sep ≠ eq) (rest : List α) :
    fields sep eq (k ++ eq :: (v ++ sep :: rest)) = (k, v) :: fields sep eq rest := by
  have h : k ++ eq :: (v ++ sep :: rest) = (k ++ eq :: v) ++ sep :: rest := by simp
  rw [h, fields_append_cons, fields_singleton sep eq hk hv hne]
  rfl

@[simp] theorem lastValue_nil (name : List α) : lastValue name [] = none := rfl

theorem foldl_last (name : List α) (fs : List (List α × List α)) (acc : Option (List α)) :
    fs.foldl (fun acc f => if f.1 = name then some f.2 else acc) acc =
      (lastValue name fs).or acc := by
  induction fs generalizing acc with
  | nil => rfl
  | cons f fs ih =>
    have hcons : lastValue name (f :: fs) =
        (lastValue name fs).or (if f.1 = name then some f.2 else none) := ih _
    rw [List.foldl_cons, ih, hcons]
    split_ifs <;> cases lastValue name fs <;> simp

theorem lastValue_append (name : List α) (fs gs : List (List α × List α)) :
    lastValue name (fs ++ gs) = (lastValue name gs).or (lastValue name fs) := by
  rw [lastValue, List.foldl_append, foldl_last]
  rfl

theorem lastValue_cons (name : List α) (f : List α × List α) (fs : List (List α × List α)) :
    lastValue name (f :: fs) = (lastValue name fs).or (if f.1 = name then some f.2 else none) := by
  rw [lastValue, List.foldl_cons, foldl_last]

theorem lastValue_eq_none {name : List α} {fs : List (List α × List α)} :
    lastValue name fs = none ↔ ∀ f ∈ fs, f.1 ≠ name := by
  induction fs with
  | nil => simp [lastValue]
  | cons f fs ih =>
    rw [lastValue_cons, Option.or_eq_none_iff, ih, List.forall_mem_cons, and_comm]
    simp

/-- Where no key is repeated, the fields are the values by their keys. -/
theorem lastValue_eq_some_iff {name v : List α} {fs : List (List α × List α)}
    (h : (fs.map Prod.fst).Nodup) : lastValue name fs = some v ↔ (name, v) ∈ fs := by
  induction fs with
  | nil => simp
  | cons f fs ih =>
    obtain ⟨hnot, htail⟩ := List.nodup_cons.mp h
    rw [lastValue_cons, List.mem_cons]
    by_cases hf : f.1 = name
    · subst hf
      have hnone : lastValue f.1 fs = none :=
        lastValue_eq_none.mpr fun g hg he => hnot (List.mem_map.mpr ⟨g, hg, he⟩)
      have hmem : (f.1, v) ∉ fs := fun hm => hnot (List.mem_map.mpr ⟨_, hm, rfl⟩)
      simp [hnone, hmem, Prod.ext_iff, eq_comm]
    · have hne : (name, v) ≠ f := fun he => hf (by rw [← he])
      rw [if_neg hf, Option.or_none, ih htail]
      simp [hne]

section
variable {β : Type*} (write : List α → Option β) (name : List α)

/-- What the last field with the key writes, of those whose text writes a value. -/
def lastWritten : List (List α × List α) → Option β
  | [] => none
  | f :: fs => (lastWritten fs).or (if f.1 = name then write f.2 else none)

variable {write name}

theorem lastWritten_of_none {fs : List (List α × List α)} (h : lastValue name fs = none) :
    lastWritten write name fs = none := by
  rw [lastValue_eq_none] at h
  induction fs with
  | nil => rfl
  | cons f fs ih =>
    rw [lastWritten, ih fun g hg => h g (by simp [hg]), if_neg (h f (by simp)), Option.or_none]

theorem exists_of_lastWritten {fs : List (List α × List α)} {w : β}
    (h : lastWritten write name fs = some w) : ∃ v, write v = some w := by
  induction fs with
  | nil => contradiction
  | cons f fs ih =>
    rw [lastWritten, Option.or_eq_some_iff] at h
    rcases h with h | ⟨-, h⟩
    · exact ih h
    · split_ifs at h
      exact ⟨f.2, h⟩

/-- Where the last text writes a value, no earlier one counts. -/
theorem lastWritten_of_some {fs : List (List α × List α)} {v : List α} {w : β}
    (h : lastValue name fs = some v) (hv : write v = some w) :
    lastWritten write name fs = some w := by
  induction fs with
  | nil => contradiction
  | cons f fs ih =>
    rw [lastValue_cons] at h
    cases hfs : lastValue name fs with
    | some u =>
      rw [hfs, Option.some_or] at h
      rw [lastWritten, ih (hfs.trans h), Option.some_or]
    | none =>
      rw [hfs, Option.none_or] at h
      split_ifs at h with hf
      rw [lastWritten, lastWritten_of_none hfs, Option.none_or, if_pos hf, Option.some.inj h, hv]

/-- A reader that takes every last text as a value agrees with what the fields write exactly if
the last text writes what it is taken for, or writes nothing and that was written before. -/
theorem map_lastValue_eq_iff (read : List α → β) (fs : List (List α × List α)) :
    (lastValue name fs).map read = lastWritten write name fs ↔
      ∀ v ∈ lastValue name fs, write v = some (read v) ∨
        write v = none ∧ lastWritten write name fs = some (read v) := by
  cases h : lastValue name fs with
  | none => simp [lastWritten_of_none h]
  | some v =>
    simp only [Option.map_some, Option.mem_def, Option.some.injEq, forall_eq']
    cases hv : write v with
    | none => simp [eq_comm]
    | some w => simp [lastWritten_of_some h hv, eq_comm]

/-- The same for a reader that is right on what is written, where a value is known to stand for a
field that writes none. -/
theorem getD_lastValue_eq_iff {read : List α → β} (hread : ∀ v w, write v = some w → read v = w)
    (d : β) (fs : List (List α × List α)) :
    ((lastValue name fs).map read).getD d = (lastWritten write name fs).getD d ↔
      ∀ v ∈ lastValue name fs,
        (write v).isSome ∨ (lastWritten write name fs).getD d = read v := by
  cases h : lastValue name fs with
  | none => simp [lastWritten_of_none h]
  | some v =>
    simp only [Option.map_some, Option.getD_some, Option.mem_def, Option.some.injEq, forall_eq']
    cases hv : write v with
    | none => simp [eq_comm]
    | some w => simp [lastWritten_of_some h hv, hread v w hv]

end

end OflMotes.Fields
