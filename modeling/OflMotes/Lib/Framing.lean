import Mathlib.Data.List.Basic

/-! Delimited frames in a stream of symbols: a marker, a nonempty body free of the stop
symbol, the stop symbol and a fixed tail. The leftmost frame of a buffer is stable under
appending, so extraction commutes with cutting the stream into chunks. -/
namespace OflMotes.Framing

/-- The delimiters of frames of the shape `head more [^stop]+ stop tail`. The first symbol of
the marker occurs nowhere else in the delimiters, so that two markers never overlap. -/
structure Delim (α : Type*) where
  head : α
  more : List α
  stop : α
  tail : List α
  head_notMem_more : head ∉ more
  head_ne_stop : head ≠ stop
  head_notMem_tail : head ∉ tail
  stop_notMem_more : stop ∉ more

/-- A list is cut at its first stop symbol in one way only. -/
theorem first_cut_unique {α : Type*} {stop : α} {u u' v v' : List α} (hu : stop ∉ u)
    (hu' : stop ∉ u') (h : u ++ stop :: v = u' ++ stop :: v') : u = u' ∧ v = v' := by
  induction u generalizing u' with
  | nil =>
    cases u' with
    | nil => exact ⟨rfl, (List.cons.inj h).2⟩
    | cons a u' => exact absurd (List.cons.inj h).1 (List.ne_of_not_mem_cons hu')
  | cons a u ih =>
    cases u' with
    | nil => exact absurd (List.cons.inj h).1.symm (List.ne_of_not_mem_cons hu)
    | cons b u' =>
      obtain ⟨rfl, ht⟩ := List.cons.inj h
      obtain ⟨rfl, rfl⟩ := ih (List.not_mem_of_not_mem_cons hu)
        (List.not_mem_of_not_mem_cons hu') ht
      exact ⟨rfl, rfl⟩

/-- A list that contains the stop symbol is cut at its first occurrence. -/
theorem exists_first_cut {α : Type*} {stop : α} {s : List α} (h : stop ∈ s) :
    ∃ u v, s = u ++ stop :: v ∧ stop ∉ u := by
  obtain ⟨u, v, hs, hu⟩ := List.eq_append_cons_of_mem h
  exact ⟨u, v, hs, hu⟩

namespace Delim
variable {α : Type*} (d : Delim α)

def marker : List α := d.head :: d.more

/-- The complete frame with the given body. -/
def frame (body : List α) : List α := d.marker ++ (body ++ d.stop :: d.tail)

/-- What may stand between the marker and the stop symbol. -/
def Body (b : List α) : Prop := b ≠ [] ∧ d.stop ∉ b

@[simp] theorem marker_ne_nil : d.marker ≠ [] := by simp [marker]

theorem stop_notMem_marker : d.stop ∉ d.marker := by
  simp [marker, d.head_ne_stop.symm, d.stop_notMem_more]

theorem marker_length_pos : 0 < d.marker.length := by simp [marker]

@[simp] theorem frame_length (b : List α) :
    (d.frame b).length = d.marker.length + b.length + 1 + d.tail.length := by
  simp [frame]; omega

/-- The first stop symbol is followed by at least as much as a tail, so that what begins the
list is already decided. -/
def Closed (s : List α) : Prop :=
  ∃ u v, s = u ++ d.stop :: v ∧ d.stop ∉ u ∧ d.tail.length ≤ v.length

theorem Closed.cons {s : List α} (h : d.Closed s) (a : α) : d.Closed (a :: s) := by
  obtain ⟨u, v, rfl, hu, hv⟩ := h
  by_cases ha : d.stop = a
  · exact ⟨[], u ++ d.stop :: v, by simp [ha], by simp, by simp; omega⟩
  · exact ⟨a :: u, v, by simp, by simp [ha, hu], hv⟩

theorem closed_frame {b : List α} (hb : d.Body b) (rest : List α) :
    d.Closed (d.frame b ++ rest) := by
  refine ⟨d.marker ++ b, d.tail ++ rest, by simp [frame], ?_, by simp⟩
  simp [d.stop_notMem_marker, hb.2]

theorem Closed.append_left {s : List α} (h : d.Closed s) (pre : List α) :
    d.Closed (pre ++ s) := by
  induction pre with
  | nil => exact h
  | cons a pre ih => exact ih.cons d a

/-- An unfinished marker at the end of a buffer cannot be completed by a frame behind it. -/
theorem marker_prefix_append {a : α} {g x y : List α}
    (h : a :: g ++ d.head :: x = d.marker ++ y) : d.marker <+: a :: g := by
  rcases List.append_eq_append_iff.mp h with ⟨z, hz, hy⟩ | ⟨z, hz, -⟩
  · cases z with
    | nil => exact ⟨[], by simpa using hz⟩
    | cons c z =>
      obtain ⟨rfl, -⟩ := List.cons.inj hy
      have hmore : d.more = g ++ d.head :: z := (List.cons.inj hz).2
      exact absurd (by simp [hmore]) d.head_notMem_more
  · exact ⟨z, hz.symm⟩

variable [DecidableEq α]

/-- Length of the frame that starts the buffer, if one does. -/
def matchLen (s : List α) : Option ℕ :=
  let body := (s.drop d.marker.length).takeWhile (· ≠ d.stop)
  if d.marker <+: s ∧ body ≠ [] ∧ d.stop :: d.tail <+: s.drop (d.marker.length + body.length)
  then some (d.marker.length + body.length + 1 + d.tail.length) else none

/-- Start and end of the leftmost frame of the buffer. -/
def findIndex : List α → Option (ℕ × ℕ)
  | [] => none
  | a :: s =>
    match d.matchLen (a :: s) with
    | some n => some (0, n)
    | none => (findIndex s).map fun m => (m.1 + 1, m.2 + 1)

/-- Repeated leftmost extraction, with the number of frames bounded by the fuel. -/
def extractN : ℕ → List α → List (List α)
  | 0, _ => []
  | n + 1, s =>
    match d.findIndex s with
    | none => []
    | some m => (s.take m.2).drop m.1 :: extractN n (s.drop m.2)

/-- All frames of the buffer, by repeated leftmost extraction. -/
def extract (s : List α) : List (List α) := d.extractN s.length s

theorem matchLen_frame {b : List α} (hb : d.Body b) (rest : List α) :
    d.matchLen (d.frame b ++ rest) = some (d.frame b).length := by
  have hdrop : (d.frame b ++ rest).drop d.marker.length = b ++ d.stop :: (d.tail ++ rest) := by
    simp [frame]
  have hbody : (b ++ d.stop :: (d.tail ++ rest)).takeWhile (· ≠ d.stop) = b := by
    rw [List.takeWhile_append_of_pos]
    · simp
    · intro a ha
      have hne : a ≠ d.stop := by rintro rfl; exact hb.2 ha
      simpa using hne
  have hrest : (d.frame b ++ rest).drop (d.marker.length + b.length) =
      d.stop :: d.tail ++ rest := by
    rw [← List.drop_drop, hdrop]; simp
  simp only [matchLen, hdrop, hbody, hrest]
  rw [if_pos]
  · simp
  · exact ⟨⟨_, by simp [frame]; rfl⟩, hb.1, ⟨rest, rfl⟩⟩

/-- `matchLen` recognises exactly the buffers that begin with a complete frame. -/
theorem matchLen_eq_some {s : List α} {n : ℕ} :
    d.matchLen s = some n ↔
      ∃ b rest, d.Body b ∧ s = d.frame b ++ rest ∧ n = (d.frame b).length := by
  constructor
  · intro h
    simp only [matchLen] at h
    split_ifs at h with hm
    obtain ⟨⟨v, rfl⟩, hne, w, hw⟩ := hm
    simp only [List.drop_left] at hne hw h
    rw [← List.drop_drop, List.drop_left] at hw
    set b := v.takeWhile (· ≠ d.stop) with hb
    have hstop : d.stop ∉ b := by
      intro hmem
      have := (List.all_takeWhile (p := (· ≠ d.stop)) (l := v))
      simpa using List.all_eq_true.mp this d.stop hmem
    have hv : v = b ++ (d.stop :: d.tail ++ w) := by
      rw [hw]
      conv_lhs => rw [← List.takeWhile_append_dropWhile (p := (· ≠ d.stop)) (l := v)]
      rw [← hb, List.append_cancel_left_eq]
      conv_rhs => rw [← List.takeWhile_append_dropWhile (p := (· ≠ d.stop)) (l := v), ← hb]
      simp
    refine ⟨b, w, ⟨hne, hstop⟩, ?_, ?_⟩
    · rw [hv]; simp [frame]
    · simp only [Option.some.injEq] at h
      simp [← h]
  · rintro ⟨b, rest, hb, rfl, rfl⟩
    exact d.matchLen_frame hb rest

theorem matchLen_append {s : List α} {n : ℕ} (h : d.matchLen s = some n) (t : List α) :
    d.matchLen (s ++ t) = some n := by
  obtain ⟨b, rest, hb, rfl, rfl⟩ := d.matchLen_eq_some.mp h
  rw [List.append_assoc]
  exact d.matchLen_frame hb _

/-- Appending to a closed list decides nothing new about its beginning. -/
theorem matchLen_append_of_closed {s : List α} (h : d.Closed s) (t : List α) :
    d.matchLen (s ++ t) = d.matchLen s := by
  cases hs : d.matchLen s with
  | some n => exact d.matchLen_append hs t
  | none =>
    rw [Option.eq_none_iff_forall_ne_some]
    intro n hn
    obtain ⟨u, v, rfl, hu, hv⟩ := h
    obtain ⟨b, rest, hb, he, rfl⟩ := d.matchLen_eq_some.mp hn
    have hcut : u ++ d.stop :: (v ++ t) = (d.marker ++ b) ++ d.stop :: (d.tail ++ rest) := by
      simpa [frame] using he
    obtain ⟨rfl, hvt⟩ := first_cut_unique hu (by simp [d.stop_notMem_marker, hb.2]) hcut
    have htail : d.tail <+: v :=
      List.prefix_of_prefix_length_le ⟨rest, hvt.symm⟩ (List.prefix_append v t) hv
    obtain ⟨w, rfl⟩ := htail
    have hm := d.matchLen_frame hb w
    simp only [frame, List.append_assoc, List.cons_append] at hm hs
    rw [hs] at hm
    contradiction

/-- The reported indices delimit a complete frame of the buffer. -/
theorem findIndex_eq_some {s : List α} {m : ℕ × ℕ} (h : d.findIndex s = some m) :
    ∃ pre b rest, d.Body b ∧ s = pre ++ (d.frame b ++ rest) ∧
      m = (pre.length, pre.length + (d.frame b).length) := by
  induction s generalizing m with
  | nil => simp [findIndex] at h
  | cons a s ih =>
    simp only [findIndex] at h
    split at h
    · rename_i n hn
      obtain ⟨b, rest, hb, hs, rfl⟩ := d.matchLen_eq_some.mp hn
      exact ⟨[], b, rest, hb, hs, by simpa using h.symm⟩
    · obtain ⟨m', hm', rfl⟩ := Option.map_eq_some_iff.mp h
      obtain ⟨pre, b, rest, hb, rfl, rfl⟩ := ih hm'
      exact ⟨a :: pre, b, rest, hb, rfl, by simp; omega⟩

theorem closed_of_findIndex {s : List α} {m : ℕ × ℕ} (h : d.findIndex s = some m) :
    d.Closed s := by
  obtain ⟨pre, b, rest, hb, rfl, -⟩ := d.findIndex_eq_some h
  exact (d.closed_frame hb rest).append_left d pre

/-- The leftmost frame of a buffer stays the leftmost frame whatever is appended. -/
theorem findIndex_append {s : List α} {m : ℕ × ℕ} (h : d.findIndex s = some m) (t : List α) :
    d.findIndex (s ++ t) = some m := by
  induction s generalizing m with
  | nil => simp [findIndex] at h
  | cons a s ih =>
    have hc := d.closed_of_findIndex h
    rw [List.cons_append, findIndex, ← List.cons_append, d.matchLen_append_of_closed hc]
    simp only [findIndex] at h
    split at h
    · simpa using h
    · obtain ⟨m', hm', rfl⟩ := Option.map_eq_some_iff.mp h
      simp [ih hm']

theorem findIndex_end_pos {s : List α} {m : ℕ × ℕ} (h : d.findIndex s = some m) :
    0 < m.2 ∧ m.2 ≤ s.length := by
  obtain ⟨pre, b, rest, -, rfl, rfl⟩ := d.findIndex_eq_some h
  have := d.marker_length_pos
  simp only [List.length_append, frame_length]
  omega

theorem extractN_nil (n : ℕ) : d.extractN n [] = [] := by cases n <;> rfl

/-- Any fuel that covers the buffer gives the same frames. -/
theorem extractN_congr {n k : ℕ} {s : List α} (hn : s.length ≤ n) (hk : s.length ≤ k) :
    d.extractN n s = d.extractN k s := by
  induction n generalizing k s with
  | zero =>
    obtain rfl := List.eq_nil_of_length_eq_zero (Nat.le_zero.mp hn)
    rw [extractN_nil, extractN_nil]
  | succ n ih =>
    cases k with
    | zero =>
      obtain rfl := List.eq_nil_of_length_eq_zero (Nat.le_zero.mp hk)
      rw [extractN_nil, extractN_nil]
    | succ k =>
      simp only [extractN]
      cases hf : d.findIndex s with
      | none => rfl
      | some m =>
        have hpos := d.findIndex_end_pos hf
        simp only [List.cons.injEq, true_and]
        exact ih (by simp; omega) (by simp; omega)

@[simp] theorem extract_nil : d.extract [] = [] := rfl

theorem extract_of_none {s : List α} (h : d.findIndex s = none) : d.extract s = [] := by
  unfold extract
  cases s with
  | nil => rfl
  | cons a s => simp [extractN, h]

theorem extract_of_some {s : List α} {m : ℕ × ℕ} (h : d.findIndex s = some m) :
    d.extract s = (s.take m.2).drop m.1 :: d.extract (s.drop m.2) := by
  have hpos := d.findIndex_end_pos h
  cases s with
  | nil => simp [findIndex] at h
  | cons a s =>
    unfold extract
    simp only [List.length_cons, extractN, h, List.cons.injEq, true_and]
    exact d.extractN_congr (by simp at hpos ⊢; omega) (Nat.le_refl _)

theorem extract_eq_nil_iff {s : List α} : d.extract s = [] ↔ d.findIndex s = none := by
  constructor
  · intro h
    cases hf : d.findIndex s with
    | none => rfl
    | some m => rw [d.extract_of_some hf] at h; contradiction
  · exact d.extract_of_none

/-- Once the leftmost frame is complete, later symbols only extend what follows it. -/
theorem extract_append_of_some {s : List α} {m : ℕ × ℕ} (h : d.findIndex s = some m)
    (t : List α) :
    d.extract (s ++ t) = (s.take m.2).drop m.1 :: d.extract (s.drop m.2 ++ t) := by
  have hpos := d.findIndex_end_pos h
  rw [d.extract_of_some (d.findIndex_append h t), List.take_append_of_le_length hpos.2,
    List.drop_append_of_le_length hpos.2]

/-- Appending symbols takes no frame away. -/
theorem extract_prefix_append (s t : List α) : d.extract s <+: d.extract (s ++ t) := by
  induction hn : s.length using Nat.strongRecOn generalizing s with
  | _ n ih =>
    cases hf : d.findIndex s with
    | none => simp [d.extract_of_none hf]
    | some m =>
      have hpos := d.findIndex_end_pos hf
      rw [d.extract_of_some hf, d.extract_append_of_some hf]
      exact List.prefix_cons_inj _ |>.mpr (ih _ (by subst hn; simp; omega) _ rfl)

/-- A symbol that is not the head of the marker in front of the buffer changes no frame. -/
theorem extract_cons_of_ne {a : α} (h : a ≠ d.head) (s : List α) :
    d.extract (a :: s) = d.extract s := by
  have hm : d.matchLen (a :: s) = none := by
    rw [Option.eq_none_iff_forall_ne_some]
    intro n hn
    obtain ⟨b, rest, -, he, -⟩ := d.matchLen_eq_some.mp hn
    exact h (List.cons.inj he).1
  cases hf : d.findIndex s with
  | none =>
    rw [d.extract_of_none hf, d.extract_of_none]
    simp [findIndex, hm, hf]
  | some m =>
    have hcons : d.findIndex (a :: s) = some (m.1 + 1, m.2 + 1) := by simp [findIndex, hm, hf]
    rw [d.extract_of_some hf, d.extract_of_some hcons]
    simp

/-! A buffer without a complete frame may still end inside an opened one. -/

/-- What follows the leftmost marker after which the list has no stop symbol. -/
def openBody : List α → Option (List α)
  | [] => none
  | a :: s =>
    if d.marker <+: a :: s ∧ d.stop ∉ s then some ((a :: s).drop d.marker.length)
    else openBody s

theorem openBody_eq_some {g v : List α} (h : d.openBody g = some v) :
    ∃ pre, g = pre ++ (d.marker ++ v) ∧ d.stop ∉ v := by
  induction g with
  | nil => simp [openBody] at h
  | cons a g ih =>
    simp only [openBody] at h
    split_ifs at h with hm
    · obtain ⟨⟨w, hw⟩, hstop⟩ := hm
      rw [← hw, List.drop_left, Option.some.injEq] at h
      subst h
      refine ⟨[], by simpa using hw.symm, fun hmem => hstop ?_⟩
      have : g = d.more ++ w := (List.cons.inj hw).2.symm
      simp [this, hmem]
    · obtain ⟨pre, rfl, hv⟩ := ih h
      exact ⟨a :: pre, rfl, hv⟩

theorem openBody_eq_none_of_not_infix {g : List α} (h : ¬ d.marker <:+: g) :
    d.openBody g = none := by
  cases ho : d.openBody g with
  | none => rfl
  | some v =>
    obtain ⟨pre, rfl, -⟩ := d.openBody_eq_some ho
    exact absurd ⟨pre, v, by simp⟩ h

theorem findIndex_eq_none_of_not_infix {g : List α} (h : ¬ d.marker <:+: g) :
    d.findIndex g = none := by
  cases hf : d.findIndex g with
  | none => rfl
  | some m =>
    obtain ⟨pre, b, rest, -, rfl, -⟩ := d.findIndex_eq_some hf
    exact absurd ⟨pre, b ++ d.stop :: d.tail ++ rest, by simp [frame]⟩ h

/-- The body that a frame printed after the buffer really ends up in. -/
def reopen (g b : List α) : List α :=
  match d.openBody g with
  | none => b
  | some v => v ++ (d.marker ++ b)

theorem matchLen_append_head {a : α} {g x : List α} (hg : d.matchLen (a :: g) = none)
    (hopen : ¬ (d.marker <+: a :: g ∧ d.stop ∉ g)) :
    d.matchLen (a :: g ++ d.head :: x) = none := by
  rw [Option.eq_none_iff_forall_ne_some]
  intro n hn
  obtain ⟨b, rest, hb, he, -⟩ := d.matchLen_eq_some.mp hn
  have hmark : d.marker <+: a :: g := d.marker_prefix_append (x := x) (by simpa [frame] using he)
  have hstop : d.stop ∈ g := by
    by_contra hns
    exact hopen ⟨hmark, hns⟩
  obtain ⟨u, w, hu, hnu⟩ := exists_first_cut (List.mem_cons_of_mem a hstop)
  have hcut : u ++ d.stop :: (w ++ d.head :: x) = d.marker ++ b ++ d.stop :: (d.tail ++ rest) := by
    rw [hu] at he
    simpa [frame] using he
  obtain ⟨rfl, hw⟩ := first_cut_unique hnu (by simp [d.stop_notMem_marker, hb.2]) hcut
  rcases List.append_eq_append_iff.mp hw with ⟨z, hz, hrest⟩ | ⟨z, hz, -⟩
  · cases z with
    | nil =>
      have hm := d.matchLen_frame hb []
      have hs : a :: g = d.frame b ++ [] := by simp [hu, frame, hz]
      rw [← hs, hg] at hm
      contradiction
    | cons c z =>
      obtain ⟨rfl, -⟩ := List.cons.inj hrest
      exact d.head_notMem_tail (by simp [hz])
  · have hm := d.matchLen_frame hb z
    have hs : a :: g = d.frame b ++ z := by simp [hu, frame, hz]
    rw [← hs, hg] at hm
    contradiction

theorem findIndex_frame {b : List α} (hb : d.Body b) (rest : List α) :
    d.findIndex (d.frame b ++ rest) = some (0, (d.frame b).length) := by
  have hm := d.matchLen_frame hb rest
  simp only [frame, marker, List.cons_append] at hm ⊢
  simp only [findIndex, hm]

/-- A frame behind a buffer without a complete one is found, but as the end of the frame that
the buffer left open, if it left one open. -/
theorem findIndex_append_frame {g b : List α} (hg : d.findIndex g = none) (hb : d.Body b)
    (rest : List α) :
    ∃ pre, g ++ (d.frame b ++ rest) = pre ++ (d.frame (d.reopen g b) ++ rest) ∧
      d.findIndex (g ++ (d.frame b ++ rest)) =
        some (pre.length, pre.length + (d.frame (d.reopen g b)).length) := by
  induction g with
  | nil => exact ⟨[], rfl, by simpa [reopen, openBody] using d.findIndex_frame hb rest⟩
  | cons a g ih =>
    simp only [findIndex] at hg
    split at hg
    · contradiction
    · rename_i hm
      by_cases hopen : d.marker <+: a :: g ∧ d.stop ∉ g
      · obtain ⟨⟨w, hw⟩, hns⟩ := hopen
        have hr : d.reopen (a :: g) b = w ++ (d.marker ++ b) := by
          have ho : d.openBody (a :: g) = some w := by
            rw [openBody, if_pos ⟨⟨w, hw⟩, hns⟩, ← hw, List.drop_left]
          simp [reopen, ho]
        have hwg : d.stop ∉ w := by
          have : g = d.more ++ w := (List.cons.inj hw).2.symm
          simp_all
        have hbody : d.Body (w ++ (d.marker ++ b)) :=
          ⟨by simp, by simp [hwg, d.stop_notMem_marker, hb.2]⟩
        have hs : a :: g ++ (d.frame b ++ rest) = d.frame (w ++ (d.marker ++ b)) ++ rest := by
          rw [← hw]; simp [frame]
        refine ⟨[], by rw [hr, hs]; rfl, ?_⟩
        rw [hr, hs, d.findIndex_frame hbody]
        simp
      · have hr : d.reopen (a :: g) b = d.reopen g b := by
          simp only [reopen, openBody, if_neg hopen]
        obtain ⟨pre, he, hf⟩ := ih (by simpa using hg)
        have hnone : d.matchLen (a :: g ++ (d.frame b ++ rest)) = none :=
          d.matchLen_append_head hm hopen
        refine ⟨a :: pre, by rw [hr, List.cons_append, he]; rfl, ?_⟩
        rw [List.cons_append] at hnone ⊢
        simp only [findIndex, hnone, hf, hr]
        simp; omega

theorem extract_append_frame {g b : List α} (hg : d.findIndex g = none) (hb : d.Body b)
    (rest : List α) :
    d.extract (g ++ (d.frame b ++ rest)) = d.frame (d.reopen g b) :: d.extract rest := by
  obtain ⟨pre, he, hf⟩ := d.findIndex_append_frame hg hb rest
  rw [d.extract_of_some hf, he]
  congr 1
  · rw [← List.append_assoc, List.take_left' (by simp), List.drop_left]
  · rw [← List.append_assoc, List.drop_left' (by simp)]

/-- Text free of markers in front of a frame is skipped. -/
theorem extract_text_frame {g b : List α} (hg : ¬ d.marker <:+: g) (hb : d.Body b)
    (rest : List α) :
    d.extract (g ++ (d.frame b ++ rest)) = d.frame b :: d.extract rest := by
  rw [d.extract_append_frame (d.findIndex_eq_none_of_not_infix hg) hb,
    reopen, d.openBody_eq_none_of_not_infix hg]

end Delim
end OflMotes.Framing
