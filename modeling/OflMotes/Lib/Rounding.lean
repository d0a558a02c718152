import Mathlib.Algebra.Order.Round
import Mathlib.Algebra.Order.Field.Power
import Mathlib.Data.Int.Log
import Mathlib.Data.Rat.Floor
import Mathlib.Tactic.Linarith
import Mathlib.Tactic.Positivity

/-! Rounding to binary floating point. A format keeps `p` bits and has a least exponent; a number
is rounded to the nearest one that the format represents, halfway to the even one. -/
namespace OflMotes.Rounding

/-- The nearest integer, of two the even one. -/
def roundEven (x : ℚ) : ℤ :=
  if Int.fract x < 1 / 2 ∨ Int.fract x = 1 / 2 ∧ Even ⌊x⌋ then ⌊x⌋ else ⌊x⌋ + 1

theorem abs_roundEven_sub_le (x : ℚ) : |roundEven x - x| ≤ 1 / 2 := by
  have hx := Int.floor_add_fract x
  have hlo := Int.fract_nonneg x
  have hhi := Int.fract_lt_one x
  unfold roundEven
  split_ifs with h
  · have hhalf : Int.fract x ≤ 1 / 2 := h.elim le_of_lt fun h => h.1.le
    rw [abs_le]
    constructor <;> linarith
  · have hhalf : 1 / 2 ≤ Int.fract x := not_lt.mp fun hlt => h (.inl hlt)
    push_cast
    rw [abs_le]
    constructor <;> linarith

/-- No integer is nearer. -/
theorem abs_roundEven_sub_le_abs (x : ℚ) (k : ℤ) : |roundEven x - x| ≤ |k - x| := by
  have hhalf := abs_roundEven_sub_le x
  by_cases hk : k = roundEven x
  · rw [hk]
  have hdist : (1 : ℚ) ≤ |(k : ℚ) - roundEven x| := by
    exact_mod_cast Int.one_le_abs (sub_ne_zero.mpr hk)
  have htri : |(k : ℚ) - roundEven x| ≤ |k - x| + |roundEven x - x| := by
    rw [abs_sub_comm (roundEven x : ℚ) x]
    exact abs_sub_le _ _ _
  linarith

section
variable (p : ℕ) (emin : ℤ)

/-- The exponent of the last place that the format keeps of a number. -/
def lastPlace (q : ℚ) : ℤ := max (Int.log 2 |q| + 1 - p) emin

/-- The number in the format nearest to `q`. -/
def nearest (q : ℚ) : ℚ := roundEven (q / 2 ^ lastPlace p emin q) * 2 ^ lastPlace p emin q

/-- The numbers of the format: at most `p` bits, none below the least exponent. -/
def Representable (q : ℚ) : Prop := ∃ m e : ℤ, |m| < 2 ^ p ∧ emin ≤ e ∧ q = m * 2 ^ e

variable {p : ℕ} {emin : ℤ}

theorem abs_lt_lastPlace (q : ℚ) : |q| < 2 ^ (lastPlace p emin q + p) := by
  have hlog : |q| < 2 ^ (Int.log 2 |q| + 1) := by
    exact_mod_cast Int.lt_zpow_succ_log_self (b := 2) (by norm_num) |q|
  have hle : Int.log 2 |q| + 1 ≤ lastPlace p emin q + p := by
    have := le_max_left (Int.log 2 |q| + 1 - p) emin
    rw [lastPlace]
    omega
  exact hlog.trans_le (zpow_le_zpow_right₀ (by norm_num) hle)

theorem nearest_representable (hp : 0 < p) (q : ℚ) :
    Representable p emin (nearest p emin q) := by
  set e := lastPlace p emin q with he
  have hpos : (0 : ℚ) < 2 ^ e := by positivity
  have hx : |q / 2 ^ e| < 2 ^ p := by
    rw [abs_div, abs_of_pos hpos, div_lt_iff₀ hpos, ← zpow_natCast, ← zpow_add₀ (by norm_num),
      add_comm]
    exact abs_lt_lastPlace q
  have hround := abs_roundEven_sub_le (q / 2 ^ e)
  have hle : |roundEven (q / 2 ^ e)| ≤ 2 ^ p := by
    have hlt : |(roundEven (q / 2 ^ e) : ℚ)| < 2 ^ p + 1 := by
      have := abs_sub_abs_le_abs_sub (roundEven (q / 2 ^ e) : ℚ) (q / 2 ^ e)
      linarith
    exact Int.lt_add_one_iff.mp (by exact_mod_cast hlt)
  have hmin : emin ≤ e := le_max_right _ _
  rcases hle.lt_or_eq with hlt | heq
  · exact ⟨_, e, hlt, hmin, rfl⟩
  · -- The rounding reached the next power of two.
    have hone : |(1 : ℤ)| < 2 ^ p ∧ |(-1 : ℤ)| < 2 ^ p := by
      rw [abs_neg, abs_one, and_self]
      exact one_lt_pow₀ (by norm_num) hp.ne'
    have hpow : (2 : ℚ) ^ (p + e) = 2 ^ p * 2 ^ e := by
      rw [zpow_add₀ (by norm_num), zpow_natCast]
    rcases abs_eq (by positivity : (0 : ℤ) ≤ 2 ^ p) |>.mp heq with hm | hm
    · refine ⟨1, p + e, hone.1, by omega, ?_⟩
      rw [nearest, ← he, hm, hpow]
      push_cast
      ring
    · refine ⟨-1, p + e, hone.2, by omega, ?_⟩
      rw [nearest, ← he, hm, hpow]
      push_cast
      ring

/-- No multiple of the last place is nearer. -/
theorem abs_nearest_sub_le_of_multiple (q : ℚ) (k : ℤ) :
    |nearest p emin q - q| ≤ |k * 2 ^ lastPlace p emin q - q| := by
  set e := lastPlace p emin q with he
  have hpos : (0 : ℚ) < 2 ^ e := by positivity
  have hscale (z : ℤ) : |z * 2 ^ e - q| = |z - q / 2 ^ e| * 2 ^ e := by
    rw [← abs_of_pos hpos, ← abs_mul, abs_of_pos hpos, sub_mul, div_mul_cancel₀ _ hpos.ne']
  rw [nearest, ← he, hscale, hscale]
  exact mul_le_mul_of_nonneg_right (abs_roundEven_sub_le_abs _ k) hpos.le

/-- Of two opposite numbers that are no larger than `q`, one lies between zero and `q`. -/
theorem exists_toward {a q : ℚ} (h : a ≤ |q|) : ∃ r, (r = a ∨ r = -a) ∧ |r - q| = |q| - a := by
  rcases abs_choice q with habs | habs
  · refine ⟨a, .inl rfl, ?_⟩
    rw [habs] at h
    rw [abs_sub_comm, habs, abs_of_nonneg (by linarith)]
  · refine ⟨-a, .inr rfl, ?_⟩
    rw [abs_of_nonneg (by linarith)]
    linarith

/-- The power of two in front of a number is a multiple of its last place, on either side of zero. -/
theorem exists_multiple (hp : 0 < p) {q : ℚ} (hq : q ≠ 0)
    (hplace : lastPlace p emin q = Int.log 2 |q| + 1 - p) :
    ∃ k : ℤ, |k * 2 ^ lastPlace p emin q - q| = |q| - 2 ^ Int.log 2 |q| := by
  have hlow : (2 : ℚ) ^ Int.log 2 |q| ≤ |q| := by
    exact_mod_cast Int.zpow_log_le_self (by norm_num) (abs_pos.mpr hq)
  have hpow : ((2 ^ (p - 1) : ℤ) : ℚ) * 2 ^ lastPlace p emin q = 2 ^ Int.log 2 |q| := by
    rw [hplace]
    push_cast
    rw [← zpow_natCast, ← zpow_add₀ (by norm_num)]
    congr 1
    omega
  obtain ⟨r, hr, hdist⟩ := exists_toward hlow
  rcases hr with rfl | rfl
  · exact ⟨2 ^ (p - 1), by rw [hpow, hdist]⟩
  · exact ⟨-2 ^ (p - 1), by rw [Int.cast_neg, neg_mul, hpow, hdist]⟩

/-- A number of the format with a finer last place lies below that power of two. -/
theorem abs_le_of_finer {l m f : ℤ} (hm : |m| < 2 ^ p) (hf : f < l + 1 - p) :
    |(m : ℚ) * 2 ^ f| ≤ 2 ^ l := by
  have hm' : |(m : ℚ)| ≤ 2 ^ p := by exact_mod_cast hm.le
  have hpf : (2 : ℚ) ^ p * 2 ^ f ≤ 2 ^ l := by
    rw [← zpow_natCast, ← zpow_add₀ (by norm_num)]
    exact zpow_le_zpow_right₀ (by norm_num) (by omega)
  rw [abs_mul, abs_of_pos (by positivity : (0 : ℚ) < 2 ^ f)]
  exact (mul_le_mul_of_nonneg_right hm' (by positivity)).trans hpf

/-- No number of the format is nearer. -/
theorem abs_nearest_sub_le (hp : 0 < p) (q : ℚ) {r : ℚ} (hr : Representable p emin r) :
    |nearest p emin q - q| ≤ |r - q| := by
  obtain ⟨m, f, hm, hf, rfl⟩ := hr
  by_cases hfe : lastPlace p emin q ≤ f
  · have hmul : (m : ℚ) * 2 ^ f =
        ((m * 2 ^ (f - lastPlace p emin q).toNat : ℤ) : ℚ) * 2 ^ lastPlace p emin q := by
      push_cast
      rw [mul_assoc, ← zpow_natCast, ← zpow_add₀ (by norm_num), Int.toNat_of_nonneg (by omega)]
      congr 2
      omega
    rw [hmul]
    exact abs_nearest_sub_le_of_multiple q _
  · have hplace : lastPlace p emin q = Int.log 2 |q| + 1 - p := by
      refine (max_choice (Int.log 2 |q| + 1 - p) emin).resolve_right fun h => ?_
      have hmin : lastPlace p emin q = emin := h
      omega
    rcases eq_or_ne q 0 with rfl | hq
    · have hzero : |nearest p emin 0 - 0| ≤ |((0 : ℤ) : ℚ) * 2 ^ lastPlace p emin 0 - 0| :=
        abs_nearest_sub_le_of_multiple 0 0
      rw [Int.cast_zero, zero_mul, sub_self, abs_zero] at hzero
      exact hzero.trans (abs_nonneg _)
    · obtain ⟨k, hk⟩ := exists_multiple hp hq hplace
      have hfine : |(m : ℚ) * 2 ^ f| ≤ 2 ^ Int.log 2 |q| := abs_le_of_finer hm (by omega)
      have hfar := abs_sub_abs_le_abs_sub q (m * 2 ^ f)
      rw [abs_sub_comm q] at hfar
      have hnear : |nearest p emin q - q| ≤ |(k : ℚ) * 2 ^ lastPlace p emin q - q| :=
        abs_nearest_sub_le_of_multiple q k
      linarith

/-- The numbers of the format are the ones that are kept. -/
theorem nearest_eq_self_iff (hp : 0 < p) (q : ℚ) :
    nearest p emin q = q ↔ Representable p emin q := by
  constructor
  · intro h
    rw [← h]
    exact nearest_representable hp q
  · intro h
    have hle := abs_nearest_sub_le hp q h
    rw [sub_self, abs_zero] at hle
    exact sub_eq_zero.mp (abs_nonpos_iff.mp hle)

theorem representable_zero : Representable p emin 0 := ⟨0, emin, by simp, le_rfl, by simp⟩

/-- The powers of two from the least exponent on are in the format, on both sides of zero. -/
theorem representable_pow {k : ℤ} (hp : 0 < p) (hk : emin ≤ k) {r : ℚ} (hr : r = 2 ^ k ∨ r = -2 ^ k) :
    Representable p emin r := by
  have hone : (1 : ℤ) < 2 ^ p := one_lt_pow₀ (by norm_num) hp.ne'
  rcases hr with rfl | rfl
  · exact ⟨1, k, by simpa using hone, hk, by rw [Int.cast_one, one_mul]⟩
  · exact ⟨-1, k, by simpa using hone, hk, by simp⟩

/-- From the least power of two on, a number and its opposite are not rounded to the same. -/
theorem nearest_neg_ne {k : ℤ} (hp : 0 < p) (hk : emin ≤ k) {q : ℚ} (hq : 2 ^ k ≤ |q|) :
    nearest p emin (-q) ≠ nearest p emin q := by
  intro h
  -- Otherwise both are rounded to zero, and the power of two is nearer.
  have hzero : nearest p emin q = 0 := by
    have hrep : Representable p emin 0 := representable_zero
    have hplus := abs_nearest_sub_le hp q hrep
    have hminus := abs_nearest_sub_le hp (-q) hrep
    rw [h] at hminus
    rw [zero_sub, abs_neg] at hplus hminus
    rw [abs_neg] at hminus
    rcases abs_cases q with ⟨habs, -⟩ | ⟨habs, -⟩ <;> rw [habs, abs_le] at hplus hminus <;> linarith
  obtain ⟨r, hr, hdist⟩ := exists_toward hq
  have hle := abs_nearest_sub_le hp q (representable_pow hp hk hr)
  rw [hzero, zero_sub, abs_neg, hdist] at hle
  have hpos : (0 : ℚ) < 2 ^ k := by positivity
  linarith

end

end OflMotes.Rounding
