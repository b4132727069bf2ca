import Mathlib.Algebra.Order.Field.Rat
import Mathlib.Algebra.Order.Floor.Ring
import Mathlib.Data.Int.Log
import Mathlib.Data.Rat.Floor
import Mathlib.Tactic.FieldSimp
import Mathlib.Tactic.Linarith
import Mathlib.Tactic.NormNum
import Mathlib.Tactic.Positivity
import Mathlib.Tactic.Ring

/-! Rounding to 53 significant bits, ties to even. A double is represented by
the rational it denotes; the exponent is unbounded, so this is the arithmetic
of all binary64 operations that neither overflow nor underflow. -/
namespace ProcessExplorer.Library

/-- The nearest integer; the even one of two. -/
def roundEven (q : ℚ) : ℤ :=
  if q - ⌊q⌋ < 1 / 2 ∨ (q - ⌊q⌋ = 1 / 2 ∧ ⌊q⌋ % 2 = 0) then ⌊q⌋ else ⌊q⌋ + 1

/-- The distance between neighbouring doubles of the magnitude of q. -/
def ulp (q : ℚ) : ℚ := 2 ^ (Int.log 2 |q| - 52)

/-- The double nearest to an exact result. -/
def toDouble (q : ℚ) : ℚ := roundEven (q / ulp q) * ulp q

/-- The rationals with a significand of at most 53 bits. -/
def IsDouble (q : ℚ) : Prop := ∃ m e : ℤ, |m| < 2 ^ 53 ∧ q = m * 2 ^ e

theorem roundEven_intCast (n : ℤ) : roundEven (n : ℚ) = n := by
  simp [roundEven]

theorem le_roundEven {n : ℤ} {q : ℚ} (h : (n : ℚ) ≤ q) : n ≤ roundEven q := by
  have hfloor : n ≤ ⌊q⌋ := Int.le_floor.mpr h
  rw [roundEven]
  split <;> omega

theorem roundEven_mono {p q : ℚ} (h : p ≤ q) : roundEven p ≤ roundEven q := by
  have hfloor : ⌊p⌋ ≤ ⌊q⌋ := Int.floor_mono h
  rcases hfloor.lt_or_eq with hlt | heq
  · simp only [roundEven]
    split <;> split <;> omega
  · -- within one unit the decision only depends on the fractional part
    have hrest : p - ⌊p⌋ ≤ q - ⌊q⌋ := by
      rw [heq]
      linarith
    simp only [roundEven]
    split_ifs with hp hq hq
    · omega
    · omega
    · exfalso
      rcases hq with hq | ⟨hq, heven⟩
      · exact hp (.inl (by linarith))
      · rcases hrest.lt_or_eq with hr | hr
        · exact hp (.inl (by linarith))
        · exact hp (.inr ⟨by linarith, by omega⟩)
    · omega

theorem roundEven_le {n : ℤ} {q : ℚ} (h : q ≤ n) : roundEven q ≤ n := by
  have := roundEven_mono h
  rwa [roundEven_intCast] at this

theorem ulp_pos (q : ℚ) : 0 < ulp q := zpow_pos (by norm_num) _

theorem two_zpow_log_le {q : ℚ} (h : 0 < q) : (2 : ℚ) ^ Int.log 2 q ≤ q := by
  exact_mod_cast Int.zpow_log_le_self (b := 2) (by decide) h

theorem lt_two_zpow_log (q : ℚ) : q < (2 : ℚ) ^ (Int.log 2 q + 1) := by
  exact_mod_cast Int.lt_zpow_succ_log_self (b := 2) (by decide) q

theorem two_zpow_le_iff {q : ℚ} (h : 0 < q) (e : ℤ) : (2 : ℚ) ^ e ≤ q ↔ e ≤ Int.log 2 q := by
  exact_mod_cast Int.zpow_le_iff_le_log (b := 2) (by decide) h

theorem ulp_of_pos {q : ℚ} (h : 0 < q) : 2 ^ 52 * ulp q = 2 ^ Int.log 2 q := by
  rw [ulp, abs_of_pos h, zpow_sub₀ (by norm_num)]
  norm_num
  ring

/-- A positive number lies between 2^52 and 2^53 of its own units. -/
theorem scaled_bounds {q : ℚ} (h : 0 < q) : 2 ^ 52 ≤ q / ulp q ∧ q / ulp q < 2 ^ 53 := by
  have hlow := two_zpow_log_le h
  have hhigh := lt_two_zpow_log q
  rw [zpow_add_one₀ (by norm_num)] at hhigh
  rw [← ulp_of_pos h] at hlow hhigh
  rw [le_div_iff₀ (ulp_pos q), div_lt_iff₀ (ulp_pos q)]
  constructor <;> linarith

theorem significand_bounds {q : ℚ} (h : 0 < q) :
    2 ^ 52 ≤ roundEven (q / ulp q) ∧ roundEven (q / ulp q) ≤ 2 ^ 53 := by
  obtain ⟨hlow, hhigh⟩ := scaled_bounds h
  exact ⟨le_roundEven (by exact_mod_cast hlow), roundEven_le (by exact_mod_cast hhigh.le)⟩

theorem toDouble_pos {q : ℚ} (h : 0 < q) : 0 < toDouble q := by
  have hs : (0 : ℚ) < roundEven (q / ulp q) := by
    have := (significand_bounds h).1
    exact_mod_cast (by omega : 0 < roundEven (q / ulp q))
  exact mul_pos hs (ulp_pos q)

@[simp] theorem toDouble_zero : toDouble 0 = 0 := by
  simp [toDouble, roundEven]

theorem toDouble_nonpos {q : ℚ} (h : q ≤ 0) : toDouble q ≤ 0 := by
  have hscaled : q / ulp q ≤ (0 : ℤ) := by
    rw [Int.cast_zero]
    exact div_nonpos_of_nonpos_of_nonneg h (ulp_pos q).le
  have hround : (roundEven (q / ulp q) : ℚ) ≤ 0 := by exact_mod_cast roundEven_le hscaled
  exact mul_nonpos_of_nonpos_of_nonneg hround (ulp_pos q).le

theorem isDouble_toDouble {q : ℚ} (h : 0 < q) : IsDouble (toDouble q) := by
  obtain ⟨hlow, hhigh⟩ := significand_bounds h
  rcases hhigh.lt_or_eq with hlt | heq
  · exact ⟨_, _, abs_lt.mpr ⟨by omega, hlt⟩, rfl⟩
  · refine ⟨2 ^ 52, Int.log 2 |q| - 52 + 1, by norm_num, ?_⟩
    rw [toDouble, heq, ulp, zpow_add_one₀ (by norm_num)]
    push_cast
    ring

/-- Doubles are fixed points: their units are at least as small as their exponent. -/
theorem toDouble_of_isDouble {q : ℚ} (hq : 0 < q) (h : IsDouble q) : toDouble q = q := by
  obtain ⟨m, e, hm, rfl⟩ := h
  have hpow : (0 : ℚ) < 2 ^ e := zpow_pos (by norm_num) _
  have hlog : Int.log 2 ((m : ℚ) * 2 ^ e) < 53 + e := by
    apply (Int.lt_zpow_iff_log_lt (b := 2) (by decide) hq).mp
    push_cast
    rw [zpow_add₀ (by norm_num)]
    have : (m : ℚ) < 2 ^ 53 := by exact_mod_cast (abs_lt.mp hm).2
    exact mul_lt_mul_of_pos_right (by exact_mod_cast this) hpow
  obtain ⟨k, hk⟩ := Int.eq_ofNat_of_zero_le
    (show 0 ≤ e - (Int.log 2 ((m : ℚ) * 2 ^ e) - 52) by omega)
  have hint : (m : ℚ) * 2 ^ e / ulp (m * 2 ^ e) = ((m * 2 ^ k : ℤ) : ℚ) := by
    rw [ulp, abs_of_pos hq, mul_div_assoc, ← zpow_sub₀ (by norm_num), hk]
    push_cast
    rfl
  rw [toDouble, hint, roundEven_intCast, ← hint, div_mul_cancel₀ _ (ulp_pos _).ne']

/-- Rounding is monotone: within one binade because rounding to integers is, and
across binades because the power of two between them is a double. -/
theorem toDouble_mono {p q : ℚ} (hp : 0 < p) (h : p ≤ q) : toDouble p ≤ toDouble q := by
  have hq : 0 < q := hp.trans_le h
  rcases (Int.log_mono_right (b := 2) hp h).lt_or_eq with hlt | heq
  · calc toDouble p ≤ 2 ^ 53 * ulp p := by
          refine mul_le_mul_of_nonneg_right ?_ (ulp_pos p).le
          exact_mod_cast (significand_bounds hp).2
      _ = 2 ^ (Int.log 2 p + 1) := by
          rw [zpow_add_one₀ (by norm_num), ← ulp_of_pos hp]
          ring
      _ ≤ 2 ^ Int.log 2 q := zpow_le_zpow_right₀ (by norm_num) hlt
      _ = 2 ^ 52 * ulp q := (ulp_of_pos hq).symm
      _ ≤ toDouble q := by
          refine mul_le_mul_of_nonneg_right ?_ (ulp_pos q).le
          exact_mod_cast (significand_bounds hq).1
  · have hulp : ulp p = ulp q := by rw [ulp, ulp, abs_of_pos hp, abs_of_pos hq, heq]
    rw [toDouble, toDouble, hulp]
    refine mul_le_mul_of_nonneg_right ?_ (ulp_pos q).le
    exact_mod_cast roundEven_mono (div_le_div_of_nonneg_right h (ulp_pos q).le)

theorem le_toDouble {v q : ℚ} (hv : 0 < v) (hd : IsDouble v) (h : v ≤ q) : v ≤ toDouble q :=
  (toDouble_of_isDouble hv hd).symm.trans_le (toDouble_mono hv h)

theorem toDouble_le {v q : ℚ} (hq : 0 < q) (hd : IsDouble v) (h : q ≤ v) : toDouble q ≤ v :=
  (toDouble_mono hq h).trans_eq (toDouble_of_isDouble (hq.trans_le h) hd)

/-- Rounded values are multiples of the unit of every smaller number. -/
theorem toDouble_eq_mul_ulp {p q : ℚ} (hp : 0 < p) (h : p ≤ q) : ∃ j : ℤ, toDouble q = j * ulp p := by
  have hq : 0 < q := hp.trans_le h
  obtain ⟨n, hn⟩ := Int.eq_ofNat_of_zero_le
    (Int.sub_nonneg.mpr (Int.log_mono_right (b := 2) hp h))
  have hulp : ulp q = 2 ^ n * ulp p := by
    rw [ulp, ulp, abs_of_pos hp, abs_of_pos hq, ← zpow_natCast, ← zpow_add₀ (by norm_num)]
    congr 1
    omega
  refine ⟨roundEven (q / ulp q) * 2 ^ n, ?_⟩
  rw [toDouble, hulp]
  push_cast
  ring

/-- A difference of rounded values below the smaller of them is computed exactly. -/
theorem isDouble_sub_toDouble {p q : ℚ} (hp : 0 < p) (h : p ≤ q)
    (hd : toDouble q - toDouble p < toDouble p) : IsDouble (toDouble q - toDouble p) := by
  obtain ⟨j, hj⟩ := toDouble_eq_mul_ulp hp h
  have hmono := toDouble_mono hp h
  have hu := ulp_pos p
  rw [hj] at hd hmono ⊢
  rw [toDouble] at hd hmono ⊢
  rw [← sub_mul] at hd ⊢
  have hlow : roundEven (p / ulp p) ≤ j := by exact_mod_cast le_of_mul_le_mul_right hmono hu
  have hhigh : j - roundEven (p / ulp p) < roundEven (p / ulp p) := by
    exact_mod_cast lt_of_mul_lt_mul_right hd hu.le
  refine ⟨j - roundEven (p / ulp p), Int.log 2 |p| - 52, ?_, by push_cast; rfl⟩
  have := (significand_bounds hp).2
  exact abs_lt.mpr ⟨by omega, by omega⟩

theorem isDouble_natCast {n : ℕ} (h : n < 2 ^ 53) : IsDouble n :=
  ⟨n, 0, by rw [abs_of_nonneg (Int.natCast_nonneg n)]; exact_mod_cast h, by simp⟩

theorem toDouble_natCast {n : ℕ} (h : n < 2 ^ 53) : toDouble n = n := by
  rcases Nat.eq_zero_or_pos n with rfl | hn
  · simp
  · exact toDouble_of_isDouble (by exact_mod_cast hn) (isDouble_natCast h)

end ProcessExplorer.Library
