import Mathlib.Data.Int.Log
import Mathlib.Data.Rat.Floor
import Mathlib.Tactic.FieldSimp
import Mathlib.Tactic.Linarith
import Mathlib.Tactic.Positivity
import Mathlib.Tactic.Ring

/-!
# Floating-point numbers

A result of some precision is the exact one, rounded to so many significant bits, to the nearest
such number and from the middle between two to the even one. Limits of the exponent are left
out: nothing here is too large or too small.
-/

namespace Nazg.Lib

/-- The nearest integer, from the middle the even one. -/
def roundEven (q : ℚ) : ℤ :=
  if q - ⌊q⌋ < 1 / 2 then ⌊q⌋
  else if 1 / 2 < q - ⌊q⌋ then ⌊q⌋ + 1
  else if ⌊q⌋ % 2 = 0 then ⌊q⌋ else ⌊q⌋ + 1

/-- The exponent of the last of `p` bits. -/
def lastPlace (p : ℕ) (q : ℚ) : ℤ := Int.log 2 |q| + 1 - p

/-- The number with `p` significant bits. -/
def rounded (p : ℕ) (q : ℚ) : ℚ := roundEven (q / 2 ^ lastPlace p q) * 2 ^ lastPlace p q

/-- Single precision, a `float`. -/
def binary32 (q : ℚ) : ℚ := rounded 24 q

/-- Double precision, a `double`. -/
def binary64 (q : ℚ) : ℚ := rounded 53 q

/-- The conversion to an integer, towards zero. -/
def truncate (q : ℚ) : ℤ := q.num.tdiv q.den

theorem roundEven_intCast (z : ℤ) : roundEven z = z := by
  rw [roundEven, Int.floor_intCast, if_pos (by norm_num)]

theorem abs_roundEven_sub_le (q : ℚ) : |(roundEven q : ℚ) - q| ≤ 1 / 2 := by
  have hle := Int.floor_le q
  have hlt := Int.lt_floor_add_one q
  rw [roundEven, abs_le]
  split
  · next h => constructor <;> linarith
  · next h =>
      have hup : -(1 / 2) ≤ ((⌊q⌋ + 1 : ℤ) : ℚ) - q ∧ ((⌊q⌋ + 1 : ℤ) : ℚ) - q ≤ 1 / 2 := by
        push_cast
        constructor <;> linarith
      split
      · exact hup
      · next h' =>
          split
          · constructor <;> linarith
          · exact hup

theorem truncate_of_nonneg {q : ℚ} (h : 0 ≤ q) : truncate q = ⌊q⌋ := by
  rw [truncate, Rat.floor_def', Int.tdiv_eq_ediv_of_nonneg (Rat.num_nonneg.2 h)]

variable {p : ℕ}

theorem rounded_zero : rounded p 0 = 0 := by
  have hround : roundEven 0 = 0 := roundEven_intCast 0
  simp [rounded, hround]

/-- A number with no more significant bits is kept. -/
theorem rounded_of_representable {m : ℤ} (hm : |m| < 2 ^ p) (e : ℤ) :
    rounded p (m * 2 ^ e) = m * 2 ^ e := by
  by_cases hzero : m = 0
  · rw [hzero, Int.cast_zero, zero_mul, rounded_zero]
  have htwo : (0 : ℚ) < 2 ^ e := zpow_pos two_pos e
  have hpos : 0 < |(m : ℚ) * 2 ^ e| := by
    rw [abs_pos]
    exact mul_ne_zero (Int.cast_ne_zero.2 hzero) htwo.ne'
  have hlog : Int.log 2 |(m : ℚ) * 2 ^ e| < p + e := by
    rw [← zpow_lt_zpow_iff_right₀ (by norm_num : (1 : ℚ) < 2)]
    refine lt_of_le_of_lt (Int.zpow_log_le_self one_lt_two hpos) ?_
    rw [abs_mul, abs_of_pos htwo, zpow_add₀ two_ne_zero, zpow_natCast]
    refine mul_lt_mul_of_pos_right ?_ htwo
    exact_mod_cast hm
  obtain ⟨k, hk⟩ : ∃ k : ℕ, e = lastPlace p (m * 2 ^ e) + k :=
    ⟨(e - lastPlace p (m * 2 ^ e)).toNat, by rw [lastPlace]; omega⟩
  have hplace : (0 : ℚ) < 2 ^ lastPlace p (m * 2 ^ e) := zpow_pos two_pos _
  have hquotient : (m * 2 ^ e : ℚ) / 2 ^ lastPlace p (m * 2 ^ e) = ((m * 2 ^ k : ℤ) : ℚ) := by
    rw [div_eq_iff hplace.ne']
    generalize lastPlace p (m * 2 ^ e) = place at hk
    rw [hk, zpow_add₀ two_ne_zero, zpow_natCast]
    push_cast
    ring
  rw [rounded, hquotient, roundEven_intCast, ← hquotient, div_mul_cancel₀ _ hplace.ne']

theorem rounded_intCast {n : ℤ} (hn : |n| < 2 ^ p) : rounded p n = n := by
  have hexact := rounded_of_representable hn 0
  rwa [zpow_zero, mul_one] at hexact

/-- The error is at most half of the last place. -/
theorem abs_rounded_sub_le (q : ℚ) : |rounded p q - q| ≤ |q| / 2 ^ p := by
  by_cases hzero : q = 0
  · simp [hzero, rounded_zero]
  have hplace : (2 : ℚ) ^ lastPlace p q * 2 ^ p ≤ 2 * |q| := by
    have hlog := @Int.zpow_log_le_self ℚ _ _ _ _ 2 |q| one_lt_two (abs_pos.2 hzero)
    rw [← zpow_natCast, ← zpow_add₀ two_ne_zero, lastPlace, sub_add_cancel,
      zpow_add_one₀ two_ne_zero, mul_comm]
    exact mul_le_mul_of_nonneg_left hlog two_pos.le
  have hpos : (0 : ℚ) < 2 ^ lastPlace p q := zpow_pos two_pos _
  have hsplit : rounded p q - q =
      (roundEven (q / 2 ^ lastPlace p q) - q / 2 ^ lastPlace p q) * 2 ^ lastPlace p q := by
    rw [rounded, sub_mul, div_mul_cancel₀ q (ne_of_gt hpos)]
  rw [hsplit, abs_mul, abs_of_pos hpos]
  calc |(roundEven (q / 2 ^ lastPlace p q) : ℚ) - q / 2 ^ lastPlace p q| * 2 ^ lastPlace p q
      ≤ 1 / 2 * 2 ^ lastPlace p q :=
        mul_le_mul_of_nonneg_right (abs_roundEven_sub_le _) hpos.le
    _ ≤ |q| / 2 ^ p := by
        rw [le_div_iff₀ (by positivity)]
        linarith

/-! ## Half of an integer -/

/-- An integer times a number of single precision, as an integer. -/
def scaleInt (n : ℤ) (ratio : ℚ) : ℤ := truncate (binary32 (binary32 n * ratio))

theorem scaleInt_half {n : ℤ} (h : 0 ≤ n) (hlt : n < 2 ^ 24) : scaleInt n (1 / 2) = n / 2 := by
  have hm : |n| < 2 ^ 24 := by rwa [abs_of_nonneg h]
  have hself : binary32 n = n := rounded_intCast hm
  have hhalf : binary32 (n * (1 / 2)) = n * (1 / 2) := by
    have hexact := rounded_of_representable hm (-1)
    rwa [zpow_neg_one, ← one_div] at hexact
  have hnonneg : (0 : ℚ) ≤ n * (1 / 2) := by positivity
  rw [scaleInt, hself, hhalf, truncate_of_nonneg hnonneg]
  have hlow : 2 * (n / 2) ≤ n := by omega
  have hhigh : n ≤ 2 * (n / 2) + 1 := by omega
  have hlow' : (2 : ℚ) * (n / 2 : ℤ) ≤ n := by exact_mod_cast hlow
  have hhigh' : (n : ℚ) ≤ 2 * (n / 2 : ℤ) + 1 := by exact_mod_cast hhigh
  exact Int.floor_eq_iff.2 ⟨by linarith, by linarith⟩

theorem scaleInt_half_bounds {n : ℤ} (h : 2 ≤ n) :
    1 ≤ scaleInt n (1 / 2) ∧ scaleInt n (1 / 2) ≤ n - 1 := by
  by_cases hlt : n < 2 ^ 24
  · rw [scaleInt_half (by omega) hlt]
    omega
  · have hlarge : (2 : ℚ) ^ 24 ≤ n := by exact_mod_cast not_lt.1 hlt
    have hn : |(n : ℚ)| = n := abs_of_nonneg (by linarith)
    obtain ⟨hlow, hhigh⟩ := abs_le.1 (@abs_rounded_sub_le 24 n)
    rw [hn, ← binary32] at hlow hhigh
    have hnonneg : (0 : ℚ) ≤ binary32 n * (1 / 2) := by linarith
    obtain ⟨hlow', hhigh'⟩ := abs_le.1 (@abs_rounded_sub_le 24 (binary32 n * (1 / 2)))
    rw [abs_of_nonneg hnonneg, ← binary32] at hlow' hhigh'
    rw [scaleInt, truncate_of_nonneg (by linarith)]
    refine ⟨Int.le_floor.2 ?_, Int.le_sub_one_of_lt (Int.floor_lt.2 ?_)⟩
    · push_cast
      linarith
    · linarith

end Nazg.Lib
