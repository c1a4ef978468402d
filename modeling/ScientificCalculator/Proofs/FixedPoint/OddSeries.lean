import Mathlib.Analysis.SpecialFunctions.Complex.Arctan
import Mathlib.Analysis.SpecialFunctions.Log.Deriv
import ScientificCalculator.FixedPoint.Series
import ScientificCalculator.Proofs.FixedPoint.Truncation

/-!
The series of the powers of a ratio over the odd numbers, which gives the arctangent and half the
logarithm. Its sum with truncated powers and truncated terms is within a few units for each digit of
the first power.
-/

namespace ScientificCalculator.FixedPoint

open Real

section Exact
variable {ρ : ℝ}

/-- The sum of `ρ ^ j / (2 * (k + j) + 1)` over all `j`. -/
noncomputable def oddSeries (ρ : ℝ) (k : ℕ) : ℝ :=
  tsum fun j : ℕ => ρ ^ j / (2 * (k + j : ℕ) + 1)

theorem abs_oddTerm_le (ρ : ℝ) (k j : ℕ) :
    ‖ρ ^ j / (2 * (k + j : ℕ) + 1)‖ ≤ |ρ| ^ j / (2 * k + 1) := by
  have less : (2 * k + 1 : ℝ) ≤ 2 * (k + j : ℕ) + 1 := by
    push_cast
    linarith [j.cast_nonneg (α := ℝ)]
  have least : (0 : ℝ) < 2 * k + 1 := by positivity
  rw [norm_div, norm_pow, norm_eq_abs, norm_eq_abs, abs_of_pos (least.trans_le less)]
  exact div_le_div_of_nonneg_left (by positivity) least less

theorem summable_oddSeries (inside : |ρ| < 1) (k : ℕ) :
    Summable fun j : ℕ => ρ ^ j / (2 * (k + j : ℕ) + 1) :=
  .of_norm_bounded ((summable_geometric_of_lt_one (abs_nonneg ρ) inside).div_const _)
    (abs_oddTerm_le ρ k)

theorem oddSeries_eq (inside : |ρ| < 1) (k : ℕ) :
    oddSeries ρ k = 1 / (2 * k + 1) + ρ * oddSeries ρ (k + 1) := by
  have shifted (j : ℕ) : ρ ^ (j + 1) / (2 * (k + (j + 1) : ℕ) + 1) =
      ρ * (ρ ^ j / (2 * (k + 1 + j : ℕ) + 1)) := by
    rw [pow_succ', mul_div_assoc, show k + (j + 1) = k + 1 + j by omega]
  rw [oddSeries, (summable_oddSeries inside k).tsum_eq_zero_add, pow_zero, Nat.add_zero]
  simp only [shifted, tsum_mul_left]
  rfl

theorem abs_oddSeries_le (half : |ρ| ≤ 1 / 2) (k : ℕ) :
    |oddSeries ρ k| ≤ 2 / (2 * k + 1) := by
  rw [← norm_eq_abs, oddSeries]
  refine tsum_of_norm_bounded (hasSum_geometric_two.div_const _) fun j => ?_
  refine (abs_oddTerm_le ρ k j).trans (div_le_div_of_nonneg_right ?_ (by positivity))
  exact pow_le_pow_left₀ (abs_nonneg ρ) half j

theorem arctan_eq_oddSeries {a : ℝ} (inside : |a| < 1) : arctan a = a * oddSeries (-a ^ 2) 0 := by
  rw [oddSeries, ← tsum_mul_left]
  refine (hasSum_arctan inside).tsum_eq.symm.trans (tsum_congr fun j => ?_)
  rw [zero_add, neg_pow (a ^ 2), ← pow_mul, pow_succ]
  push_cast
  ring

theorem half_log_eq_oddSeries {a : ℝ} (inside : |a| < 1) :
    (log (1 + a) - log (1 - a)) / 2 = a * oddSeries (a ^ 2) 0 := by
  rw [oddSeries, ← tsum_mul_left]
  refine ((hasSum_log_sub_log_of_abs_lt_one inside).div_const 2).tsum_eq.symm.trans
    (tsum_congr fun j => ?_)
  rw [zero_add, ← pow_mul, pow_succ]
  ring

end Exact

section Truncated
variable {scale : ℕ} {ratio power : ℤ} {ρ : ℝ}

theorem natAbs_nextPower_le (small : ratio.natAbs < scale) (power : ℤ) :
    ((power * ratio).tdiv scale).natAbs ≤ power.natAbs := by
  by_cases zero : power = 0
  · simp [zero]
  · exact (natAbs_power_lt small zero).le

/-- Below the scale, the sum goes on from any power, also where it ends. -/
theorem oddTail_eq (small : ratio.natAbs < scale) (power : ℤ) (k : ℕ) :
    oddTail scale ratio power k =
      ((power * ratio).tdiv scale).tdiv ((2 * k + 1 : ℕ) : ℤ) +
        oddTail scale ratio ((power * ratio).tdiv scale) (k + 1) := by
  rw [oddTail]
  by_cases last : ((power * ratio).tdiv scale).tdiv ((2 * k + 1 : ℕ) : ℤ) = 0
  · have next := natAbs_nextPower_le small ((power * ratio).tdiv scale)
    have ends : (((power * ratio).tdiv scale * ratio).tdiv scale).tdiv
        ((2 * (k + 1) + 1 : ℕ) : ℤ) = 0 := by
      rw [tdiv_eq_zero_iff (Nat.succ_pos _)] at last ⊢
      omega
    rw [if_pos last, last, zero_add, oddTail, if_pos ends]
  · have nonzero : power ≠ 0 := by
      rintro rfl
      simp at last
    rw [if_neg last, if_pos (natAbs_power_lt small nonzero)]

/-- How far a sum with truncated powers is from the series of the ratio that it approximates. -/
noncomputable def oddError (scale : ℕ) (ratio : ℤ) (ρ : ℝ) (power : ℤ) (k : ℕ) : ℝ :=
  oddTail scale ratio power k - power * (ρ * oddSeries ρ k)

/-- A step adds the truncation of the term, and that of the power multiplied by the series. -/
theorem oddError_eq (small : ratio.natAbs < scale) (inside : |ρ| < 1) (power : ℤ) (k : ℕ) :
    oddError scale ratio ρ power k =
      oddError scale ratio ρ ((power * ratio).tdiv scale) (k + 1) +
        ((((power * ratio).tdiv scale).tdiv ((2 * k + 1 : ℕ) : ℤ) : ℤ) -
          ((power * ratio).tdiv scale : ℤ) / (2 * k + 1 : ℕ)) +
        (((power * ratio).tdiv scale : ℤ) - power * ρ) * oddSeries ρ k := by
  rw [oddError, oddError, oddTail_eq small, oddSeries_eq inside k]
  push_cast
  ring

theorem abs_nextPower_sub_le (near : |(ratio : ℝ) - scale * ρ| ≤ 1) (scaled : 0 < scale)
    (size : |(power : ℝ)| ≤ scale) :
    |(((power * ratio).tdiv scale : ℤ) : ℝ) - power * ρ| ≤ 2 := by
  have positive : (0 : ℝ) < scale := by exact_mod_cast scaled
  have truncated := abs_tdiv_sub_lt (power * ratio) scaled
  have replaced : |((power * ratio : ℤ) : ℝ) / scale - power * ρ| ≤ 1 := by
    have product : ((power * ratio : ℤ) : ℝ) / scale - power * ρ =
        power / scale * (ratio - scale * ρ) := by
      push_cast
      field_simp
    rw [product, abs_mul, abs_div, abs_of_pos positive]
    exact mul_le_one₀ (div_le_one_of_le₀ size positive.le) (abs_nonneg _) near
  exact (abs_sub_le _ _ _).trans ((add_le_add truncated.le replaced).trans (by norm_num))

theorem abs_nextPower_le (scaled : 0 < scale) (tenth : |(ratio : ℝ)| ≤ scale / 10) (power : ℤ) :
    |(((power * ratio).tdiv scale : ℤ) : ℝ)| ≤ |(power : ℝ)| / 10 := by
  have positive : (0 : ℝ) < scale := by exact_mod_cast scaled
  refine (abs_tdiv_le _ _).trans ?_
  rw [Int.cast_mul, abs_mul, div_le_iff₀ positive]
  calc |(power : ℝ)| * |(ratio : ℝ)|
      ≤ |(power : ℝ)| * (scale / 10) := mul_le_mul_of_nonneg_left tenth (abs_nonneg _)
    _ = |(power : ℝ)| / 10 * scale := by ring

theorem abs_oddError_le (scaled : 0 < scale) (tenth : |(ratio : ℝ)| ≤ scale / 10)
    (near : |(ratio : ℝ) - scale * ρ| ≤ 1) (half : |ρ| ≤ 1 / 2) {digits k : ℕ} (start : 0 < k)
    (least : |(power : ℝ)| ≤ scale) (size : |(power : ℝ)| < 10 ^ digits) :
    |oddError scale ratio ρ power k| ≤ 4 * digits := by
  induction digits generalizing power k with
  | zero =>
    have zero : power = 0 := Int.abs_lt_one_iff.1 (by exact_mod_cast (pow_zero (10 : ℝ) ▸ size))
    rw [oddError, zero, oddTail]
    simp
  | succ digits ih =>
    have small : ratio.natAbs < scale := by
      have positive : (0 : ℝ) < scale := by exact_mod_cast scaled
      have less : |(ratio : ℝ)| < scale := tenth.trans_lt (by linarith)
      rw [← Int.cast_abs, ← Int.natCast_natAbs] at less
      exact_mod_cast less
    have shrunk := abs_nextPower_le scaled tenth power
    have later := ih (Nat.succ_pos k) (shrunk.trans (by linarith [abs_nonneg (power : ℝ)]))
      (by rw [pow_succ] at size; linarith)
    have term := abs_tdiv_sub_lt ((power * ratio).tdiv scale) (Nat.succ_pos (2 * k))
    have series : |oddSeries ρ k| ≤ 1 := by
      have place : (1 : ℝ) ≤ k := by exact_mod_cast start
      refine (abs_oddSeries_le half k).trans ?_
      rw [div_le_one₀ (by positivity)]
      linarith
    have powers := mul_le_mul (abs_nextPower_sub_le near scaled least) series (abs_nonneg _)
      two_pos.le
    rw [oddError_eq small (by linarith)]
    generalize (power * ratio).tdiv scale = next at later term powers ⊢
    calc |oddError scale ratio ρ next (k + 1) +
          ((next.tdiv ((2 * k + 1 : ℕ) : ℤ) : ℤ) - next / (2 * k + 1 : ℕ)) +
          (next - power * ρ) * oddSeries ρ k|
        ≤ |oddError scale ratio ρ next (k + 1)| +
          |((next.tdiv ((2 * k + 1 : ℕ) : ℤ) : ℤ) : ℝ) - next / (2 * k + 1 : ℕ)| +
          |(next - power * ρ) * oddSeries ρ k| := abs_add_three _ _ _
      _ ≤ 4 * digits + 1 + 2 * 1 := by
          rw [abs_mul]
          exact add_le_add (add_le_add later term.le) powers
      _ ≤ 4 * (digits + 1 : ℕ) := by
          push_cast
          linarith

/-- The whole series, whose first term is the first power itself. -/
theorem abs_add_oddTail_sub_le (scaled : 0 < scale) (tenth : |(ratio : ℝ)| ≤ scale / 10)
    (near : |(ratio : ℝ) - scale * ρ| ≤ 1) (half : |ρ| ≤ 1 / 2) {digits : ℕ}
    (least : |(power : ℝ)| ≤ scale) (size : |(power : ℝ)| < 10 ^ digits) :
    |(power + oddTail scale ratio power 1 : ℤ) - power * oddSeries ρ 0| ≤ 4 * digits := by
  have rest := abs_oddError_le scaled tenth near half one_pos least size
  have same : oddError scale ratio ρ power 1 =
      (power + oddTail scale ratio power 1 : ℤ) - power * oddSeries ρ 0 := by
    rw [oddError, oddSeries_eq (by linarith) 0]
    push_cast
    ring
  rwa [← same]

end Truncated

end ScientificCalculator.FixedPoint
