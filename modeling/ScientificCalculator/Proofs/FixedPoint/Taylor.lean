import Mathlib.Analysis.SpecificLimits.Normed
import ScientificCalculator.FixedPoint.Series
import ScientificCalculator.Proofs.FixedPoint.Truncation

/-!
Taylor series with truncated terms. Every term is a factor times the one before it, so what follows
a term is this term times the sum of the products of the factors from there on. A truncation adds
less than a unit to its term and so changes the whole sum by no more than that times the sum that
belongs to the next term; the error of a series is bounded by the number of its terms, which is about
the number of digits of the first one.
-/

namespace ScientificCalculator.FixedPoint

open Finset

section Factors
variable {factor : ℕ → ℝ} {n : ℕ}

/-- A series whose terms have these factors, from the one before the factor `n` on, as a multiple of
that term. -/
noncomputable def seriesFrom (factor : ℕ → ℝ) (n : ℕ) : ℝ :=
  tsum fun k : ℕ => ∏ j ∈ range k, factor (n + j)

/-- From some term on, the terms fall at least as fast as the powers of a ratio below one. -/
def Decays (factor : ℕ → ℝ) : Prop := ∃ ρ < 1, ∃ n, ∀ m, n ≤ m → |factor m| ≤ ρ

theorem Decays.summable (decays : Decays factor) (n : ℕ) :
    Summable fun k => ∏ j ∈ range k, factor (n + j) := by
  obtain ⟨ρ, below, start, falls⟩ := decays
  apply summable_of_ratio_norm_eventually_le below
  filter_upwards [Filter.eventually_ge_atTop start] with k late
  rw [prod_range_succ, norm_mul, mul_comm]
  exact mul_le_mul_of_nonneg_right (falls _ (by omega)) (norm_nonneg _)

/-- The first term, and the others as a multiple of the second one. -/
theorem Decays.seriesFrom_eq (decays : Decays factor) (n : ℕ) :
    seriesFrom factor n = 1 + factor n * seriesFrom factor (n + 1) := by
  have shifted (k : ℕ) : ∏ j ∈ range (k + 1), factor (n + j) =
      factor n * ∏ j ∈ range k, factor (n + 1 + j) := by
    rw [prod_range_succ', mul_comm]
    exact congrArg _ (prod_congr rfl fun j _ => congrArg factor (by omega))
  rw [seriesFrom, (decays.summable n).tsum_eq_zero_add, prod_range_zero]
  simp only [shifted, tsum_mul_left]
  rfl

theorem abs_seriesFrom_le_two (half : ∀ m, n ≤ m → |factor m| ≤ 1 / 2) :
    |seriesFrom factor n| ≤ 2 := by
  rw [← Real.norm_eq_abs, seriesFrom]
  refine tsum_of_norm_bounded hasSum_geometric_two fun k => ?_
  rw [norm_prod]
  calc ∏ j ∈ range k, ‖factor (n + j)‖
      ≤ ∏ _j ∈ range k, (1 / 2 : ℝ) :=
        prod_le_prod (fun j _ => norm_nonneg _) fun j _ => half _ (by omega)
    _ = (1 / 2) ^ k := by rw [prod_const, card_range]

end Factors

section Terms
variable {scale : ℕ} {ratio : ℤ} {divisor : ℕ → ℕ} {grows : ∀ n, n ≤ divisor n}

/-- The factor of a term without truncation. -/
noncomputable def termFactor (scale : ℕ) (ratio : ℤ) (divisor : ℕ → ℕ) (n : ℕ) : ℝ :=
  ratio / (scale * divisor n)

theorem nextTerm_zero (n : ℕ) : nextTerm scale ratio 0 n = 0 := by
  rw [nextTerm, zero_mul, Int.zero_tdiv, Int.zero_tdiv]

theorem abs_nextTerm_sub_lt (ratio term : ℤ) {n : ℕ} (scaled : 0 < scale)
    (divides : 0 < divisor n) :
    |(nextTerm scale ratio term (divisor n) : ℝ) -
      term * termFactor scale ratio divisor n| < 1 := by
  have truncated := abs_tdiv_sub_lt (term * ratio) (Nat.mul_pos scaled divides)
  rw [nextTerm, tdiv_tdiv, termFactor, ← mul_div_assoc]
  exact_mod_cast truncated

theorem abs_nextTerm_le (term : ℤ) (n : ℕ) :
    |(nextTerm scale ratio term (divisor n) : ℝ)| ≤
      |(term : ℝ)| * |termFactor scale ratio divisor n| := by
  have truncated := abs_tdiv_le (term * ratio) (scale * divisor n)
  rw [nextTerm, tdiv_tdiv]
  refine truncated.trans (le_of_eq ?_)
  have size : |((scale : ℝ) * divisor n)| = scale * divisor n := abs_of_nonneg (by positivity)
  rw [termFactor, abs_div, size, ← mul_div_assoc, ← abs_mul]
  push_cast
  rfl

theorem taylorTail_zero (n : ℕ) : taylorTail scale ratio divisor grows 0 n = 0 := by
  rw [taylorTail]
  simp [nextTerm_zero]

/-- The sum goes on from any term, also where it ends. -/
theorem taylorTail_eq (term : ℤ) (n : ℕ) :
    taylorTail scale ratio divisor grows term n =
      nextTerm scale ratio term (divisor n) +
        taylorTail scale ratio divisor grows (nextTerm scale ratio term (divisor n)) (n + 1) := by
  rw [taylorTail]
  by_cases last : nextTerm scale ratio term (divisor n) = 0
  · simp [last, taylorTail_zero]
  · simp [last]

/-- How far a sum with truncated terms is from the exact one. -/
noncomputable def taylorError (scale : ℕ) (ratio : ℤ) (divisor : ℕ → ℕ)
    (grows : ∀ n, n ≤ divisor n) (term : ℤ) (n : ℕ) : ℝ :=
  term + taylorTail scale ratio divisor grows term n -
    term * seriesFrom (termFactor scale ratio divisor) n

theorem taylorError_zero (n : ℕ) : taylorError scale ratio divisor grows 0 n = 0 := by
  simp [taylorError, taylorTail_zero]

/-- A step adds the truncation of the next term, multiplied by the sum that belongs to it. -/
theorem taylorError_eq (decays : Decays (termFactor scale ratio divisor)) (term : ℤ) (n : ℕ) :
    taylorError scale ratio divisor grows term n =
      taylorError scale ratio divisor grows (nextTerm scale ratio term (divisor n)) (n + 1) +
        (nextTerm scale ratio term (divisor n) - term * termFactor scale ratio divisor n) *
          seriesFrom (termFactor scale ratio divisor) (n + 1) := by
  rw [taylorError, taylorError, taylorTail_eq, decays.seriesFrom_eq]
  push_cast
  ring

section Size
variable {weight : ℕ → ℝ} {term : ℤ} {n digits : ℕ}

theorem eq_zero_of_size (heavy : 1 ≤ weight n) (size : |(term : ℝ)| * weight n < 1) : term = 0 := by
  have small : |(term : ℝ)| < 1 := (le_mul_of_one_le_right (abs_nonneg _) heavy).trans_lt size
  exact Int.abs_lt_one_iff.1 (by exact_mod_cast small)

/-- A weighted term that falls to a tenth loses a digit. -/
theorem size_nextTerm (natural : 0 ≤ weight (n + 1))
    (falls : |termFactor scale ratio divisor n| * weight (n + 1) ≤ weight n / 10)
    (size : |(term : ℝ)| * weight n < 10 ^ (digits + 1)) :
    |(nextTerm scale ratio term (divisor n) : ℝ)| * weight (n + 1) < 10 ^ digits := by
  calc |(nextTerm scale ratio term (divisor n) : ℝ)| * weight (n + 1)
      ≤ |(term : ℝ)| * |termFactor scale ratio divisor n| * weight (n + 1) :=
        mul_le_mul_of_nonneg_right (abs_nextTerm_le term n) natural
    _ ≤ |(term : ℝ)| * (weight n / 10) := by
        rw [mul_assoc]
        exact mul_le_mul_of_nonneg_left falls (abs_nonneg _)
    _ < 10 ^ digits := by
        rw [pow_succ] at size
        linarith

end Size

/-- If the weighted terms fall to a tenth from one to the next, a series has about as many terms as
its first one has digits, and each of them adds at most `bound` to the error. -/
theorem abs_taylorError_le (grows : ∀ n, n ≤ divisor n) (weight : ℕ → ℝ) (scaled : 0 < scale)
    (decays : Decays (termFactor scale ratio divisor)) {bound : ℝ} {n : ℕ}
    (first : 0 < n) (heavy : ∀ m, n ≤ m → 1 ≤ weight m)
    (falls : ∀ m, n ≤ m → |termFactor scale ratio divisor m| * weight (m + 1) ≤ weight m / 10)
    (bounded : ∀ m, n < m → |seriesFrom (termFactor scale ratio divisor) m| ≤ bound)
    {term : ℤ} {digits : ℕ} (size : |(term : ℝ)| * weight n < 10 ^ digits) :
    |taylorError scale ratio divisor grows term n| ≤ digits * bound := by
  induction digits generalizing term n with
  | zero =>
    rw [pow_zero] at size
    have none : term = 0 := eq_zero_of_size (heavy n le_rfl) size
    rw [none, taylorError_zero]
    simp
  | succ digits ih =>
    have truncated := abs_nextTerm_sub_lt ratio term scaled
      (lt_of_lt_of_le first (grows n))
    have next := size_nextTerm (zero_le_one.trans (heavy _ (Nat.le_succ n))) (falls n le_rfl) size
    have later := ih (Nat.succ_pos n) (fun m le => heavy m (by omega))
      (fun m le => falls m (by omega)) (fun m less => bounded m (by omega)) next
    have here := bounded (n + 1) (Nat.lt_succ_self n)
    rw [taylorError_eq decays]
    calc |_ + _| ≤ _ + |_| := abs_add_le _ _
      _ ≤ digits * bound + 1 * bound := by
          rw [abs_mul]
          exact add_le_add later (mul_le_mul truncated.le here (abs_nonneg _) zero_le_one)
      _ = (digits + 1 : ℕ) * bound := by
          push_cast
          ring

/-- The term that follows after some steps, where the first of them divides by `divisor n`. -/
def termAfter (scale : ℕ) (ratio : ℤ) (divisor : ℕ → ℕ) (term : ℤ) (n : ℕ) : ℕ → ℤ
  | 0 => term
  | k + 1 => termAfter scale ratio divisor (nextTerm scale ratio term (divisor n)) (n + 1) k

theorem termAfter_zero (n k : ℕ) : termAfter scale ratio divisor 0 n k = 0 := by
  induction k generalizing n with
  | zero => rfl
  | succ k ih => rw [termAfter, nextTerm_zero, ih]

theorem termAfter_succ (term : ℤ) (n k : ℕ) :
    termAfter scale ratio divisor term n (k + 1) =
      nextTerm scale ratio (termAfter scale ratio divisor term n k) (divisor (n + k)) := by
  induction k generalizing term n with
  | zero => rfl
  | succ k ih => rw [termAfter, ih, termAfter, Nat.add_right_comm n 1 k, Nat.add_assoc n k 1]

/-- Where a term is zero, the sum has ended: it is the sum of the terms before. -/
theorem add_taylorTail_eq_sum {term : ℤ} {n k : ℕ}
    (ends : termAfter scale ratio divisor term n k = 0) :
    term + taylorTail scale ratio divisor grows term n =
      ∑ j ∈ range k, termAfter scale ratio divisor term n j := by
  induction k generalizing term n with
  | zero =>
    have none : term = 0 := ends
    rw [none, taylorTail_zero, range_zero, sum_empty, add_zero]
  | succ k ih =>
    rw [taylorTail_eq, ih ends, sum_range_succ', add_comm]
    rfl

/-- Under such weights the terms have vanished after as many steps as the first one has digits. -/
theorem termAfter_eq_zero (weight : ℕ → ℝ) {n : ℕ} (heavy : ∀ m, n ≤ m → 1 ≤ weight m)
    (falls : ∀ m, n ≤ m → |termFactor scale ratio divisor m| * weight (m + 1) ≤ weight m / 10)
    {term : ℤ} {digits k : ℕ} (size : |(term : ℝ)| * weight n < 10 ^ digits) (late : digits ≤ k) :
    termAfter scale ratio divisor term n k = 0 := by
  induction digits generalizing term n k with
  | zero =>
    rw [pow_zero] at size
    have none : term = 0 := eq_zero_of_size (heavy n le_rfl) size
    rw [none, termAfter_zero]
  | succ digits ih =>
    obtain ⟨k, rfl⟩ := Nat.exists_eq_add_one.2 (Nat.zero_lt_of_lt late)
    have next := size_nextTerm (zero_le_one.trans (heavy _ (Nat.le_succ n))) (falls n le_rfl) size
    rw [termAfter]
    exact ih (fun m le => heavy m (by omega)) (fun m le => falls m (by omega)) next (by omega)

end Terms

end ScientificCalculator.FixedPoint
