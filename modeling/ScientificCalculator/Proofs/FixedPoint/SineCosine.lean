import Mathlib.Analysis.SpecialFunctions.Integrals.Basic
import Mathlib.Analysis.SpecialFunctions.Trigonometric.Series
import Mathlib.Analysis.SpecialFunctions.Trigonometric.Sinc
import ScientificCalculator.FixedPoint.SineCosine
import ScientificCalculator.Proofs.FixedPoint.Taylor

/-!
Sine and cosine in fixed point are within a few units for each digit of the real functions, and of
the exact sums of enough terms of their Taylor series. Both are power series in the square of the
angle, which is itself truncated; a unit of the square changes either function by at most half a
unit for each unit of the angle. Both sums end within thirteen terms more than there are digits.
-/

namespace ScientificCalculator.FixedPoint

open Finset Real

section Squares

/-- The cosine changes at most half as fast as the square of its argument. -/
theorem abs_cos_sub_cos_le (a b : ℝ) : |cos a - cos b| ≤ |a ^ 2 - b ^ 2| / 2 := by
  have product : a ^ 2 - b ^ 2 = 4 * ((a + b) / 2 * ((a - b) / 2)) := by ring
  rw [cos_sub_cos, product, abs_mul, abs_mul, abs_mul, abs_mul, abs_neg, abs_two,
    abs_of_pos (by norm_num : (0 : ℝ) < 4)]
  have factors := mul_le_mul (abs_sin_le_abs (x := (a + b) / 2))
    (abs_sin_le_abs (x := (a - b) / 2)) (abs_nonneg _) (abs_nonneg _)
  linarith

theorem sinc_eq_integral (a : ℝ) : sinc a = ∫ u in (0 : ℝ)..1, cos (a * u) := by
  by_cases zero : a = 0
  · simp [zero]
  · rw [intervalIntegral.integral_comp_mul_left _ zero, sinc_of_ne_zero zero, integral_cos]
    simp [div_eq_inv_mul]

theorem abs_sinc_sub_sinc_le (a b : ℝ) : |sinc a - sinc b| ≤ |a ^ 2 - b ^ 2| / 2 := by
  have integrable (c : ℝ) : IntervalIntegrable (fun u => cos (c * u)) MeasureTheory.volume 0 1 :=
    Continuous.intervalIntegrable (by fun_prop) _ _
  have pointwise : ∀ u ∈ Set.uIoc (0 : ℝ) 1,
      ‖cos (a * u) - cos (b * u)‖ ≤ |a ^ 2 - b ^ 2| / 2 := by
    intro u inside
    rw [Set.uIoc_of_le zero_le_one] at inside
    have unit : u ^ 2 ≤ 1 := pow_le_one₀ inside.1.le inside.2
    calc ‖cos (a * u) - cos (b * u)‖
        ≤ |(a * u) ^ 2 - (b * u) ^ 2| / 2 := abs_cos_sub_cos_le _ _
      _ = |a ^ 2 - b ^ 2| * u ^ 2 / 2 := by
          rw [mul_pow, mul_pow, ← sub_mul, abs_mul, abs_of_nonneg (sq_nonneg u)]
      _ ≤ |a ^ 2 - b ^ 2| / 2 := by
          have shrinks := mul_le_of_le_one_right (abs_nonneg (a ^ 2 - b ^ 2)) unit
          linarith
  have bound := intervalIntegral.norm_integral_le_of_norm_le_const pointwise
  rw [intervalIntegral.integral_sub (integrable a) (integrable b), ← sinc_eq_integral,
    ← sinc_eq_integral] at bound
  simpa using bound

end Squares

section Series
variable {scale : ℕ} {ratio : ℤ} {a : ℝ}

theorem hasSum_sinc (a : ℝ) :
    HasSum (fun n : ℕ => (-1) ^ n * a ^ (2 * n) / ((2 * n + 1).factorial : ℝ)) (sinc a) := by
  by_cases zero : a = 0
  · have only := hasSum_single (f := fun n : ℕ => (-1) ^ n * a ^ (2 * n) /
      ((2 * n + 1).factorial : ℝ)) 0 (by simp +contextual [zero])
    simpa [zero] using only
  · have divided := (hasSum_sin a).div_const a
    rw [← sinc_of_ne_zero zero] at divided
    have same : (fun n : ℕ => (-1) ^ n * a ^ (2 * n) / ((2 * n + 1).factorial : ℝ)) =
        fun n : ℕ => (-1) ^ n * a ^ (2 * n + 1) / ((2 * n + 1).factorial : ℝ) / a := by
      funext n
      rw [pow_succ]
      field_simp
    rwa [same]

/-- With divisors that build up the factorials of every second number, the products of the factors
are those terms of a power series in the square of `a`. -/
theorem prod_termFactor (divisor : ℕ → ℕ) (scaled : 0 < scale)
    (square : (ratio : ℝ) = -a ^ 2 * scale) {e : ℕ} (first : e.factorial = 1)
    (next : ∀ k, (2 * (k + 1) + e).factorial = divisor (1 + k) * (2 * k + e).factorial) (k : ℕ) :
    ∏ j ∈ range k, termFactor scale ratio divisor (1 + j) =
      (-1) ^ k * a ^ (2 * k) / ((2 * k + e).factorial : ℝ) := by
  have positive : (0 : ℝ) < scale := by exact_mod_cast scaled
  induction k with
  | zero => simp [first]
  | succ k ih =>
    have nonzero : (divisor (1 + k) : ℝ) ≠ 0 := by
      intro zero
      have factorial := Nat.factorial_pos (2 * (k + 1) + e)
      rw [next, Nat.cast_eq_zero.1 zero] at factorial
      omega
    rw [prod_range_succ, ih, termFactor, next, square, Nat.cast_mul]
    field_simp
    ring

/-- The divisors of the cosine build up the factorials of the even numbers. -/
theorem factorial_even (k : ℕ) : (2 * (k + 1) + 0).factorial =
    (2 * (1 + k) - 1) * (2 * (1 + k)) * (2 * k + 0).factorial := by
  rw [show 2 * (k + 1) + 0 = 2 * k + 1 + 1 by omega, Nat.factorial_succ, Nat.factorial_succ,
    show 2 * (1 + k) - 1 = 2 * k + 1 by omega, Nat.add_zero (2 * k)]
  ring

/-- The divisors of the sine build up the factorials of the odd numbers. -/
theorem factorial_odd (k : ℕ) : (2 * (k + 1) + 1).factorial =
    2 * (1 + k) * (2 * (1 + k) + 1) * (2 * k + 1).factorial := by
  rw [show 2 * (k + 1) + 1 = 2 * k + 1 + 1 + 1 by omega, Nat.factorial_succ, Nat.factorial_succ]
  ring

theorem seriesFrom_cosine (scaled : 0 < scale) (square : (ratio : ℝ) = -a ^ 2 * scale) :
    seriesFrom (termFactor scale ratio fun n => (2 * n - 1) * (2 * n)) 1 = cos a := by
  rw [seriesFrom]
  simp only [prod_termFactor (fun n => (2 * n - 1) * (2 * n)) scaled square
    Nat.factorial_zero factorial_even]
  exact (hasSum_cos a).tsum_eq

theorem seriesFrom_sine (scaled : 0 < scale) (square : (ratio : ℝ) = -a ^ 2 * scale) :
    seriesFrom (termFactor scale ratio fun n => 2 * n * (2 * n + 1)) 1 = sinc a := by
  rw [seriesFrom]
  simp only [prod_termFactor (fun n => 2 * n * (2 * n + 1)) scaled square
    Nat.factorial_one factorial_odd]
  exact (hasSum_sinc a).tsum_eq

end Series

section Bounds
variable {scale : ℕ} {ratio : ℤ} {divisor : ℕ → ℕ} {grows : ∀ n, n ≤ divisor n}

/-- Angles of at most four have terms of at most sixteen over the divisor of the cosine. -/
theorem abs_termFactor_le (scaled : 0 < scale) (small : |(ratio : ℝ)| ≤ 16 * scale)
    (wide : ∀ n, (2 * n - 1) * (2 * n) ≤ divisor n) {n : ℕ} (start : 0 < n) :
    |termFactor scale ratio divisor n| ≤ 16 / ((2 * n - 1) * (2 * n)) := by
  have positive : (0 : ℝ) < scale := by exact_mod_cast scaled
  have place : (1 : ℝ) ≤ n := by exact_mod_cast start
  have divides : ((2 * n - 1) * (2 * n) : ℝ) ≤ divisor n := by
    have cast : (((2 * n - 1) * (2 * n) : ℕ) : ℝ) = (2 * n - 1) * (2 * n) := by
      rw [Nat.cast_mul, Nat.cast_sub (by omega)]
      push_cast
      ring
    rw [← cast]
    exact_mod_cast wide n
  have least : (0 : ℝ) < (2 * n - 1) * (2 * n) := by nlinarith
  rw [termFactor, abs_div, abs_of_pos (mul_pos positive (least.trans_le divides)),
    div_le_div_iff₀ (mul_pos positive (least.trans_le divides)) least]
  calc |(ratio : ℝ)| * ((2 * n - 1) * (2 * n))
      ≤ 16 * scale * divisor n := mul_le_mul small divides least.le (by positivity)
    _ = 16 * (scale * divisor n) := by ring

theorem abs_termFactor_le_half (scaled : 0 < scale) (small : |(ratio : ℝ)| ≤ 16 * scale)
    (wide : ∀ n, (2 * n - 1) * (2 * n) ≤ divisor n) {n : ℕ} (late : 4 ≤ n) :
    |termFactor scale ratio divisor n| ≤ 1 / 2 := by
  refine (abs_termFactor_le scaled small wide (by omega)).trans ?_
  have place : (4 : ℝ) ≤ n := by exact_mod_cast late
  rw [div_le_div_iff₀ (by nlinarith) two_pos]
  nlinarith

theorem decays_termFactor (scaled : 0 < scale) (small : |(ratio : ℝ)| ≤ 16 * scale)
    (wide : ∀ n, (2 * n - 1) * (2 * n) ≤ divisor n) : Decays (termFactor scale ratio divisor) :=
  ⟨1 / 2, by norm_num, 4, fun _ late => abs_termFactor_le_half scaled small wide late⟩

/-- After the first term, none of the remaining series is more than four times its first term. -/
theorem abs_seriesFrom_le_four (scaled : 0 < scale) (small : |(ratio : ℝ)| ≤ 16 * scale)
    (wide : ∀ n, (2 * n - 1) * (2 * n) ≤ divisor n) {n : ℕ} (late : 1 < n) :
    |seriesFrom (termFactor scale ratio divisor) n| ≤ 4 := by
  have half {m : ℕ} (le : 4 ≤ m) := abs_termFactor_le_half scaled small wide le
  have step (m : ℕ) : |seriesFrom (termFactor scale ratio divisor) m| ≤
      1 + |termFactor scale ratio divisor m| *
        |seriesFrom (termFactor scale ratio divisor) (m + 1)| := by
    rw [(decays_termFactor scaled small wide).seriesFrom_eq, ← abs_mul]
    refine (abs_add_le _ _).trans ?_
    rw [abs_one]
  have fourth {m : ℕ} (le : 4 ≤ m) : |seriesFrom (termFactor scale ratio divisor) m| ≤ 2 :=
    abs_seriesFrom_le_two fun i further => half (le.trans further)
  have third : |seriesFrom (termFactor scale ratio divisor) 3| ≤ 31 / 15 := by
    have factor := abs_termFactor_le scaled small wide (by decide : 0 < 3)
    have product := mul_le_mul factor (fourth le_rfl) (abs_nonneg _) (by norm_num)
    refine (step 3).trans ?_
    norm_num at product ⊢
    linarith
  have second : |seriesFrom (termFactor scale ratio divisor) 2| ≤ 4 := by
    have factor := abs_termFactor_le scaled small wide (by decide : 0 < 2)
    have product := mul_le_mul factor third (abs_nonneg _) (by norm_num)
    refine (step 2).trans ?_
    norm_num at product ⊢
    linarith
  rcases (by omega : n = 2 ∨ n = 3 ∨ 4 ≤ n) with rfl | rfl | le
  · exact second
  · linarith
  · exact (fourth le).trans (by norm_num)

/-- A weight that outruns the first terms, which may still grow. -/
noncomputable def circularWeight (n : ℕ) : ℝ := 80 ^ (7 - n)

theorem one_le_circularWeight (n : ℕ) : 1 ≤ circularWeight n := one_le_pow₀ (by norm_num)

theorem circularWeight_falls (scaled : 0 < scale) (small : |(ratio : ℝ)| ≤ 16 * scale)
    (wide : ∀ n, (2 * n - 1) * (2 * n) ≤ divisor n) {n : ℕ} (start : 0 < n) :
    |termFactor scale ratio divisor n| * circularWeight (n + 1) ≤ circularWeight n / 10 := by
  have factor := abs_termFactor_le scaled small wide start
  have place : (1 : ℝ) ≤ n := by exact_mod_cast start
  unfold circularWeight
  rcases Nat.lt_or_ge n 7 with early | late
  · have eight : |termFactor scale ratio divisor n| ≤ 8 := by
      refine factor.trans ?_
      rw [div_le_iff₀ (by nlinarith)]
      nlinarith
    rw [show 7 - n = 7 - (n + 1) + 1 by omega, pow_succ]
    have weight : (0 : ℝ) ≤ 80 ^ (7 - (n + 1)) := by positivity
    nlinarith
  · have tenth : |termFactor scale ratio divisor n| ≤ 1 / 10 := by
      have place' : (7 : ℝ) ≤ n := by exact_mod_cast late
      refine factor.trans ?_
      rw [div_le_div_iff₀ (by nlinarith) (by norm_num)]
      nlinarith
    rw [show 7 - n = 0 by omega, show 7 - (n + 1) = 0 by omega]
    linarith

section First
variable {term : ℤ} {digits : ℕ} (size : |(term : ℝ)| ≤ 4 * 10 ^ digits)
include size

theorem circularSize_lt : |(term : ℝ)| * circularWeight 1 < 10 ^ (digits + 13) := by
  have power : (0 : ℝ) < 10 ^ digits := by positivity
  rw [circularWeight, pow_add]
  norm_num
  linarith

theorem abs_circularError_le (scaled : 0 < scale) (small : |(ratio : ℝ)| ≤ 16 * scale)
    (wide : ∀ n, (2 * n - 1) * (2 * n) ≤ divisor n) :
    |taylorError scale ratio divisor grows term 1| ≤ 4 * (digits + 13) := by
  have error := abs_taylorError_le grows circularWeight scaled
    (decays_termFactor scaled small wide) one_pos
    (fun m _ => one_le_circularWeight m) (fun m le => circularWeight_falls scaled small wide le)
    (fun m late => abs_seriesFrom_le_four scaled small wide late) (circularSize_lt size)
  push_cast at error
  linarith

theorem circularTerm_eq_zero (scaled : 0 < scale) (small : |(ratio : ℝ)| ≤ 16 * scale)
    (wide : ∀ n, (2 * n - 1) * (2 * n) ≤ divisor n) {k : ℕ} (late : digits + 13 ≤ k) :
    termAfter scale ratio divisor term 1 k = 0 :=
  termAfter_eq_zero circularWeight (fun m _ => one_le_circularWeight m)
    (fun _ le => circularWeight_falls scaled small wide le) (circularSize_lt size) late

end First

end Bounds

section Accuracy
variable {x : ℤ} {digits : ℕ}

/-- The square by which the terms are multiplied is the square of an angle, up to one unit. -/
theorem exists_square (x : ℤ) (digits : ℕ) :
    ∃ a : ℝ, (negatedSquare x digits : ℝ) = -a ^ 2 * (tenTo digits : ℕ) ∧
      |a ^ 2 - (x / 10 ^ digits) ^ 2| ≤ 1 / 10 ^ digits := by
  have power : (0 : ℝ) < 10 ^ digits := by positivity
  have truncated := abs_tdiv_sub_lt (x * x) (tenTo_pos digits)
  have natural : (0 : ℝ) ≤ ((x * x).tdiv (tenTo digits) : ℤ) := by
    exact_mod_cast Int.tdiv_nonneg (mul_self_nonneg x) (Int.natCast_nonneg _)
  rw [realCast_tenTo] at truncated
  rw [negatedSquare, realCast_tenTo]
  generalize (x * x).tdiv (tenTo digits) = square at truncated natural ⊢
  refine ⟨√(square / 10 ^ digits), ?_, ?_⟩
  · rw [sq_sqrt (by positivity)]
    push_cast
    field_simp
  · rw [sq_sqrt (by positivity)]
    have apart : (square : ℝ) / 10 ^ digits - (x / 10 ^ digits) ^ 2 =
        (square - ((x * x : ℤ) : ℝ) / 10 ^ digits) / 10 ^ digits := by
      push_cast
      field_simp
    rw [apart, abs_div, abs_of_pos power]
    exact div_le_div_of_nonneg_right truncated.le power.le

theorem abs_negatedSquare_le (small : |(x : ℝ)| ≤ 4 * 10 ^ digits) :
    |(negatedSquare x digits : ℝ)| ≤ 16 * (tenTo digits : ℕ) := by
  have power : (0 : ℝ) < 10 ^ digits := by positivity
  have truncated := abs_tdiv_le (x * x) (tenTo digits)
  rw [realCast_tenTo] at truncated ⊢
  rw [negatedSquare, Int.cast_neg, abs_neg]
  refine truncated.trans ?_
  rw [div_le_iff₀ power]
  push_cast
  rw [abs_mul]
  calc |(x : ℝ)| * |(x : ℝ)|
      ≤ 4 * 10 ^ digits * (4 * 10 ^ digits) :=
        mul_le_mul small small (abs_nonneg _) (by positivity)
    _ = 16 * 10 ^ digits * 10 ^ digits := by ring

theorem mul_sinc_div (x : ℝ) {s : ℝ} (pos : 0 < s) : x * sinc (x / s) = s * Real.sin (x / s) := by
  by_cases zero : x = 0
  · simp [zero]
  · rw [sinc_of_ne_zero (div_ne_zero zero pos.ne')]
    field_simp

theorem le_two_mul_mul_succ (n : ℕ) : n ≤ 2 * n * (2 * n + 1) :=
  le_trans (by omega) (Nat.le_mul_of_pos_right (2 * n) (Nat.succ_pos _))

theorem sineDivisor_wide (n : ℕ) : (2 * n - 1) * (2 * n) ≤ 2 * n * (2 * n + 1) := by
  rw [Nat.mul_comm]
  exact Nat.mul_le_mul_left _ (by omega)

theorem abs_tenTo_le (digits : ℕ) : |((tenTo digits : ℤ) : ℝ)| ≤ 4 * 10 ^ digits := by
  have power : (0 : ℝ) < 10 ^ digits := by positivity
  rw [Int.cast_natCast, realCast_tenTo, abs_of_pos power]
  linarith

/-- The sine of an angle of at most four is accurate to a few units for each digit. -/
theorem abs_sine_sub_le (small : |(x : ℝ)| ≤ 4 * 10 ^ digits) :
    |(sine x digits : ℝ) - 10 ^ digits * Real.sin (x / 10 ^ digits)| ≤ 4 * digits + 54 := by
  have power : (0 : ℝ) < 10 ^ digits := by positivity
  obtain ⟨a, square, near⟩ := exists_square x digits
  have truncations : |taylorError (tenTo digits) (negatedSquare x digits)
      (fun n => 2 * n * (2 * n + 1)) le_two_mul_mul_succ x 1| ≤ 4 * (digits + 13) :=
    abs_circularError_le small (tenTo_pos digits) (abs_negatedSquare_le small) sineDivisor_wide
  rw [taylorError, seriesFrom_sine (tenTo_pos digits) square, ← Int.cast_add] at truncations
  have squares : |x * sinc a - 10 ^ digits * Real.sin (x / 10 ^ digits)| ≤ 2 := by
    rw [← mul_sinc_div _ power, ← mul_sub, abs_mul]
    calc |(x : ℝ)| * |sinc a - sinc (x / 10 ^ digits)|
        ≤ 4 * 10 ^ digits * (1 / 10 ^ digits / 2) :=
          mul_le_mul small ((abs_sinc_sub_sinc_le _ _).trans (by linarith)) (abs_nonneg _)
            (by positivity)
      _ = 2 := by
        field_simp
        norm_num
  exact (abs_sub_le _ _ _).trans ((add_le_add truncations squares).trans (by linarith))

/-- The cosine of an angle of at most four is accurate to a few units for each digit. -/
theorem abs_cosine_sub_le (small : |(x : ℝ)| ≤ 4 * 10 ^ digits) :
    |(cosine x digits : ℝ) - 10 ^ digits * Real.cos (x / 10 ^ digits)| ≤ 4 * digits + 54 := by
  have power : (0 : ℝ) < 10 ^ digits := by positivity
  obtain ⟨a, square, near⟩ := exists_square x digits
  have truncations : |taylorError (tenTo digits) (negatedSquare x digits)
      (fun n => (2 * n - 1) * (2 * n)) le_two_mul_mul (tenTo digits) 1| ≤ 4 * (digits + 13) :=
    abs_circularError_le (abs_tenTo_le digits) (tenTo_pos digits) (abs_negatedSquare_le small)
      fun n => le_rfl
  rw [taylorError, seriesFrom_cosine (tenTo_pos digits) square, ← Int.cast_add, Int.cast_natCast,
    realCast_tenTo] at truncations
  have squares : |10 ^ digits * Real.cos a - 10 ^ digits * Real.cos (x / 10 ^ digits)| ≤ 1 := by
    rw [← mul_sub, abs_mul, abs_of_pos power]
    calc (10 : ℝ) ^ digits * |Real.cos a - Real.cos (x / 10 ^ digits)|
        ≤ 10 ^ digits * (1 / 10 ^ digits / 2) :=
          mul_le_mul_of_nonneg_left ((abs_cos_sub_cos_le _ _).trans (by linarith)) power.le
      _ ≤ 1 := by
        field_simp
        norm_num
  exact (abs_sub_le _ _ _).trans ((add_le_add truncations squares).trans (by linarith))

/-- The term of the sine's series after `k` steps. -/
def sineTerm (x : ℤ) (digits k : ℕ) : ℤ :=
  termAfter (tenTo digits) (negatedSquare x digits) (fun n => 2 * n * (2 * n + 1)) x 1 k

/-- The term of the cosine's series after `k` steps. -/
def cosineTerm (x : ℤ) (digits k : ℕ) : ℤ :=
  termAfter (tenTo digits) (negatedSquare x digits) (fun n => (2 * n - 1) * (2 * n))
    (tenTo digits) 1 k

theorem sine_eq_sum (small : |(x : ℝ)| ≤ 4 * 10 ^ digits) {k : ℕ} (enough : digits + 13 ≤ k) :
    sine x digits = ∑ j ∈ range k, sineTerm x digits j :=
  add_taylorTail_eq_sum (circularTerm_eq_zero small (tenTo_pos digits) (abs_negatedSquare_le small)
    sineDivisor_wide enough)

theorem cosine_eq_sum (small : |(x : ℝ)| ≤ 4 * 10 ^ digits) {k : ℕ} (enough : digits + 13 ≤ k) :
    cosine x digits = ∑ j ∈ range k, cosineTerm x digits j :=
  add_taylorTail_eq_sum (circularTerm_eq_zero (abs_tenTo_le digits) (tenTo_pos digits)
    (abs_negatedSquare_le small) (fun _ => le_rfl) enough)

end Accuracy

section Polynomials

/-- The first `terms` terms of the Taylor series of the sine. -/
def sinePolynomial (terms : ℕ) (q : ℚ) : ℚ :=
  ∑ i ∈ range terms, (-1) ^ i * q ^ (2 * i + 1) / ((2 * i + 1).factorial : ℚ)

/-- The first `terms` terms of the Taylor series of the cosine. -/
def cosinePolynomial (terms : ℕ) (q : ℚ) : ℚ :=
  ∑ i ∈ range terms, (-1) ^ i * q ^ (2 * i) / ((2 * i).factorial : ℚ)

theorem realCast_sinePolynomial (terms : ℕ) (q : ℚ) : (sinePolynomial terms q : ℝ) =
    ∑ i ∈ range terms, (-1) ^ i * (q : ℝ) ^ (2 * i + 1) / ((2 * i + 1).factorial : ℝ) := by
  simp [sinePolynomial]

theorem realCast_cosinePolynomial (terms : ℕ) (q : ℚ) : (cosinePolynomial terms q : ℝ) =
    ∑ i ∈ range terms, (-1) ^ i * (q : ℝ) ^ (2 * i) / ((2 * i).factorial : ℝ) := by
  simp [cosinePolynomial]

/-- What is closer to the limit of a series than an error is also closer than that to the sums of
enough of its terms. -/
theorem exists_forall_abs_sub_sum_le {term : ℕ → ℝ} {limit a scale error : ℝ}
    (sums : HasSum term limit) (near : |a - scale * limit| < error) :
    ∃ enough, ∀ n, enough ≤ n → |a - scale * ∑ i ∈ range n, term i| ≤ error := by
  have converges := (sums.tendsto_sum_nat.const_mul scale).const_sub a |>.abs
  obtain ⟨enough, close⟩ := Filter.eventually_atTop.1 (converges.eventually_le_const near)
  exact ⟨enough, close⟩

variable {x : ℤ} {digits : ℕ}

/-- Sine and cosine of angles of at most four, at any number of digits, beside the real functions
and beside exact sums of their series. Their own sums have ended after the digits of the angle and
thirteen terms more. -/
theorem sine_cosine_near (small : |x| ≤ 4 * tenTo digits) :
    (|(sine x digits : ℝ) - 10 ^ digits * Real.sin (x / 10 ^ digits)| ≤ 4 * digits + 60 ∧
      |(cosine x digits : ℝ) - 10 ^ digits * Real.cos (x / 10 ^ digits)| ≤ 4 * digits + 60) ∧
    (∃ enough, ∀ terms, enough ≤ terms →
      |(sine x digits : ℚ) - 10 ^ digits * sinePolynomial terms (x / 10 ^ digits)| ≤
        4 * digits + 60 ∧
      |(cosine x digits : ℚ) - 10 ^ digits * cosinePolynomial terms (x / 10 ^ digits)| ≤
        4 * digits + 60) ∧
    ∀ k, digits + 13 ≤ k →
      sine x digits = ∑ j ∈ range k, sineTerm x digits j ∧
      cosine x digits = ∑ j ∈ range k, cosineTerm x digits j := by
  have small' : |(x : ℝ)| ≤ 4 * 10 ^ digits := by
    rw [← realCast_tenTo]
    exact_mod_cast small
  have room : (4 * digits + 54 : ℝ) < 4 * digits + 60 := by linarith
  have sines := (abs_sine_sub_le small').trans_lt room
  have cosines := (abs_cosine_sub_le small').trans_lt room
  obtain ⟨enough, near⟩ := exists_forall_abs_sub_sum_le (Real.hasSum_sin _) sines
  obtain ⟨enough', near'⟩ := exists_forall_abs_sub_sum_le (Real.hasSum_cos _) cosines
  refine ⟨⟨sines.le, cosines.le⟩, ⟨max enough enough', fun terms le => ⟨?_, ?_⟩⟩,
    fun k long => ⟨sine_eq_sum small' long, cosine_eq_sum small' long⟩⟩
  · have sum := near terms ((le_max_left _ _).trans le)
    rw [← Rat.cast_le (K := ℝ)]
    push_cast [realCast_sinePolynomial]
    exact sum
  · have sum := near' terms ((le_max_right _ _).trans le)
    rw [← Rat.cast_le (K := ℝ)]
    push_cast [realCast_cosinePolynomial]
    exact sum

end Polynomials

end ScientificCalculator.FixedPoint
