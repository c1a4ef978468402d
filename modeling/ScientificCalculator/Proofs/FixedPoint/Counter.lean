import Mathlib.Analysis.Complex.ExponentialBounds
import Mathlib.Analysis.Real.Pi.Bounds
import Mathlib.Analysis.SpecialFunctions.Stirling
import ScientificCalculator.Proofs.FixedPoint.SineCosine

/-!
Sine and cosine as the calculator has them, with terms counted in thirty-two bits. The divisor of
the sine leaves these bits where the counter is 32768. Up to 247732 digits the series of an angle of
at most four has ended by then, so the counted series are the ones without a bound, and as accurate.
With more digits the divisors can start again from small numbers, and the sum goes on with terms
that are far too large.
-/

namespace ScientificCalculator.FixedPoint

open Finset

/-- Divisors that are exact up to a counter, and that remain large for some counters after it. -/
structure ExactTo (counted : UInt32 → UInt32) (divisor : ℕ → ℕ) (last : ℕ) : Prop where
  exact : ∀ {n : ℕ}, 1 ≤ n → n ≤ last → (counted (UInt32.ofNat n)).toNat = divisor n
  wide : ∀ {n : ℕ}, last < n → n ≤ last + 10 →
    16 * (4095 + 1) ≤ (counted (UInt32.ofNat n)).toNat

section Divisors

theorem toNat_sineDivisor (n : ℕ) :
    (sineDivisor (UInt32.ofNat n)).toNat = 2 * n * (2 * n + 1) % 2 ^ 32 := by
  have divisor : sineDivisor (UInt32.ofNat n) = UInt32.ofNat (2 * n * (2 * n + 1)) := by
    rw [UInt32.ofNat_mul, UInt32.ofNat_add, UInt32.ofNat_mul]
    rfl
  rw [divisor, UInt32.toNat_ofNat']

theorem toNat_cosineDivisor {n : ℕ} (start : 1 ≤ n) :
    (cosineDivisor (UInt32.ofNat n)).toNat = (2 * n - 1) * (2 * n) % 2 ^ 32 := by
  have divisor : cosineDivisor (UInt32.ofNat n) = UInt32.ofNat ((2 * n - 1) * (2 * n)) := by
    rw [UInt32.ofNat_mul, UInt32.ofNat_sub (by omega), UInt32.ofNat_mul]
    rfl
  rw [divisor, UInt32.toNat_ofNat']

/-- The first divisor that leaves its bits is followed from 65536 on. -/
theorem sineDivisor_exactTo : ExactTo sineDivisor (fun n => 2 * n * (2 * n + 1)) 32767 where
  exact := by
    intro n _ early
    rw [toNat_sineDivisor]
    apply Nat.mod_eq_of_lt
    calc 2 * n * (2 * n + 1)
        ≤ 2 * 32767 * (2 * 32767 + 1) := Nat.mul_le_mul (by omega) (by omega)
      _ < 2 ^ 32 := by decide
  wide := by
    intro n late early
    obtain ⟨j, rfl⟩ := Nat.exists_eq_add_of_le late
    have all : ∀ j < 10, 16 * (4095 + 1) ≤ (sineDivisor (UInt32.ofNat (32768 + j))).toNat := by
      decide
    exact all j (by omega)

theorem cosineDivisor_exactTo : ExactTo cosineDivisor (fun n => (2 * n - 1) * (2 * n)) 32768 where
  exact := by
    intro n start early
    rw [toNat_cosineDivisor start]
    apply Nat.mod_eq_of_lt
    calc (2 * n - 1) * (2 * n)
        ≤ (2 * 32768 - 1) * (2 * 32768) := Nat.mul_le_mul (by omega) (by omega)
      _ < 2 ^ 32 := by decide
  wide := by
    intro n late early
    obtain ⟨j, rfl⟩ := Nat.exists_eq_add_of_le late
    have all : ∀ j < 10, 16 * (4095 + 1) ≤ (cosineDivisor (UInt32.ofNat (32769 + j))).toNat := by
      decide
    exact all j (by omega)

end Divisors

section Counted
variable {scale : ℕ} {factor : ℤ} {counted : UInt32 → UInt32} {ends : counted 2147483648 = 0}
  {divisor : ℕ → ℕ} {last : ℕ}

theorem ExactTo.ne_zero (exactTo : ExactTo counted divisor last) (grows : ∀ n, n ≤ divisor n)
    {n : ℕ} (start : 1 ≤ n) (early : n ≤ last + 10) : counted (UInt32.ofNat n) ≠ 0 := by
  intro zero
  have zero := congrArg UInt32.toNat zero
  rw [UInt32.toNat_zero] at zero
  rcases Nat.lt_or_ge last n with late | le
  · have wide := exactTo.wide late early
    omega
  · have large := grows n
    rw [exactTo.exact start le] at zero
    omega

theorem countedTail_zero {n : UInt32} (divides : counted n ≠ 0) :
    countedTail scale factor counted ends 0 n = some 0 := by
  rw [countedTail]
  simp [divides, nextTerm_zero]

/-- A counted sum goes on from any term as well, as long as its divisors are not zero. -/
theorem countedTail_eq (term : ℤ) {n : UInt32} (divides : counted n ≠ 0)
    (divides' : counted (n + 1) ≠ 0) :
    countedTail scale factor counted ends term n =
      (nextTerm scale factor term (counted n).toNat + ·) <$>
        countedTail scale factor counted ends (nextTerm scale factor term (counted n).toNat)
          (n + 1) := by
  rw [countedTail, if_neg divides]
  by_cases last : nextTerm scale factor term (counted n).toNat = 0
  · simp [last, countedTail_zero divides']
  · simp [last]

/-- For as many steps as the divisors are exact, a counted sum has the terms of the sum without a
bound; the two differ by what follows. -/
theorem countedTail_eq_map (exactTo : ExactTo counted divisor last) (grows : ∀ n, n ≤ divisor n)
    (term : ℤ) {n k : ℕ} (start : 1 ≤ n) (early : n + k ≤ last + 1) :
    countedTail scale factor counted ends term (UInt32.ofNat n) =
      (taylorTail scale factor divisor grows term n -
        taylorTail scale factor divisor grows (termAfter scale factor divisor term n k) (n + k) +
          ·) <$>
        countedTail scale factor counted ends (termAfter scale factor divisor term n k)
          (UInt32.ofNat (n + k)) := by
  induction k generalizing term n with
  | zero => simp [termAfter]
  | succ k ih =>
    have advance : UInt32.ofNat n + 1 = UInt32.ofNat (n + 1) := (UInt32.ofNat_add n 1).symm
    have place : n + 1 + k = n + (k + 1) := by omega
    have here := exactTo.ne_zero grows start (by omega)
    have next := exactTo.ne_zero grows (Nat.le_succ_of_le start) (by omega)
    rw [countedTail_eq term here (advance ▸ next), exactTo.exact start (by omega), advance,
      ih _ (Nat.le_succ_of_le start) (by omega), taylorTail_eq term n, termAfter, place]
    simp only [Option.map_eq_map, Option.map_map]
    congr 1
    funext tail
    simp only [Function.comp_apply]
    ring

/-- The same for a whole series, with its first term. -/
theorem add_countedTail_eq_map (exactTo : ExactTo counted divisor last)
    (grows : ∀ n, n ≤ divisor n) (term : ℤ) {k : ℕ} (early : k ≤ last) :
    (term + ·) <$> countedTail scale factor counted ends term 1 =
      (term + taylorTail scale factor divisor grows term 1 -
        taylorTail scale factor divisor grows (termAfter scale factor divisor term 1 k) (1 + k) +
          ·) <$>
        countedTail scale factor counted ends (termAfter scale factor divisor term 1 k)
          (UInt32.ofNat (1 + k)) := by
  have tail : countedTail scale factor counted ends term 1 = _ :=
    countedTail_eq_map (n := 1) (k := k) exactTo grows term le_rfl (by omega)
  rw [tail]
  simp only [Option.map_eq_map, Option.map_map]
  congr 1
  funext rest
  simp only [Function.comp_apply]
  ring

/-- A series that has come to its end while its divisors are exact is the one without a bound. -/
theorem add_countedTail_eq (exactTo : ExactTo counted divisor last) (grows : ∀ n, n ≤ divisor n)
    {term : ℤ} {k : ℕ} (early : k ≤ last) (ended : termAfter scale factor divisor term 1 k = 0) :
    (term + ·) <$> countedTail scale factor counted ends term 1 =
      some (term + taylorTail scale factor divisor grows term 1) := by
  have nonzero := exactTo.ne_zero grows (Nat.le_add_right 1 k) (by omega)
  rw [add_countedTail_eq_map exactTo grows term early, ended, taylorTail_zero,
    countedTail_zero nonzero]
  simp

end Counted

section Size
variable {scale : ℕ} {factor : ℤ} {divisor : ℕ → ℕ}

theorem natAbs_nextTerm_mul_le (small : factor.natAbs ≤ 16 * scale) (term : ℤ) (d : ℕ) :
    (nextTerm scale factor term d).natAbs * d ≤ 16 * term.natAbs := by
  rw [natAbs_nextTerm]
  calc term.natAbs * factor.natAbs / scale / d * d
      ≤ term.natAbs * factor.natAbs / scale := Nat.div_mul_le_self _ _
    _ ≤ term.natAbs * (16 * scale) / scale := Nat.div_le_div_right (Nat.mul_le_mul_left _ small)
    _ ≤ 16 * term.natAbs := by
        rw [← Nat.mul_assoc, Nat.mul_comm term.natAbs]
        exact Nat.div_le_of_le_mul (Nat.mul_comm _ _).le

/-- Terms that divide by at least sixteen times `bound + 1` fall to that part of themselves. -/
theorem natAbs_nextTerm_mul_succ_le (small : factor.natAbs ≤ 16 * scale) {bound d : ℕ}
    (wide : 16 * (bound + 1) ≤ d) (term : ℤ) :
    (nextTerm scale factor term d).natAbs * (bound + 1) ≤ term.natAbs := by
  have whole := natAbs_nextTerm_mul_le small term d
  have part := Nat.mul_le_mul_left (nextTerm scale factor term d).natAbs wide
  rw [Nat.mul_left_comm] at part
  omega

/-- So all that follow together are at most the part `bound` of the first. -/
theorem natAbs_taylorTail_mul_le (grows : ∀ n, n ≤ divisor n)
    (small : factor.natAbs ≤ 16 * scale) {bound n : ℕ}
    (wide : ∀ m, n ≤ m → 16 * (bound + 1) ≤ divisor m) (term : ℤ) :
    (taylorTail scale factor divisor grows term n).natAbs * bound ≤ term.natAbs := by
  fun_induction taylorTail scale factor divisor grows term n with
  | case1 => simp
  | case2 term n next nonzero ih =>
    have falls : next.natAbs * (bound + 1) ≤ term.natAbs :=
      natAbs_nextTerm_mul_succ_le small (wide n le_rfl) term
    have later := ih fun m le => wide m (by omega)
    have sum := Nat.mul_le_mul_right bound
      (Int.natAbs_add_le next (taylorTail scale factor divisor grows next (n + 1)))
    rw [Nat.add_mul] at sum
    rw [Nat.mul_succ] at falls
    omega

/-- The same with counted divisors that are large for long enough. -/
theorem exists_countedTail {counted : UInt32 → UInt32} (ends : counted 2147483648 = 0)
    (small : factor.natAbs ≤ 16 * scale) {term : ℤ} {bound n k : ℕ}
    (wide : ∀ m, n ≤ m → m ≤ n + k → 16 * (bound + 1) ≤ (counted (UInt32.ofNat m)).toNat)
    (size : term.natAbs < (bound + 1) ^ k) :
    ∃ tail, countedTail scale factor counted ends term (UInt32.ofNat n) = some tail ∧
      tail.natAbs * bound ≤ term.natAbs := by
  have divides : ∀ m, n ≤ m → m ≤ n + k → counted (UInt32.ofNat m) ≠ 0 := by
    intro m le le' zero
    have large := wide m le le'
    rw [zero, UInt32.toNat_zero] at large
    omega
  induction k generalizing term n with
  | zero =>
    have none : term = 0 := Int.natAbs_eq_zero.1 (Nat.lt_one_iff.1 size)
    exact ⟨0, by rw [none, countedTail_zero (divides n le_rfl le_rfl)], by simp⟩
  | succ k ih =>
    have advance : UInt32.ofNat n + 1 = UInt32.ofNat (n + 1) := (UInt32.ofNat_add n 1).symm
    have falls := natAbs_nextTerm_mul_succ_le small (wide n le_rfl (by omega)) term
    generalize following :
      nextTerm scale factor term (counted (UInt32.ofNat n)).toNat = next at falls
    have size' : next.natAbs < (bound + 1) ^ k :=
      lt_of_mul_lt_mul_right (falls.trans_lt (by rwa [← pow_succ])) (Nat.zero_le _)
    obtain ⟨tail, sum, part⟩ := ih (n := n + 1)
      (fun m le le' => wide m (by omega) (by omega)) size'
      (fun m le le' => divides m (by omega) (by omega))
    refine ⟨next + tail, ?_, ?_⟩
    · rw [countedTail_eq term (divides n le_rfl (by omega))
        (advance ▸ divides (n + 1) (by omega) (by omega)), following, advance, sum]
      rfl
    · have both := Nat.mul_le_mul_right bound (Int.natAbs_add_le next tail)
      rw [Nat.add_mul] at both
      rw [Nat.mul_succ] at falls
      omega

/-- The terms of an angle of at most four are no larger than without truncation. -/
theorem natAbs_termAfter_mul_factorial_le (small : factor.natAbs ≤ 16 * scale) {e : ℕ}
    (first : e.factorial = 1)
    (next : ∀ k, (2 * (k + 1) + e).factorial = divisor (1 + k) * (2 * k + e).factorial)
    (term : ℤ) (k : ℕ) :
    (termAfter scale factor divisor term 1 k).natAbs * (2 * k + e).factorial ≤
      16 ^ k * term.natAbs := by
  induction k with
  | zero => simp [termAfter, first]
  | succ k ih =>
    have step := natAbs_nextTerm_mul_le small (termAfter scale factor divisor term 1 k)
      (divisor (1 + k))
    rw [termAfter_succ, next, ← Nat.mul_assoc]
    calc _ ≤ 16 * (termAfter scale factor divisor term 1 k).natAbs * (2 * k + e).factorial :=
          Nat.mul_le_mul_right _ step
      _ ≤ 16 * (16 ^ k * term.natAbs) := by
          rw [Nat.mul_assoc]
          exact Nat.mul_le_mul_left _ ih
      _ = 16 ^ (k + 1) * term.natAbs := by
          rw [pow_succ]
          ring

end Size

section Factorials

theorem mul_pow_le_factorial_mul_pow {n : ℕ} (root : ℕ) (small : 100 * root ^ 2 ≤ 628 * n) :
    root * (n * 10 ^ 10) ^ n ≤ n.factorial * 27182818286 ^ n := by
  have below : (root : ℝ) ≤ √(2 * Real.pi * n) := by
    apply Real.le_sqrt_of_sq_le
    have cast : (100 : ℝ) * root ^ 2 ≤ 628 * n := by exact_mod_cast small
    have circle := mul_le_mul_of_nonneg_right Real.pi_gt_d2.le (Nat.cast_nonneg (α := ℝ) n)
    linarith
  have base : (n : ℝ) * 10 ^ 10 / 27182818286 ≤ n / Real.exp 1 := by
    have euler := Real.exp_one_lt_d9.le
    rw [div_le_div_iff₀ (by norm_num) (Real.exp_pos 1), mul_assoc]
    exact mul_le_mul_of_nonneg_left (by linarith) (Nat.cast_nonneg n)
  have stirling : (root : ℝ) * (n * 10 ^ 10 / 27182818286) ^ n ≤ n.factorial :=
    (mul_le_mul below (pow_le_pow_left₀ (by positivity) base n) (by positivity)
      (Real.sqrt_nonneg _)).trans (Stirling.le_factorial_stirling n)
  rw [div_pow, ← mul_div_assoc, div_le_iff₀ (by positivity)] at stirling
  exact_mod_cast stirling

theorem factorial_mul_pow_le {n : ℕ} (pos : 0 < n) :
    n.factorial * 27182818283 ^ n ≤ 3 * n * (n * 10 ^ 10) ^ n := by
  have natural : (1 : ℝ) ≤ n := by exact_mod_cast pos
  have stirling : (n.factorial : ℝ) ≤ Real.exp 1 * √n * (n / Real.exp 1) ^ n := by
    have antitone := Stirling.stirlingSeq'_antitone (Nat.zero_le (n - 1))
    simp only [Function.comp_apply, Nat.succ_eq_add_one, Nat.sub_add_cancel pos, zero_add,
      Stirling.stirlingSeq_one] at antitone
    rw [Stirling.stirlingSeq, div_le_div_iff₀ (by positivity) (by positivity),
      Real.sqrt_mul zero_le_two] at antitone
    refine le_of_mul_le_mul_right (antitone.trans_eq ?_) (Real.sqrt_pos.2 two_pos)
    ring
  have euler := Real.exp_one_lt_d9
  have root : √(n : ℝ) ≤ n := Real.sqrt_le_iff.2 ⟨by positivity, le_self_pow₀ natural two_ne_zero⟩
  have front : Real.exp 1 * √n ≤ 3 * n :=
    mul_le_mul (by linarith) root (Real.sqrt_nonneg _) (by norm_num)
  have base : (n : ℝ) / Real.exp 1 ≤ n * 10 ^ 10 / 27182818283 := by
    have euler' := Real.exp_one_gt_d9.le
    rw [div_le_div_iff₀ (Real.exp_pos 1) (by norm_num), mul_assoc]
    exact mul_le_mul_of_nonneg_left (by linarith) (Nat.cast_nonneg n)
  have bound := stirling.trans (mul_le_mul front (pow_le_pow_left₀ (by positivity) base n)
    (by positivity) (by positivity))
  rw [div_pow, ← mul_div_assoc, le_div_iff₀ (by positivity)] at bound
  exact_mod_cast bound

theorem lt_mul_factorial {n a bound : ℕ} (root : ℕ) (small : 100 * root ^ 2 ≤ 628 * n)
    (compare : a * 27182818286 ^ n < bound * (root * (n * 10 ^ 10) ^ n)) :
    a < bound * n.factorial := by
  have lower := Nat.mul_le_mul_left bound (mul_pow_le_factorial_mul_pow root small)
  rw [← Nat.mul_assoc bound n.factorial] at lower
  exact lt_of_mul_lt_mul_right (compare.trans_le lower) (Nat.zero_le _)

theorem mul_factorial_le {n a bound : ℕ} (pos : 0 < n)
    (compare : bound * (3 * n * (n * 10 ^ 10) ^ n) ≤ a * 27182818283 ^ n) :
    bound * n.factorial ≤ a := by
  have upper := Nat.mul_le_mul_left bound (factorial_mul_pow_le pos)
  rw [← Nat.mul_assoc bound n.factorial] at upper
  exact le_of_mul_le_mul_right (upper.trans compare) (by positivity)

/-- No term of the sine is left at the counter 32768, for no more digits than these. -/
theorem past_last : 16 ^ 32767 * (4 * 10 ^ 247732) < 1 * (2 * 32767 + 1).factorial :=
  lt_mul_factorial 641 (by decide) (by decide +kernel)

end Factorials

section Digits
variable {x : ℤ} {digits k bound : ℕ}

theorem natAbs_negatedSquare_le (small : |x| ≤ 4 * tenTo digits) :
    (negatedSquare x digits).natAbs ≤ 16 * tenTo digits := by
  have small' : |(x : ℝ)| ≤ 4 * 10 ^ digits := by
    rw [← realCast_tenTo]
    exact_mod_cast small
  have square := abs_negatedSquare_le small'
  rw [← Int.cast_abs, Int.abs_eq_natAbs] at square
  exact_mod_cast square

theorem natAbs_sineTerm_lt (small : |x| ≤ 4 * tenTo digits)
    (past : 16 ^ k * (4 * 10 ^ digits) < bound * (2 * k + 1).factorial) :
    (sineTerm x digits k).natAbs < bound := by
  have size : (sineTerm x digits k).natAbs * (2 * k + 1).factorial ≤ 16 ^ k * x.natAbs :=
    natAbs_termAfter_mul_factorial_le (natAbs_negatedSquare_le small) Nat.factorial_one
      factorial_odd x k
  have start : x.natAbs ≤ 4 * 10 ^ digits := by
    rw [Int.abs_eq_natAbs] at small
    exact_mod_cast small
  exact lt_of_mul_lt_mul_right
    ((size.trans (Nat.mul_le_mul_left _ start)).trans_lt past) (Nat.zero_le _)

theorem natAbs_cosineTerm_lt (small : |x| ≤ 4 * tenTo digits)
    (past : 16 ^ k * 10 ^ digits < bound * (2 * k + 0).factorial) :
    (cosineTerm x digits k).natAbs < bound := by
  have size : (cosineTerm x digits k).natAbs * (2 * k + 0).factorial ≤ 16 ^ k * tenTo digits :=
    natAbs_termAfter_mul_factorial_le (natAbs_negatedSquare_le small) Nat.factorial_zero
      factorial_even (tenTo digits) k
  exact lt_of_mul_lt_mul_right (size.trans_lt past) (Nat.zero_le _)

/-- One step later the terms of the cosine are the smaller ones. -/
theorem past_even (late : 1 ≤ k)
    (past : 16 ^ k * (4 * 10 ^ digits) < bound * (2 * k + 1).factorial) :
    16 ^ (k + 1) * 10 ^ digits < bound * (2 * (k + 1) + 0).factorial := by
  calc 16 ^ (k + 1) * 10 ^ digits
      = 4 * (16 ^ k * (4 * 10 ^ digits)) := by
        rw [pow_succ]
        ring
    _ < 4 * (bound * (2 * k + 1).factorial) := Nat.mul_lt_mul_of_pos_left past (by decide)
    _ ≤ (2 * k + 2) * (bound * (2 * k + 1).factorial) := Nat.mul_le_mul_right _ (by omega)
    _ = bound * (2 * (k + 1) + 0).factorial := by
        rw [show 2 * (k + 1) + 0 = 2 * k + 1 + 1 by omega, Nat.factorial_succ (2 * k + 1)]
        ring

/-- Where the terms end before a divisor leaves its bits, the counted series are the ones without a
bound. -/
theorem sineCosine_eq_of_past {most : ℕ} (late : 1 ≤ k) (early : k ≤ 32767)
    (past : 16 ^ k * (4 * 10 ^ most) < 1 * (2 * k + 1).factorial) (countable : digits ≤ most)
    (small : |x| ≤ 4 * tenTo digits) :
    sineCosine x digits = some (sine x digits, cosine x digits) := by
  have fewer : 10 ^ digits ≤ 10 ^ most := Nat.pow_le_pow_right (by decide) countable
  have past : 16 ^ k * (4 * 10 ^ digits) < 1 * (2 * k + 1).factorial :=
    (Nat.mul_le_mul_left _ (Nat.mul_le_mul_left 4 fewer)).trans_lt past
  have lastSine : sineTerm x digits k = 0 :=
    Int.natAbs_eq_zero.1 (Nat.lt_one_iff.1 (natAbs_sineTerm_lt small past))
  have lastCosine : cosineTerm x digits (k + 1) = 0 :=
    Int.natAbs_eq_zero.1 (Nat.lt_one_iff.1 (natAbs_cosineTerm_lt small (past_even late past)))
  have sines : countedSine x digits = some (sine x digits) :=
    add_countedTail_eq sineDivisor_exactTo le_two_mul_mul_succ early lastSine
  have cosines : countedCosine x digits = some (cosine x digits) :=
    add_countedTail_eq cosineDivisor_exactTo le_two_mul_mul (Nat.succ_le_succ early) lastCosine
  rw [sineCosine, sines, cosines]
  rfl

/-- Sine and cosine of angles of at most four, beside the real functions and beside exact sums of
their series, for as many digits as the counters can take. Their own sums have ended after the
digits of the angle and thirteen terms more. -/
theorem sine_cosine_accurate (countable : digits ≤ 247732) (small : |x| ≤ 4 * tenTo digits) :
    ∃ s c, sineCosine x digits = some (s, c) ∧
      (|(s : ℝ) - 10 ^ digits * Real.sin (x / 10 ^ digits)| ≤ 4 * digits + 60 ∧
        |(c : ℝ) - 10 ^ digits * Real.cos (x / 10 ^ digits)| ≤ 4 * digits + 60) ∧
      (∃ enough, ∀ terms, enough ≤ terms →
        |(s : ℚ) - 10 ^ digits * sinePolynomial terms (x / 10 ^ digits)| ≤ 4 * digits + 60 ∧
        |(c : ℚ) - 10 ^ digits * cosinePolynomial terms (x / 10 ^ digits)| ≤ 4 * digits + 60) ∧
      ∀ k, digits + 13 ≤ k →
        s = ∑ j ∈ range k, sineTerm x digits j ∧ c = ∑ j ∈ range k, cosineTerm x digits j :=
  ⟨_, _, sineCosine_eq_of_past (by decide) le_rfl past_last countable small, sine_cosine_near small⟩

theorem sine_cosine_accurate_least_angle :
    75 ≤ 247732 ∧ |(-(4 * 10 ^ 75) : ℤ)| ≤ 4 * tenTo 75 ∧
      ∃ s c, sineCosine (-(4 * 10 ^ 75)) 75 = some (s, c) ∧
        |(s : ℝ) - 10 ^ 75 * Real.sin (-4)| ≤ 360 ∧ |(c : ℝ) - 10 ^ 75 * Real.cos (-4)| ≤ 360 := by
  have countable : 75 ≤ 247732 := by decide
  have small : |(-(4 * 10 ^ 75) : ℤ)| ≤ 4 * tenTo 75 := by decide
  have angle : ((-(4 * 10 ^ 75) : ℤ) : ℝ) / 10 ^ 75 = -4 := by norm_num
  have units : (4 : ℝ) * (75 : ℕ) + 60 = 360 := by norm_num
  obtain ⟨s, c, result, accurate, -⟩ := sine_cosine_accurate countable small
  rw [angle, units] at accurate
  exact ⟨countable, small, s, c, result, accurate⟩

end Digits

section Overrun
variable {digits k : ℕ}

theorem negatedSquare_four (digits : ℕ) :
    negatedSquare (4 * tenTo digits) digits = -(16 * tenTo digits) := by
  have positive : (tenTo digits : ℤ) ≠ 0 := by exact_mod_cast (tenTo_pos digits).ne'
  rw [negatedSquare, show (4 * tenTo digits * (4 * tenTo digits) : ℤ) =
    16 * tenTo digits * tenTo digits by ring, Int.mul_tdiv_cancel _ positive]

/-- At an angle of four, only the division by the divisor truncates. -/
theorem natAbs_nextTerm_four (digits : ℕ) (term : ℤ) (d : ℕ) :
    (nextTerm (tenTo digits) (negatedSquare (4 * tenTo digits) digits) term d).natAbs =
      16 * term.natAbs / d := by
  have factor : (negatedSquare (4 * tenTo digits) digits).natAbs = 16 * tenTo digits := by
    rw [negatedSquare_four, Int.natAbs_neg]
    exact Int.natAbs_natCast (16 * tenTo digits)
  rw [natAbs_nextTerm, factor, ← Nat.mul_assoc, Nat.mul_div_cancel _ (tenTo_pos digits),
    Nat.mul_comm]

theorem natAbs_sineTerm_succ (digits k : ℕ) :
    (sineTerm (4 * tenTo digits) digits (k + 1)).natAbs =
      16 * (sineTerm (4 * tenTo digits) digits k).natAbs / (2 * (1 + k) * (2 * (1 + k) + 1)) := by
  rw [sineTerm, termAfter_succ, natAbs_nextTerm_four]
  rfl

/-- The loss of a truncation hardly grows in the terms that follow, so five units make up for all of
them. -/
theorem pow_mul_le_mul_factorial (digits : ℕ) {k : ℕ} (start : 1 ≤ k) :
    16 ^ k * (4 * 10 ^ digits) ≤
      ((sineTerm (4 * tenTo digits) digits k).natAbs + 5) * (2 * k + 1).factorial := by
  induction k, start using Nat.le_induction with
  | base =>
    have first : (sineTerm (4 * tenTo digits) digits 0).natAbs = 4 * 10 ^ digits :=
      Int.natAbs_natCast (4 * tenTo digits)
    have second := natAbs_sineTerm_succ digits 0
    rw [first] at second
    rw [second, show Nat.factorial (2 * 1 + 1) = 6 by decide]
    omega
  | succ k start ih =>
    rw [natAbs_sineTerm_succ, factorial_odd]
    generalize (sineTerm (4 * tenTo digits) digits k).natAbs = term at ih ⊢
    generalize wide : 2 * (1 + k) * (2 * (1 + k) + 1) = divisor
    have divisor_ge : 2 * 2 * (2 * 2 + 1) ≤ divisor :=
      wide ▸ Nat.mul_le_mul (by omega) (by omega)
    have truncated := Nat.lt_mul_div_succ (16 * term) (by omega : 0 < divisor)
    rw [Nat.mul_add, Nat.mul_one, Nat.mul_comm divisor] at truncated
    calc 16 ^ (k + 1) * (4 * 10 ^ digits)
        = 16 * (16 ^ k * (4 * 10 ^ digits)) := by
          rw [pow_succ]
          ring
      _ ≤ 16 * ((term + 5) * (2 * k + 1).factorial) := Nat.mul_le_mul_left _ ih
      _ = (16 * term + 80) * (2 * k + 1).factorial := by ring
      _ ≤ (16 * term / divisor * divisor + 5 * divisor) * (2 * k + 1).factorial :=
          Nat.mul_le_mul_right _ (by omega)
      _ = (16 * term / divisor + 5) * (divisor * (2 * k + 1).factorial) := by ring

theorem abs_four (digits : ℕ) : |(4 * tenTo digits : ℤ)| ≤ 4 * tenTo digits :=
  (abs_of_nonneg (by positivity)).le

/-- A term of the sine that is still large at the counter 32768 is divided by 65536 there, and so
leaves the sum far from the one without a bound. -/
theorem exists_countedSine (last : k = 32767)
    (low : 2 ^ 40 ≤ (sineTerm (4 * tenTo digits) digits k).natAbs)
    (high : (sineTerm (4 * tenTo digits) digits k).natAbs < 4096 ^ 8) :
    ∃ wrapped : ℤ, countedSine (4 * tenTo digits) digits =
        some (sine (4 * tenTo digits) digits + wrapped) ∧ 2 ^ 27 ≤ wrapped.natAbs := by
  have small := natAbs_negatedSquare_le (abs_four digits)
  have size := natAbs_nextTerm_four digits (sineTerm (4 * tenTo digits) digits k) 65536
  have before : countedSine (4 * tenTo digits) digits = _ :=
    add_countedTail_eq_map sineDivisor_exactTo le_two_mul_mul_succ (4 * tenTo digits) last.le
  rw [← sineTerm, ← sine] at before
  generalize sineTerm (4 * tenTo digits) digits k = term at before low high size
  generalize negatedSquare (4 * tenTo digits) digits = square at before size small
  -- The first divisor that is not exact is 65536.
  have divisor : (sineDivisor (UInt32.ofNat (1 + k))).toNat = 65536 := by
    rw [last]
    decide
  have advance : UInt32.ofNat (1 + k) + 1 = UInt32.ofNat (1 + k + 1) :=
    (UInt32.ofNat_add (1 + k) 1).symm
  have here := sineDivisor_exactTo.ne_zero le_two_mul_mul_succ (Nat.le_add_right 1 k) (by omega)
  have later := sineDivisor_exactTo.ne_zero le_two_mul_mul_succ (Nat.le_add_left 1 (1 + k))
    (by omega)
  rw [countedTail_eq term here (advance ▸ later), divisor, advance] at before
  generalize nextTerm (tenTo digits) square term 65536 = next at before size
  have few : next.natAbs < (4095 + 1) ^ 8 := by omega
  obtain ⟨tail, sum, part⟩ := exists_countedTail (n := 1 + k + 1) sineDivisor_ends small
    (fun m le le' => sineDivisor_exactTo.wide (by omega) (by omega)) few
  rw [sum] at before
  -- The exact one is more than `2 ^ 32`.
  have wide (m : ℕ) (le : 1 + k ≤ m) : 16 * (2 ^ 28 - 1 + 1) ≤ 2 * m * (2 * m + 1) :=
    (by decide : 16 * (2 ^ 28 - 1 + 1) ≤ 65536 * 65536).trans
      (Nat.mul_le_mul (by omega) (by omega))
  have rest := natAbs_taylorTail_mul_le le_two_mul_mul_succ small wide term
  generalize taylorTail (tenTo digits) square (fun n => 2 * n * (2 * n + 1)) le_two_mul_mul_succ
    term (1 + k) = unbounded at before rest
  refine ⟨next + tail - unbounded, before.trans ?_, by omega⟩
  simp only [Option.map_eq_map, Option.map_some]
  congr 1
  ring

theorem exists_countedCosine (last : k = 32767)
    (high : (cosineTerm (4 * tenTo digits) digits (k + 1)).natAbs < 4096 ^ 8) :
    ∃ c, countedCosine (4 * tenTo digits) digits = some c := by
  have small := natAbs_negatedSquare_le (abs_four digits)
  obtain ⟨tail, sum, -⟩ := exists_countedTail (n := 1 + (k + 1)) cosineDivisor_ends small
    (fun m le le' => cosineDivisor_exactTo.wide (by omega) (by omega)) high
  have before : countedCosine (4 * tenTo digits) digits = _ :=
    add_countedTail_eq_map (k := k + 1) cosineDivisor_exactTo le_two_mul_mul (tenTo digits)
      (by omega)
  rw [← cosineTerm, sum] at before
  exact ⟨_, before⟩

/-- Where the first wrong divisor meets a large term, the sine of four is off by far more than the
truncations of its terms. -/
theorem exists_overrun (digits : ℕ) (last : k = 32767) (few : digits ≤ 1000000)
    (low : (2 ^ 40 + 5) * (2 * k + 1).factorial ≤ 16 ^ k * (4 * 10 ^ digits))
    (high : 16 ^ k * (4 * 10 ^ digits) < 4096 ^ 8 * (2 * k + 1).factorial) :
    ∃ s c, sineCosine (4 * tenTo digits) digits = some (s, c) ∧
      4 * digits + 60 < |(s : ℝ) - 10 ^ digits * Real.sin 4| := by
  have least : 2 ^ 40 + 5 ≤ (sineTerm (4 * tenTo digits) digits k).natAbs + 5 :=
    le_of_mul_le_mul_right (low.trans (pow_mul_le_mul_factorial digits (by omega)))
      (Nat.factorial_pos _)
  obtain ⟨wrapped, sines, far⟩ := exists_countedSine last (by omega)
    (natAbs_sineTerm_lt (abs_four digits) high)
  obtain ⟨c, cosines⟩ := exists_countedCosine last
    (natAbs_cosineTerm_lt (abs_four digits) (past_even (by omega) high))
  refine ⟨sine (4 * tenTo digits) digits + wrapped, c, ?_, ?_⟩
  · rw [sineCosine, sines, cosines]
    rfl
  · have power : (0 : ℝ) < 10 ^ digits := by positivity
    have angle : ((4 * tenTo digits : ℤ) : ℝ) = 4 * 10 ^ digits := by
      push_cast
      rw [realCast_tenTo]
    have near : |(sine (4 * tenTo digits) digits : ℝ) - 10 ^ digits *
        Real.sin ((4 * tenTo digits : ℤ) / 10 ^ digits)| ≤ 4 * digits + 54 :=
      abs_sine_sub_le (by rw [angle, abs_of_pos (by positivity)])
    rw [angle, mul_div_cancel_right₀ _ power.ne'] at near
    have far' : (2 : ℝ) ^ 27 ≤ |(wrapped : ℝ)| := by
      rw [← Int.cast_abs, Int.abs_eq_natAbs]
      exact_mod_cast far
    have few' : (digits : ℝ) ≤ 1000000 := by exact_mod_cast few
    have apart := abs_sub_abs_le_abs_add (wrapped : ℝ)
      ((sine (4 * tenTo digits) digits : ℝ) - 10 ^ digits * Real.sin 4)
    push_cast
    rw [show ∀ a b c : ℝ, a + b - c = b + (a - c) by intros; ring]
    norm_num at far'
    linarith

/-- With twenty-eight digits more than the counters can take, the sine of four is wrong. -/
theorem sineCosine_overrun : |(4 * tenTo 247760 : ℤ)| ≤ 4 * tenTo 247760 ∧
    ∃ s c, sineCosine (4 * tenTo 247760) 247760 = some (s, c) ∧
      (4 : ℝ) * 247760 + 60 < |(s : ℝ) - 10 ^ 247760 * Real.sin 4| := by
  obtain ⟨s, c, result, far⟩ := exists_overrun (k := 32767) 247760 rfl (by decide)
    (mul_factorial_le (by decide) (by decide +kernel))
    (lt_mul_factorial 641 (by decide) (by decide +kernel))
  rw [Nat.cast_ofNat] at far
  exact ⟨abs_four _, s, c, result, far⟩

end Overrun

end ScientificCalculator.FixedPoint
