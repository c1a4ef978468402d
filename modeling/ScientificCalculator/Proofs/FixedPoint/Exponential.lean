import Mathlib.Analysis.SpecialFunctions.Exponential
import ScientificCalculator.FixedPoint.Exponential
import ScientificCalculator.Proofs.FixedPoint.Taylor

/-!
The fixed-point exponential is accurate in proportion to its value. The series has an error of two
units for each digit; every squaring doubles what is lost in proportion and truncates once more, so
the whole error stays below three times as much for each of them.
-/

namespace ScientificCalculator.FixedPoint

open Finset

section Squaring
variable {scale : ℕ} {value : ℤ} {a error : ℝ}

/-- A square of a number in proportion to which `error` units are lost. -/
theorem abs_square_sub_le (scaled : 0 < scale) (least : 1 ≤ a) (room : error ≤ scale)
    (near : |(value : ℝ) - scale * a| ≤ error * a) :
    |(((value * value).tdiv scale : ℤ) : ℝ) - scale * (a * a)| ≤ (3 * error + 1) * (a * a) := by
  have positive : (0 : ℝ) < scale := by exact_mod_cast scaled
  have pos : 0 < a := one_pos.trans_le least
  have truncated := abs_tdiv_sub_lt (value * value) scaled
  have sum : |(value : ℝ) + scale * a| ≤ 3 * scale * a := by
    have twice : (value : ℝ) + scale * a = (value - scale * a) + 2 * (scale * a) := by ring
    have lost : error * a ≤ scale * a := mul_le_mul_of_nonneg_right room pos.le
    rw [twice]
    refine (abs_add_le _ _).trans ?_
    rw [abs_of_pos (mul_pos two_pos (mul_pos positive pos))]
    linarith
  have squares : |((value * value : ℤ) : ℝ) / scale - scale * (a * a)| ≤ 3 * error * (a * a) := by
    have product : ((value * value : ℤ) : ℝ) / scale - scale * (a * a) =
        (value - scale * a) * (value + scale * a) / scale := by
      push_cast
      field_simp
      ring
    rw [product, abs_div, abs_mul, abs_of_pos positive, div_le_iff₀ positive]
    calc |(value : ℝ) - scale * a| * |(value : ℝ) + scale * a|
        ≤ error * a * (3 * scale * a) :=
          mul_le_mul near sum (abs_nonneg _) ((abs_nonneg _).trans near)
      _ = 3 * error * (a * a) * scale := by ring
  have unit : 1 ≤ a * a := one_le_mul_of_one_le_of_one_le least least
  exact (abs_sub_le _ _ _).trans ((add_le_add truncated.le squares).trans (by linarith))

theorem abs_squareRepeatedly_sub_le (scaled : 0 < scale) (least : 1 ≤ a) (times : ℕ)
    (room : 3 ^ times * (error + 1) ≤ scale) (near : |(value : ℝ) - scale * a| ≤ error * a) :
    |(squareRepeatedly scale times value : ℝ) - scale * a ^ 2 ^ times| ≤
      3 ^ times * (error + 1) * a ^ 2 ^ times := by
  have pos : 0 < a := one_pos.trans_le least
  induction times generalizing value a error with
  | zero =>
    rw [squareRepeatedly, pow_zero, pow_zero, pow_one]
    linarith
  | succ times ih =>
    have natural : 0 ≤ error := nonneg_of_mul_nonneg_left ((abs_nonneg _).trans near) pos
    have power : (1 : ℝ) ≤ 3 ^ times := one_le_pow₀ (by norm_num)
    have now : error ≤ scale := by
      rw [pow_succ, mul_assoc] at room
      have whole := le_mul_of_one_le_left (by linarith : 0 ≤ 3 * (error + 1)) power
      linarith
    have next := abs_square_sub_le scaled least now near
    have bound : 3 ^ times * (3 * error + 1 + 1) ≤ 3 ^ (times + 1) * (error + 1) := by
      rw [pow_succ, mul_assoc]
      exact mul_le_mul_of_nonneg_left (by linarith) (by linarith)
    have later := ih (one_le_mul_of_one_le_of_one_le least least) (bound.trans room) next
      (mul_pos pos pos)
    have powers : (a * a) ^ 2 ^ times = a ^ 2 ^ (times + 1) := by
      rw [← sq, ← pow_mul, pow_succ']
    rw [powers] at later
    rw [squareRepeatedly]
    exact later.trans (mul_le_mul_of_nonneg_right bound (by positivity))

end Squaring

section Series
variable {scale : ℕ} {ratio : ℤ}

theorem seriesFrom_exponential (scaled : 0 < scale) :
    seriesFrom (termFactor scale ratio fun n => n) 1 = Real.exp (ratio / scale) := by
  have positive : (0 : ℝ) < scale := by exact_mod_cast scaled
  have product (k : ℕ) : ∏ j ∈ range k, termFactor scale ratio (fun n => n) (1 + j) =
      (ratio / scale : ℝ) ^ k / (k.factorial : ℝ) := by
    induction k with
    | zero => simp
    | succ k ih =>
      rw [prod_range_succ, ih, termFactor, Nat.factorial_succ, Nat.add_comm 1 k, pow_succ]
      push_cast
      field_simp
  rw [seriesFrom, Real.exp_eq_exp_ℝ]
  simp only [product]
  exact (NormedSpace.expSeries_div_hasSum_exp (ratio / scale : ℝ)).tsum_eq

theorem abs_exponentialError_le {digits : ℕ}
    (small : |(ratio : ℝ)| ≤ (tenTo digits : ℕ) / 10) :
    |taylorError (tenTo digits) ratio (fun n => n) (fun _ => Nat.le_refl _) (tenTo digits) 1| ≤
      2 * (digits + 1) := by
  have scaled : (0 : ℝ) < (tenTo digits : ℕ) := by exact_mod_cast tenTo_pos digits
  have tenth {m : ℕ} (start : 1 ≤ m) :
      |termFactor (tenTo digits) ratio (fun n => n) m| ≤ 1 / 10 := by
    have place : (1 : ℝ) ≤ m := by exact_mod_cast start
    rw [termFactor, abs_div, abs_of_pos (by positivity : (0 : ℝ) < tenTo digits * m),
      div_le_iff₀ (by positivity)]
    exact small.trans (by nlinarith)
  have decays : Decays (termFactor (tenTo digits) ratio fun n => n) :=
    ⟨1 / 10, by norm_num, 1, fun _ start => tenth start⟩
  have half {n : ℕ} (start : 1 ≤ n) (m : ℕ) (le : n ≤ m) :
      |termFactor (tenTo digits) ratio (fun n => n) m| ≤ 1 / 2 :=
    (tenth (start.trans le)).trans (by norm_num)
  have size : |((tenTo digits : ℤ) : ℝ)| * 1 < 10 ^ (digits + 1) := by
    rw [Int.cast_natCast, Nat.abs_cast, mul_one, pow_succ, ← realCast_tenTo]
    linarith
  have error := abs_taylorError_le (fun _ => Nat.le_refl _) (fun _ => 1) (tenTo_pos digits)
    decays one_pos (fun _ _ => le_rfl) (fun m le => by simpa using tenth le) (fun m less =>
      abs_seriesFrom_le_two (half less.le)) size
  push_cast at error
  linarith

end Series

section Reduction
variable {x reduced : ℤ} {digits : ℕ}

/-- Exponentials are close in proportion if their arguments are close. -/
theorem within_exp {a b ε : ℝ} (near : |a - b| ≤ ε) (small : ε ≤ 1) :
    Within (2 * ε) (Real.exp a) (Real.exp b) := by
  have product : Real.exp a - Real.exp b = (Real.exp (a - b) - 1) * Real.exp b := by
    rw [Real.exp_sub]
    field_simp
  rw [Within, product, abs_mul]
  exact mul_le_mul_of_nonneg_right ((Real.abs_exp_sub_one_le (near.trans small)).trans
    (mul_le_mul_of_nonneg_left near two_pos.le)) (abs_nonneg _)

/-- The argument is divided before the series is summed, and that division is truncated as well. -/
theorem abs_reducedExponential_sub_le (natural : 0 ≤ x) (small : (x : ℝ) ≤ 3 * 10 ^ digits)
    (truncated : |(reduced : ℝ) - x / 1024| < 1) (shorter : |(reduced : ℝ)| ≤ |(x : ℝ) / 1024|) :
    |((tenTo digits + taylorTail (tenTo digits) reduced (fun n => n) (fun _ => Nat.le_refl _)
        (tenTo digits) 1 : ℤ) : ℝ) - 10 ^ digits * Real.exp (x / 10 ^ digits / 1024)| ≤
      (2 * digits + 4) * Real.exp (x / 10 ^ digits / 1024) := by
  have power : (0 : ℝ) < 10 ^ digits := by positivity
  have natural' : (0 : ℝ) ≤ x := by exact_mod_cast natural
  have tenth : |(reduced : ℝ)| ≤ (tenTo digits : ℕ) / 10 := by
    rw [realCast_tenTo]
    refine shorter.trans ?_
    rw [abs_of_nonneg (by positivity)]
    linarith
  have series := abs_exponentialError_le tenth
  rw [taylorError, seriesFrom_exponential (tenTo_pos digits), ← Int.cast_add, Int.cast_natCast,
    realCast_tenTo] at series
  have argument : |(reduced : ℝ) / 10 ^ digits - x / 10 ^ digits / 1024| ≤ 1 / 10 ^ digits := by
    rw [div_right_comm, ← sub_div, abs_div, abs_of_pos power]
    exact div_le_div_of_nonneg_right truncated.le power.le
  have unit : (1 : ℝ) / 10 ^ digits ≤ 1 := div_le_one_of_le₀ (one_le_pow₀ (by norm_num)) power.le
  have close := mul_le_mul_of_nonneg_left (within_exp argument unit) power.le
  rw [← abs_scaled_sub, Real.abs_exp, ← mul_assoc, mul_left_comm, mul_one_div_cancel power.ne',
    mul_one] at close
  have least : 1 ≤ Real.exp (x / 10 ^ digits / 1024) := Real.one_le_exp (by positivity)
  have more := le_mul_of_one_le_right (by positivity : (0 : ℝ) ≤ 2 * (digits + 1)) least
  exact (abs_sub_le _ _ _).trans ((add_le_add series close).trans (by linarith))

/-- The exponential of a number from zero to three. -/
theorem abs_exponential_sub_le (natural : 0 ≤ x) (small : (x : ℝ) ≤ 3 * 10 ^ digits)
    (wide : 3 ^ 10 * (2 * digits + 5) ≤ 10 ^ digits) :
    |(exponential x digits : ℝ) - 10 ^ digits * Real.exp (x / 10 ^ digits)| ≤
      3 ^ 10 * (2 * digits + 5) * Real.exp (x / 10 ^ digits) := by
  have natural' : (0 : ℝ) ≤ x := by exact_mod_cast natural
  have divides : 0 < Nat.pow 2 halvings := Nat.two_pow_pos _
  have truncated := abs_tdiv_sub_lt x divides
  have shorter := abs_tdiv_le_abs x (Nat.pow 2 halvings)
  have divisor : ((Nat.pow 2 halvings : ℕ) : ℝ) = 1024 := by
    rw [realCast_pow, halvings]
    norm_num
  rw [divisor] at truncated shorter
  have start := abs_reducedExponential_sub_le natural small truncated shorter
  have least : 1 ≤ Real.exp (x / 10 ^ digits / 1024) := Real.one_le_exp (by positivity)
  have whole : Real.exp (x / 10 ^ digits / 1024) ^ 2 ^ halvings = Real.exp (x / 10 ^ digits) := by
    rw [← Real.exp_nat_mul, halvings]
    congr 1
    push_cast
    field_simp
  have five : (2 * digits + 4 + 1 : ℝ) = 2 * digits + 5 := by ring
  have room : (3 : ℝ) ^ halvings * (2 * digits + 4 + 1) ≤ (tenTo digits : ℕ) := by
    rw [realCast_tenTo, five]
    exact_mod_cast wide
  generalize Real.exp (x / 10 ^ digits / 1024) = a at start least whole
  rw [← realCast_tenTo] at start
  have squared := abs_squareRepeatedly_sub_le (tenTo_pos digits) least halvings room start
  rwa [whole, realCast_tenTo, five] at squared

end Reduction

end ScientificCalculator.FixedPoint
