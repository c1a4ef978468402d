import ScientificCalculator.FixedPoint.Logarithm
import ScientificCalculator.Proofs.FixedPoint.OddSeries

/-!
The fixed-point logarithm of a number from one to ten is accurate to a few hundred units for each
digit. At most five square roots come within a tenth of one; each of them halves the logarithm up to
one unit, and the doublings at the end multiply what the series and the roots have lost.
-/

namespace ScientificCalculator.FixedPoint

open Real

section Differences
variable {a b m : ℝ}

theorem log_sub_log_le (first : 0 < a) (second : 0 < b) : log a - log b ≤ (a - b) / b := by
  have tangent := log_le_sub_one_of_pos (div_pos first second)
  rwa [log_div first.ne' second.ne', ← div_self second.ne', ← sub_div] at tangent

theorem abs_log_sub_log_le (pos : 0 < m) (first : m ≤ a) (second : m ≤ b) :
    |log a - log b| ≤ |a - b| / m := by
  have bound {c d : ℝ} (low : m ≤ c) (low' : m ≤ d) : log c - log d ≤ |c - d| / m :=
    (log_sub_log_le (pos.trans_le low) (pos.trans_le low')).trans
      (div_le_div₀ (abs_nonneg _) (le_abs_self _) pos low')
  rw [abs_sub_le_iff]
  exact ⟨bound first second, abs_sub_comm a b ▸ bound second first⟩

end Differences

section Roots
variable {y digits : ℕ}

/-- The logarithm in units of the last digit. -/
noncomputable def exactLogarithm (y digits : ℕ) : ℝ := 10 ^ digits * log (y / 10 ^ digits)

theorem le_squareRoot (least : tenTo digits ≤ y) : tenTo digits ≤ squareRoot y digits :=
  Nat.le_sqrt.2 (Nat.mul_le_mul_right _ least)

/-- The square of a truncated root is at most twice the root below its radicand. -/
theorem squareRoot_bounds (y digits : ℕ) :
    (squareRoot y digits : ℝ) ^ 2 ≤ y * 10 ^ digits ∧
      (y * 10 ^ digits : ℝ) ≤ squareRoot y digits ^ 2 + 2 * squareRoot y digits := by
  have low := Nat.sqrt_le' (y * tenTo digits)
  have high := Nat.sqrt_le_add (y * tenTo digits)
  rw [← realCast_tenTo, squareRoot]
  constructor
  · exact_mod_cast low
  · exact_mod_cast (by linarith : y * tenTo digits ≤
      Nat.sqrt (y * tenTo digits) ^ 2 + 2 * Nat.sqrt (y * tenTo digits))

theorem squareRoot_lt (above : tenTo digits < y) : squareRoot y digits < y :=
  Nat.sqrt_lt.2 (Nat.mul_lt_mul_of_pos_left above (by omega))

theorem exactLogarithm_eq (pos : 0 < y) :
    exactLogarithm y digits = 10 ^ digits * (log y - log (10 ^ digits)) := by
  rw [exactLogarithm, log_div (by positivity) (by positivity)]

/-- A root halves the logarithm, and its truncation takes at most one unit away. -/
theorem exactLogarithm_squareRoot (least : tenTo digits ≤ y) :
    2 * exactLogarithm (squareRoot y digits) digits ≤ exactLogarithm y digits ∧
      exactLogarithm y digits ≤ 2 * exactLogarithm (squareRoot y digits) digits + 2 := by
  have power : (0 : ℝ) < 10 ^ digits := by positivity
  have pos : 0 < y := (tenTo_pos digits).trans_le least
  have root_pos : 0 < squareRoot y digits := (tenTo_pos digits).trans_le (le_squareRoot least)
  have low : (10 : ℝ) ^ digits ≤ squareRoot y digits := by
    rw [← realCast_tenTo]
    exact_mod_cast le_squareRoot least
  obtain ⟨least', most⟩ := squareRoot_bounds y digits
  have square : (squareRoot y digits * squareRoot y digits : ℝ) ≤ y * 10 ^ digits := by linarith
  have square' : (y * 10 ^ digits : ℝ) ≤ (squareRoot y digits + 1) * (squareRoot y digits + 1) := by
    linarith
  rw [exactLogarithm_eq pos, exactLogarithm_eq root_pos]
  have radicand : (0 : ℝ) < y := by exact_mod_cast pos
  generalize (squareRoot y digits : ℝ) = root at low square square'
  have root_pos' := power.trans_le low
  have logs := log_le_log (mul_pos root_pos' root_pos') square
  have logs' := log_le_log (mul_pos radicand power) square'
  rw [log_mul root_pos'.ne' root_pos'.ne', log_mul radicand.ne' power.ne'] at logs
  rw [log_mul radicand.ne' power.ne', log_mul (by positivity) (by positivity)] at logs'
  have unit : 10 ^ digits * (log (root + 1) - log root) ≤ 1 := by
    have tangent := log_sub_log_le (add_pos root_pos' one_pos) root_pos'
    rw [add_sub_cancel_left] at tangent
    calc 10 ^ digits * (log (root + 1) - log root)
        ≤ 10 ^ digits * (1 / root) := mul_le_mul_of_nonneg_left tangent power.le
      _ ≤ 1 := by rwa [mul_one_div, div_le_one root_pos']
  constructor
  · have scaled := mul_le_mul_of_nonneg_left logs power.le
    linarith
  · have scaled := mul_le_mul_of_nonneg_left logs' power.le
    linarith

theorem nearOne_iff (least : tenTo digits ≤ y) : NearOne digits y ↔ 10 * y ≤ 11 * tenTo digits := by
  unfold NearOne distanceFromOne
  omega

theorem nearOne_of_log_le (least : tenTo digits ≤ y)
    (small : exactLogarithm y digits ≤ 10 ^ digits * log (11 / 10)) : NearOne digits y := by
  have power : (0 : ℝ) < 10 ^ digits := by positivity
  have pos : (0 : ℝ) < y := by exact_mod_cast (tenTo_pos digits).trans_le least
  have quotient : (y : ℝ) / 10 ^ digits ≤ 11 / 10 :=
    (log_le_log_iff (by positivity) (by norm_num)).1 (le_of_mul_le_mul_left small power)
  rw [div_le_iff₀ power, ← realCast_tenTo] at quotient
  rw [nearOne_iff least]
  have scaled : (10 * y : ℝ) ≤ 11 * tenTo digits := by linarith
  exact_mod_cast scaled

/-- After few enough roots the number is near one, and its logarithm times a power of two is that of
the first one. -/
theorem rootsUntilNear_spec {n : ℕ} (taken : ℕ) (least : tenTo digits ≤ y)
    (reach : exactLogarithm y digits ≤ 2 ^ n * (10 ^ digits * log (11 / 10))) :
    ∃ near count, rootsUntilNear digits y taken = (near, taken + count) ∧ count ≤ n ∧
      tenTo digits ≤ near ∧ NearOne digits near ∧
      |2 ^ count * exactLogarithm near digits - exactLogarithm y digits| ≤ 2 ^ (count + 1) - 2 := by
  induction n generalizing y taken with
  | zero =>
    have stops : NearOne digits y := nearOne_of_log_le least (by linarith)
    exact ⟨y, 0, by rw [rootsUntilNear, if_pos stops]; rfl, le_rfl, least, stops, by norm_num⟩
  | succ n ih =>
    by_cases stops : NearOne digits y
    · exact ⟨y, 0, by rw [rootsUntilNear, if_pos stops]; rfl, Nat.zero_le _, least, stops,
        by norm_num⟩
    · have above : tenTo digits < y := by
        rw [nearOne_iff least] at stops
        omega
      have low := le_squareRoot least
      have closer : distanceFromOne digits (squareRoot y digits) < distanceFromOne digits y := by
        have less := squareRoot_lt above
        unfold distanceFromOne
        omega
      obtain ⟨halves, halves'⟩ := exactLogarithm_squareRoot least
      obtain ⟨near, count, found, few, atLeast, stops', error⟩ :=
        ih (taken + 1) low (by rw [pow_succ] at reach; linarith)
      refine ⟨near, count + 1, ?_, by omega, atLeast, stops', ?_⟩
      · rw [rootsUntilNear, if_neg stops, if_pos closer, found, add_assoc, add_comm 1]
      · obtain ⟨under, upper⟩ := abs_le.1 error
        have double : 2 ^ (count + 1) * exactLogarithm near digits =
            2 * (2 ^ count * exactLogarithm near digits) := by ring
        rw [abs_le, double, pow_succ 2 (count + 1)]
        constructor <;> linarith

end Roots

section Series
variable {a b : ℝ}

theorem abs_half_log_sub_le (first : |a| ≤ 1 / 21) (second : |b| ≤ 1 / 21) :
    |(log (1 + a) - log (1 - a)) / 2 - (log (1 + b) - log (1 - b)) / 2| ≤ 2 * |a - b| := by
  obtain ⟨low, high⟩ := abs_le.1 first
  obtain ⟨low', high'⟩ := abs_le.1 second
  have sums := abs_log_sub_log_le (a := 1 + a) (b := 1 + b) (m := 1 / 2) (by norm_num)
    (by linarith) (by linarith)
  have differences := abs_log_sub_log_le (a := 1 - a) (b := 1 - b) (m := 1 / 2) (by norm_num)
    (by linarith) (by linarith)
  rw [show 1 + a - (1 + b) = a - b by ring] at sums
  rw [show 1 - a - (1 - b) = b - a by ring, abs_sub_comm b] at differences
  have apart : (log (1 + a) - log (1 - a)) / 2 - (log (1 + b) - log (1 - b)) / 2 =
      (log (1 + a) - log (1 + b)) / 2 - (log (1 - a) - log (1 - b)) / 2 := by ring
  rw [apart]
  refine (abs_sub _ _).trans ?_
  rw [abs_div, abs_div, abs_two]
  linarith

/-- The number by which the logarithm is a series of odd powers. -/
theorem log_eq_half_log (first : 0 < a) (second : 0 < b) :
    log (a / b) = log (1 + (a - b) / (a + b)) - log (1 - (a - b) / (a + b)) := by
  have sum : (0 : ℝ) < a + b := add_pos first second
  have above : 1 + (a - b) / (a + b) = 2 * a / (a + b) := by
    field_simp
    ring
  have below : 1 - (a - b) / (a + b) = 2 * b / (a + b) := by
    field_simp
    ring
  rw [above, below, ← log_div (by positivity) (by positivity)]
  congr 1
  field_simp

variable {y digits : ℕ}

/-- Near one, the odd powers are those of at most a twenty-first. -/
theorem centered_le (least : tenTo digits ≤ y) (near : NearOne digits y) :
    |((y : ℝ) - 10 ^ digits) / (y + 10 ^ digits)| ≤ 1 / 21 := by
  have power : (0 : ℝ) < 10 ^ digits := by positivity
  have low : (10 : ℝ) ^ digits ≤ y := by
    rw [← realCast_tenTo]
    exact_mod_cast least
  have high : 10 * (y : ℝ) ≤ 11 * 10 ^ digits := by
    rw [← realCast_tenTo]
    exact_mod_cast (nearOne_iff least).1 near
  rw [abs_of_nonneg (div_nonneg (by linarith) (by linarith)), div_le_div_iff₀ (by linarith)
    (by norm_num)]
  linarith

/-- The sum of the odd powers of a small number. -/
theorem abs_oddLogarithm_sub_le {z : ℤ} (small : |(z : ℝ) / 10 ^ digits| ≤ 1 / 21) :
    |(z + oddTail (tenTo digits) ((z * z).tdiv (tenTo digits)) z 1 : ℤ) -
      10 ^ digits * ((log (1 + z / 10 ^ digits) - log (1 - z / 10 ^ digits)) / 2)| ≤
      4 * digits := by
  have power : (0 : ℝ) < 10 ^ digits := by positivity
  have size : |(z : ℝ)| ≤ 10 ^ digits / 21 := by
    rw [abs_div, abs_of_pos power, div_le_iff₀ power] at small
    linarith
  have square : ((z : ℝ) / 10 ^ digits) ^ 2 ≤ 1 / 10 := by
    rw [← sq_abs]
    exact (pow_le_pow_left₀ (abs_nonneg _) small 2).trans (by norm_num)
  have product : ((z * z : ℤ) : ℝ) / tenTo digits = tenTo digits * (z / 10 ^ digits) ^ 2 := by
    rw [realCast_tenTo, Int.cast_mul]
    field_simp
  have tenth : |(((z * z).tdiv (tenTo digits) : ℤ) : ℝ)| ≤ tenTo digits / 10 := by
    refine (abs_tdiv_le_abs (z * z) (tenTo digits)).trans ?_
    rw [product, abs_of_nonneg (by positivity), div_eq_mul_one_div (tenTo digits : ℝ)]
    exact mul_le_mul_of_nonneg_left square (Nat.cast_nonneg _)
  have near : |(((z * z).tdiv (tenTo digits) : ℤ) : ℝ) -
      tenTo digits * (z / 10 ^ digits) ^ 2| ≤ 1 := by
    rw [← product]
    exact (abs_tdiv_sub_lt (z * z) (tenTo_pos digits)).le
  have half : |((z : ℝ) / 10 ^ digits) ^ 2| ≤ 1 / 2 := by
    rw [abs_of_nonneg (sq_nonneg _)]
    linarith
  rw [half_log_eq_oddSeries (small.trans_lt (by norm_num)), ← mul_assoc,
    mul_div_cancel₀ _ power.ne']
  exact abs_add_oddTail_sub_le (tenTo_pos digits) tenth near half
    (by rw [realCast_tenTo]; linarith) (by linarith)

/-- The series gives half the logarithm of a number near one. -/
theorem abs_halfLogarithm_sub_le (least : tenTo digits ≤ y) (near : NearOne digits y) :
    |(halfLogarithm y digits : ℝ) - exactLogarithm y digits / 2| ≤ 4 * digits + 2 := by
  have power : (0 : ℝ) < 10 ^ digits := by positivity
  have pos : (0 : ℝ) < y := by exact_mod_cast (tenTo_pos digits).trans_le least
  have centered := centered_le least near
  have truncated := abs_tdiv_sub_lt (((y : ℤ) - tenTo digits) * tenTo digits)
    (Nat.add_pos_right y (tenTo_pos digits))
  have shorter := abs_tdiv_le_abs (((y : ℤ) - tenTo digits) * tenTo digits) (y + tenTo digits)
  have parts : ((((y : ℤ) - tenTo digits) * tenTo digits : ℤ) : ℝ) / (y + tenTo digits : ℕ) =
      10 ^ digits * ((y - 10 ^ digits) / (y + 10 ^ digits)) := by
    push_cast
    rw [realCast_tenTo]
    ring
  rw [parts] at truncated
  rw [parts, abs_mul, abs_of_pos power] at shorter
  rw [halfLogarithm, ← Nat.cast_add, exactLogarithm, log_eq_half_log pos power]
  generalize (((y : ℤ) - tenTo digits) * tenTo digits).tdiv (y + tenTo digits : ℕ) = z
    at truncated shorter ⊢
  generalize ((y : ℝ) - 10 ^ digits) / (y + 10 ^ digits) = a at centered truncated shorter ⊢
  have small : |(z : ℝ) / 10 ^ digits| ≤ 1 / 21 := by
    rw [abs_div, abs_of_pos power, div_le_iff₀ power, mul_comm]
    exact shorter.trans (mul_le_mul_of_nonneg_left centered power.le)
  have series := abs_oddLogarithm_sub_le small
  have moved := abs_half_log_sub_le small centered
  have scaled := mul_le_mul_of_nonneg_left moved power.le
  rw [← abs_scaled_sub, mul_left_comm, ← abs_scaled_sub, mul_div_cancel₀ _ power.ne'] at scaled
  rw [mul_div_assoc]
  exact (abs_sub_le _ _ _).trans ((add_le_add series scaled).trans (by linarith))

end Series

/-- Five roots reach from ten to a tenth above one. -/
theorem exactLogarithm_le {y digits : ℕ} (pos : 0 < y) (most : y ≤ tenTo digits * 10) :
    exactLogarithm y digits ≤ 2 ^ 5 * (10 ^ digits * log (11 / 10)) := by
  have power : (0 : ℝ) < 10 ^ digits := by positivity
  have quotient : (y : ℝ) / 10 ^ digits ≤ (11 / 10) ^ (2 ^ 5) := by
    have most' : (y : ℝ) ≤ tenTo digits * 10 := by exact_mod_cast most
    rw [realCast_tenTo] at most'
    rw [div_le_iff₀ power]
    linarith
  have logs := log_le_log (by positivity) quotient
  rw [log_pow] at logs
  have scaled := mul_le_mul_of_nonneg_left logs power.le
  rw [exactLogarithm]
  push_cast at scaled
  linarith

/-- The logarithm of a number from one to ten. -/
theorem abs_logarithm_sub_le {y digits : ℕ} (least : tenTo digits ≤ y)
    (most : y ≤ tenTo digits * 10) :
    |(logarithm y digits : ℝ) - exactLogarithm y digits| ≤ 64 * (4 * digits + 3) := by
  have reach := exactLogarithm_le ((tenTo_pos digits).trans_le least) most
  obtain ⟨near, count, found, few, atLeast, stops, roots⟩ := rootsUntilNear_spec 0 least reach
  have series := abs_halfLogarithm_sub_le atLeast stops
  have computed : (logarithm y digits : ℝ) = 2 ^ (count + 1) * halfLogarithm near digits := by
    have whole : logarithm y digits =
        halfLogarithm near digits * (Nat.pow 2 (count + 1) : ℕ) := by
      rw [logarithm, found, Nat.zero_add]
    rw [whole, mul_comm, Int.cast_mul, Int.cast_natCast, realCast_pow, Nat.cast_ofNat]
  have doublings : (2 : ℝ) ^ (count + 1) ≤ 2 ^ 6 := pow_le_pow_right₀ one_le_two (by omega)
  have doubled : |2 ^ (count + 1) * (halfLogarithm near digits : ℝ) -
      2 ^ count * exactLogarithm near digits| ≤ 2 ^ (count + 1) * (4 * digits + 2) := by
    have product : 2 ^ (count + 1) * (halfLogarithm near digits : ℝ) -
        2 ^ count * exactLogarithm near digits =
        2 ^ (count + 1) * (halfLogarithm near digits - exactLogarithm near digits / 2) := by ring
    rw [product, abs_mul, abs_of_pos (by positivity)]
    exact mul_le_mul_of_nonneg_left series (by positivity)
  rw [computed]
  calc |2 ^ (count + 1) * (halfLogarithm near digits : ℝ) - exactLogarithm y digits|
      ≤ 2 ^ (count + 1) * (4 * digits + 2) + (2 ^ (count + 1) - 2) :=
        (abs_sub_le _ _ _).trans (add_le_add doubled roots)
    _ ≤ 2 ^ (count + 1) * (4 * digits + 3) := by linarith
    _ ≤ 64 * (4 * digits + 3) :=
        mul_le_mul_of_nonneg_right (doublings.trans (by norm_num)) (by positivity)

theorem oddTail_zero (scale : ℕ) (ratio : ℤ) (k : ℕ) : oddTail scale ratio 0 k = 0 := by
  rw [oddTail]
  simp

/-- The logarithm of one is exact: no root is taken, and every term of the series is zero. -/
theorem logarithm_tenTo (digits : ℕ) : logarithm (tenTo digits) digits = 0 := by
  have near : NearOne digits (tenTo digits) := by simp [NearOne, distanceFromOne]
  have half : halfLogarithm (tenTo digits) digits = 0 := by simp [halfLogarithm, oddTail_zero]
  rw [logarithm, rootsUntilNear, if_pos near]
  simp only [half, zero_mul]

/-- The logarithm of ten, which has guard digits, is accurate to little more than one unit. -/
theorem abs_logarithmTen_sub_lt (digits : ℕ) :
    |(logarithmTen digits : ℝ) - 10 ^ digits * log 10| <
      1 + 64 * (4 * digits + 23) / 10 ^ 5 := by
  have least : tenTo (digits + logarithmGuard) ≤ tenTo (digits + logarithmGuard) * 10 :=
    Nat.le_mul_of_pos_right _ (by norm_num)
  have ten := abs_logarithm_sub_le least le_rfl
  have value : exactLogarithm (tenTo (digits + logarithmGuard) * 10) (digits + logarithmGuard) =
      10 ^ (digits + logarithmGuard) * log 10 := by
    rw [exactLogarithm, Nat.cast_mul, realCast_tenTo, Nat.cast_ofNat,
      mul_div_cancel_left₀ _ (by positivity)]
  rw [value] at ten
  have guarded := abs_tdiv_tenTo_sub_lt logarithmGuard ten
  have guard : (4 * ((digits + logarithmGuard : ℕ) : ℝ) + 3) = 4 * digits + 23 := by
    rw [logarithmGuard]
    push_cast
    ring
  rwa [guard] at guarded

end ScientificCalculator.FixedPoint
