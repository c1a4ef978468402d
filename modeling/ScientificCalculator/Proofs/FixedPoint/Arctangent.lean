import ScientificCalculator.FixedPoint.Arctangent
import ScientificCalculator.Proofs.FixedPoint.Logarithm
import ScientificCalculator.Proofs.FixedPoint.Pi

/-!
The fixed-point arctangent is accurate to a few hundred units for each digit, whatever its argument.
At most seven halvings bring a tangent of one down to a hundredth; each of them is truncated by less
than a unit, and the doublings at the end multiply what the series and the halvings have lost. Above
one, the inverse loses one unit more. The series never falls below zero, so the arctangent of a
number from zero to one is not negative.
-/

namespace ScientificCalculator.FixedPoint

open Real

section Angles
variable {a b : ℝ}

theorem abs_arctan_sub_arctan_le (a b : ℝ) : |arctan a - arctan b| ≤ |a - b| := by
  have slope : ∀ c ∈ Set.univ, ‖deriv arctan c‖ ≤ 1 := by
    intro c _
    have least : 1 ≤ 1 + c ^ 2 := le_add_of_nonneg_right (sq_nonneg c)
    rw [Real.deriv_arctan, norm_eq_abs, abs_of_pos (by positivity), div_le_one (by positivity)]
    exact least
  have bound := convex_univ.norm_image_sub_le_of_norm_deriv_le
    (fun c _ => differentiableAt_arctan c) slope (Set.mem_univ b) (Set.mem_univ a)
  simpa using bound

/-- The tangent of half the angle. -/
noncomputable def halfTangent (a : ℝ) : ℝ := a / (1 + √(1 + a ^ 2))

theorem two_mul_arctan_halfTangent (natural : 0 ≤ a) :
    2 * arctan (halfTangent a) = arctan a := by
  have square : √(1 + a ^ 2) ^ 2 = 1 + a ^ 2 := sq_sqrt (by positivity)
  have least : a < 1 + √(1 + a ^ 2) := by
    have root : a ≤ √(1 + a ^ 2) := le_sqrt_of_sq_le (by linarith)
    linarith
  have below : halfTangent a < 1 := (div_lt_one (by linarith)).2 least
  have above : -1 < halfTangent a :=
    neg_one_lt_zero.trans_le (div_nonneg natural (by linarith))
  rw [two_mul_arctan above below, halfTangent]
  congr 1
  generalize √(1 + a ^ 2) = root at square least
  have positive : 0 < 1 + root := natural.trans_lt least
  have double : 1 - (a / (1 + root)) ^ 2 = 2 / (1 + root) := by
    field_simp
    linear_combination square
  rw [double]
  field_simp

end Angles

/-- The arctangent in units of the last digit. -/
noncomputable def exactArctangent (x : ℝ) (digits : ℕ) : ℝ :=
  tenTo digits * arctan (x / tenTo digits)

theorem exactArctangent_eq (x : ℝ) (digits : ℕ) :
    exactArctangent x digits = 10 ^ digits * arctan (x / 10 ^ digits) := by
  rw [exactArctangent, realCast_tenTo]

theorem exactArctangent_neg (x : ℝ) (digits : ℕ) :
    exactArctangent (-x) digits = -exactArctangent x digits := by
  rw [exactArctangent, exactArctangent, neg_div, arctan_neg, mul_neg]

theorem abs_exactArctangent_sub_le (a b : ℝ) (digits : ℕ) :
    |exactArctangent a digits - exactArctangent b digits| ≤ |a - b| := by
  have power : (0 : ℝ) < 10 ^ digits := by positivity
  rw [exactArctangent_eq, exactArctangent_eq, abs_scaled_sub]
  calc (10 : ℝ) ^ digits * |arctan (a / 10 ^ digits) - arctan (b / 10 ^ digits)|
      ≤ 10 ^ digits * |a / 10 ^ digits - b / 10 ^ digits| :=
        mul_le_mul_of_nonneg_left (abs_arctan_sub_arctan_le _ _) power.le
    _ = |a - b| := by
        rw [← abs_scaled_sub, mul_div_cancel₀ _ power.ne', mul_div_cancel₀ _ power.ne']

section Halvings
variable {x digits : ℕ}

/-- The truncated root is at most two units below the hypotenuse over the scale and the number. -/
theorem halfAngle_root_bounds (x digits : ℕ) :
    √((10 ^ digits) ^ 2 + x ^ 2) - 2 ≤
        squareRoot (tenTo digits + x * x / tenTo digits) digits ∧
      squareRoot (tenTo digits + x * x / tenTo digits) digits ≤
        √((10 ^ digits) ^ 2 + (x : ℝ) ^ 2) := by
  have unit : (1 : ℝ) ≤ 10 ^ digits := one_le_pow₀ (by norm_num)
  have hypotenuse : √((10 ^ digits) ^ 2 + (x : ℝ) ^ 2) ^ 2 = (10 ^ digits) ^ 2 + (x : ℝ) ^ 2 :=
    sq_sqrt (by positivity)
  have longer : (10 : ℝ) ^ digits ≤ √((10 ^ digits) ^ 2 + (x : ℝ) ^ 2) :=
    le_sqrt_of_sq_le (le_add_of_nonneg_right (sq_nonneg _))
  have quotient : x * x / tenTo digits * tenTo digits ≤ x * x := Nat.div_mul_le_self _ _
  have remainder : x * x < x * x / tenTo digits * tenTo digits + tenTo digits :=
    Nat.lt_div_mul_add (tenTo_pos digits)
  obtain ⟨low, high⟩ := squareRoot_bounds (tenTo digits + x * x / tenTo digits) digits
  rw [Nat.cast_add, realCast_tenTo] at low high
  generalize squareRoot (tenTo digits + x * x / tenTo digits) digits = root at low high ⊢
  generalize x * x / tenTo digits = square at quotient remainder low high
  have quotient' : (square : ℝ) * 10 ^ digits ≤ x ^ 2 := by
    rw [← realCast_tenTo, sq]
    exact_mod_cast quotient
  have remainder' : (x : ℝ) ^ 2 ≤ square * 10 ^ digits + 10 ^ digits := by
    rw [← realCast_tenTo, sq]
    exact_mod_cast remainder.le
  constructor
  · have below : (√((10 ^ digits) ^ 2 + (x : ℝ) ^ 2) - 1) ^ 2 ≤ (root + 1) ^ 2 := by linarith
    have bound := abs_le_of_sq_le_sq below (by positivity)
    linarith [le_abs_self (√((10 ^ digits) ^ 2 + (x : ℝ) ^ 2) - 1)]
  · exact le_sqrt_of_sq_le (by linarith)

/-- The tangent is halved up to one unit. -/
theorem abs_halfAngle_sub_le (small : x ≤ tenTo digits) :
    |(halfAngle x digits : ℝ) - 10 ^ digits * halfTangent (x / 10 ^ digits)| ≤ 1 := by
  have power : (0 : ℝ) < 10 ^ digits := by positivity
  have size : (x : ℝ) ≤ 10 ^ digits := by
    rw [← realCast_tenTo]
    exact_mod_cast small
  have natural : (0 : ℝ) ≤ x := x.cast_nonneg
  have exactly : 10 ^ digits * halfTangent (x / 10 ^ digits) =
      x * 10 ^ digits / (10 ^ digits + √((10 ^ digits) ^ 2 + x ^ 2)) := by
    have root : √((10 ^ digits) ^ 2 + (x : ℝ) ^ 2) =
        10 ^ digits * √(1 + (x / 10 ^ digits) ^ 2) := by
      rw [← sqrt_sq power.le, ← sqrt_mul (sq_nonneg _), sqrt_sq power.le]
      congr 1
      field_simp
    rw [halfTangent, root]
    field_simp
  obtain ⟨low, high⟩ := halfAngle_root_bounds x digits
  have longer : (10 : ℝ) ^ digits ≤ √((10 ^ digits) ^ 2 + (x : ℝ) ^ 2) :=
    le_sqrt_of_sq_le (le_add_of_nonneg_right (sq_nonneg _))
  rw [halfAngle, exactly]
  generalize squareRoot (tenTo digits + x * x / tenTo digits) digits = root at low high ⊢
  generalize √((10 ^ digits) ^ 2 + (x : ℝ) ^ 2) = hypotenuse at low high longer ⊢
  have truncated := abs_natDiv_sub_le (x * tenTo digits) (tenTo digits + root)
  have shorter := Nat.cast_div_le (α := ℝ) (m := x * tenTo digits) (n := tenTo digits + root)
  rw [Nat.cast_mul, Nat.cast_add, realCast_tenTo] at truncated shorter
  have lengthened : x * 10 ^ digits / (10 ^ digits + hypotenuse) ≤
      x * 10 ^ digits / (10 ^ digits + root) := by
    gcongr
  have lengthened' : x * 10 ^ digits / (10 ^ digits + root) ≤
      x * 10 ^ digits / (10 ^ digits + hypotenuse) + 1 := by
    have wide : 0 < 10 ^ digits + hypotenuse := by linarith
    have lost := mul_le_mul size (by linarith : hypotenuse - root ≤ 2) (by linarith) power.le
    have room := mul_le_mul (by linarith : 2 * 10 ^ digits ≤ 10 ^ digits + hypotenuse)
      (le_add_of_nonneg_right root.cast_nonneg : (10 : ℝ) ^ digits ≤ 10 ^ digits + root) power.le
      wide.le
    rw [div_add_one wide.ne', div_le_div_iff₀ (by positivity) wide]
    linarith [mul_le_mul_of_nonneg_right lost power.le]
  rw [abs_le] at truncated ⊢
  constructor <;> linarith

theorem abs_exactArctangent_halfAngle_le (small : x ≤ tenTo digits) :
    |2 * exactArctangent (halfAngle x digits) digits - exactArctangent x digits| ≤ 2 := by
  have power : (0 : ℝ) < 10 ^ digits := by positivity
  have halved : exactArctangent x digits =
      2 * exactArctangent (10 ^ digits * halfTangent (x / 10 ^ digits)) digits := by
    rw [exactArctangent_eq, exactArctangent_eq, mul_div_cancel_left₀ _ power.ne', mul_left_comm,
      two_mul_arctan_halfTangent (by positivity)]
  rw [halved, ← mul_sub, abs_mul, abs_two]
  linarith [abs_exactArctangent_sub_le (halfAngle x digits)
    (10 ^ digits * halfTangent (x / 10 ^ digits)) digits, abs_halfAngle_sub_le small]

/-- The tangent of half an angle is at most half the tangent. -/
theorem two_mul_halfAngle_le (x digits : ℕ) : 2 * halfAngle x digits ≤ x := by
  have scale := tenTo_pos digits
  have root := le_squareRoot (Nat.le_add_right (tenTo digits) (x * x / tenTo digits))
  have wide : 2 * tenTo digits ≤
      tenTo digits + squareRoot (tenTo digits + x * x / tenTo digits) digits := by omega
  rw [halfAngle]
  calc 2 * (x * tenTo digits /
        (tenTo digits + squareRoot (tenTo digits + x * x / tenTo digits) digits))
      ≤ 2 * (x * tenTo digits / (2 * tenTo digits)) :=
        Nat.mul_le_mul_left 2 (Nat.div_le_div_left wide (by omega))
    _ = 2 * (x / 2) := by rw [Nat.mul_div_mul_right _ _ scale]
    _ ≤ x := Nat.mul_div_le x 2

/-- After few enough halvings the tangent is at most a hundredth, and its angle times a power of two
is that of the first one. -/
theorem halveAngle_spec {n : ℕ} (taken : ℕ) (small : x ≤ tenTo digits)
    (reach : x * 100 ≤ 2 ^ n * tenTo digits) :
    ∃ near count, halveAngle digits x taken = (near, taken + count) ∧ count ≤ n ∧
      near * 100 ≤ tenTo digits ∧
      |2 ^ count * exactArctangent near digits - exactArctangent x digits| ≤
        2 ^ (count + 1) - 2 := by
  induction n generalizing x taken with
  | zero =>
    have stops : x * 100 ≤ tenTo digits := by rwa [pow_zero, one_mul] at reach
    exact ⟨x, 0, by rw [halveAngle, if_pos stops]; rfl, le_rfl, stops, by norm_num⟩
  | succ n ih =>
    by_cases stops : x * 100 ≤ tenTo digits
    · exact ⟨x, 0, by rw [halveAngle, if_pos stops]; rfl, Nat.zero_le _, stops, by norm_num⟩
    · have half := two_mul_halfAngle_le x digits
      have halved := abs_exactArctangent_halfAngle_le small
      obtain ⟨near, count, found, few, stops', error⟩ :=
        ih (taken + 1) (by omega : halfAngle x digits ≤ tenTo digits)
          (by rw [pow_succ', mul_assoc] at reach; omega)
      refine ⟨near, count + 1, ?_, by omega, stops', ?_⟩
      · rw [halveAngle, if_neg stops, found, add_assoc, add_comm 1]
      · have double : 2 ^ (count + 1) * exactArctangent near digits -
            exactArctangent x digits =
            2 * (2 ^ count * exactArctangent near digits -
              exactArctangent (halfAngle x digits) digits) +
            (2 * exactArctangent (halfAngle x digits) digits - exactArctangent x digits) := by
          ring
        rw [double]
        refine (abs_add_le _ _).trans ?_
        rw [abs_mul, abs_two, pow_succ 2 (count + 1)]
        linarith

end Halvings

section Series
variable {x digits : ℕ}

/-- The terms of a series whose ratio is at most a tenth add up to less than its first power. -/
theorem abs_oddTail_le {scale : ℕ} {ratio : ℤ} (scaled : 0 < scale)
    (tenth : |(ratio : ℝ)| ≤ scale / 10) (power : ℤ) (k : ℕ) :
    |(oddTail scale ratio power k : ℝ)| ≤ |(power : ℝ)| := by
  have term_le (next : ℤ) (k : ℕ) :
      |((next.tdiv ((2 * k + 1 : ℕ) : ℤ) : ℤ) : ℝ)| ≤ |(next : ℝ)| := by
    refine (abs_tdiv_le next (2 * k + 1)).trans (div_le_self (abs_nonneg _) ?_)
    exact_mod_cast Nat.succ_le_succ (Nat.zero_le (2 * k))
  fun_induction oddTail scale ratio power k with
  | case1 power k next term last =>
    rw [Int.cast_zero, abs_zero]
    exact abs_nonneg _
  | case2 power k next term more shrinks ih =>
    have shorter : |(next : ℝ)| ≤ |(power : ℝ)| / 10 := abs_nextPower_le scaled tenth power
    rw [Int.cast_add]
    refine (abs_add_le _ _).trans ((add_le_add (term_le next k) ih).trans ?_)
    linarith [abs_nonneg (power : ℝ)]
  | case3 power k next term more grows =>
    have shorter : |(next : ℝ)| ≤ |(power : ℝ)| / 10 := abs_nextPower_le scaled tenth power
    exact (term_le next k).trans (shorter.trans (by linarith [abs_nonneg (power : ℝ)]))

section Ratio
variable (small : x * 100 ≤ tenTo digits)
include small

theorem cast_le_hundredth : (x : ℝ) ≤ 10 ^ digits / 100 := by
  have hundred : ((x * 100 : ℕ) : ℝ) ≤ (tenTo digits : ℕ) := by exact_mod_cast small
  rw [Nat.cast_mul, realCast_tenTo] at hundred
  push_cast at hundred
  linarith

theorem abs_ratio_le_tenth :
    |((-(x * x / tenTo digits : ℕ) : ℤ) : ℝ)| ≤ (tenTo digits : ℕ) / 10 := by
  have power : (0 : ℝ) < 10 ^ digits := by positivity
  have size := cast_le_hundredth small
  have quotient := Nat.cast_div_le (α := ℝ) (m := x * x) (n := tenTo digits)
  rw [Int.cast_neg, abs_neg, Int.cast_natCast, Nat.abs_cast]
  rw [Nat.cast_mul, realCast_tenTo] at quotient
  rw [realCast_tenTo]
  refine quotient.trans ?_
  rw [div_le_iff₀ power]
  nlinarith [x.cast_nonneg (α := ℝ)]

theorem smallArctangent_nonneg : 0 ≤ smallArctangent x digits := by
  have rest := abs_oddTail_le (tenTo_pos digits) (abs_ratio_le_tenth small) x 1
  rw [Int.cast_natCast, Nat.abs_cast] at rest
  have sum : (0 : ℝ) ≤ x + oddTail (tenTo digits) (-(x * x / tenTo digits : ℕ)) x 1 := by
    linarith [neg_le_of_abs_le rest]
  rw [smallArctangent]
  exact_mod_cast sum

/-- The series gives the arctangent of at most a hundredth. -/
theorem abs_smallArctangent_sub_le :
    |(smallArctangent x digits : ℝ) - exactArctangent x digits| ≤ 4 * digits := by
  have power : (0 : ℝ) < 10 ^ digits := by positivity
  have size := cast_le_hundredth small
  have natural : (0 : ℝ) ≤ x := x.cast_nonneg
  have unit : (x : ℝ) / 10 ^ digits ≤ 1 / 100 := by
    rw [div_le_iff₀ power]
    linarith
  have inside : |(x : ℝ) / 10 ^ digits| < 1 := by
    rw [abs_of_nonneg (by positivity)]
    exact unit.trans_lt (by norm_num)
  have near : |((-(x * x / tenTo digits : ℕ) : ℤ) : ℝ) -
      tenTo digits * -(x / 10 ^ digits) ^ 2| ≤ 1 := by
    have truncated := abs_natDiv_sub_le (x * x) (tenTo digits)
    have product : ((x * x : ℕ) : ℝ) / (tenTo digits : ℕ) =
        (tenTo digits : ℕ) * (x / 10 ^ digits) ^ 2 := by
      rw [Nat.cast_mul, realCast_tenTo]
      field_simp
    rw [product] at truncated
    rw [Int.cast_neg, Int.cast_natCast, mul_neg, neg_sub_neg, abs_sub_comm]
    exact truncated
  have half : |-((x : ℝ) / 10 ^ digits) ^ 2| ≤ 1 / 2 := by
    rw [abs_neg, abs_of_nonneg (sq_nonneg _)]
    exact (pow_le_pow_left₀ (by positivity) unit 2).trans (by norm_num)
  have first : |((x : ℤ) : ℝ)| = x := by rw [Int.cast_natCast, Nat.abs_cast]
  have below : |((x : ℤ) : ℝ)| < 10 ^ digits := by
    rw [first]
    linarith
  have series := abs_add_oddTail_sub_le (tenTo_pos digits) (abs_ratio_le_tenth small) near half
    (by rw [realCast_tenTo]; exact below.le) below
  have value : ((x : ℤ) : ℝ) * oddSeries (-(x / 10 ^ digits) ^ 2) 0 = exactArctangent x digits := by
    rw [exactArctangent_eq, arctan_eq_oddSeries inside, ← mul_assoc, mul_div_cancel₀ _ power.ne',
      Int.cast_natCast]
  rwa [value] at series

end Ratio

end Series

section Whole
variable {x digits : ℕ}

/-- The arctangent of a number from zero to one. -/
theorem unitArctangent_spec (small : x ≤ tenTo digits) :
    0 ≤ unitArctangent x digits ∧
      |(unitArctangent x digits : ℝ) - exactArctangent x digits| ≤ 128 * (4 * digits + 2) := by
  obtain ⟨near, count, found, few, stops, halvings⟩ :=
    halveAngle_spec (n := 7) 0 small (by omega)
  have series := abs_smallArctangent_sub_le stops
  have computed : unitArctangent x digits = smallArctangent near digits * (2 ^ count : ℕ) := by
    rw [unitArctangent, found, Nat.zero_add]
    rfl
  rw [computed]
  constructor
  · exact mul_nonneg (smallArctangent_nonneg stops) (Int.natCast_nonneg _)
  · have doublings : (2 : ℝ) ^ count ≤ 2 ^ 7 := pow_le_pow_right₀ one_le_two few
    have doubled : |2 ^ count * (smallArctangent near digits : ℝ) -
        2 ^ count * exactArctangent near digits| ≤ 2 ^ count * (4 * digits) := by
      rw [← mul_sub, abs_mul, abs_of_pos (by positivity)]
      exact mul_le_mul_of_nonneg_left series (by positivity)
    push_cast
    rw [mul_comm]
    calc |2 ^ count * (smallArctangent near digits : ℝ) - exactArctangent x digits|
        ≤ 2 ^ count * (4 * digits) + (2 ^ (count + 1) - 2) :=
          (abs_sub_le _ _ _).trans (add_le_add doubled halvings)
      _ ≤ 2 ^ count * (4 * digits + 2) := by linarith [pow_succ (2 : ℝ) count]
      _ ≤ 128 * (4 * digits + 2) :=
          mul_le_mul_of_nonneg_right (doublings.trans (by norm_num)) (by positivity)

/-- The truncated inverse has the complementary angle, up to one unit. -/
theorem abs_exactArctangent_inverse_sub_le (pos : 0 < x) :
    |exactArctangent (tenTo digits * tenTo digits / x : ℕ) digits -
      (10 ^ digits * (π / 2) - exactArctangent x digits)| ≤ 1 := by
  have power : (0 : ℝ) < 10 ^ digits := by positivity
  have positive : (0 : ℝ) < x / 10 ^ digits := div_pos (by exact_mod_cast pos) power
  have truncated := abs_natDiv_sub_le (tenTo digits * tenTo digits) x
  have inverse : ((tenTo digits * tenTo digits : ℕ) : ℝ) / x =
      10 ^ digits * ((x : ℝ) / 10 ^ digits)⁻¹ := by
    rw [Nat.cast_mul, realCast_tenTo, inv_div]
    ring
  have complement : exactArctangent (10 ^ digits * ((x : ℝ) / 10 ^ digits)⁻¹) digits =
      10 ^ digits * (π / 2) - exactArctangent x digits := by
    rw [exactArctangent_eq, exactArctangent_eq, mul_div_cancel_left₀ _ power.ne',
      arctan_inv_of_pos positive, mul_sub]
  rw [← complement, ← inverse]
  exact (abs_exactArctangent_sub_le _ _ digits).trans truncated

theorem abs_halfPi_sub_le (digits : ℕ) :
    |(((pi digits).tdiv 2 : ℤ) : ℝ) - 10 ^ digits * (π / 2)| ≤ digits + 13 := by
  have truncated := abs_tdiv_sub_lt (pi digits) two_pos
  have circle := abs_pi_sub_lt digits
  have half : |(pi digits : ℝ) / 2 - 10 ^ digits * (π / 2)| ≤ digits + 12 := by
    have apart : (pi digits : ℝ) / 2 - 10 ^ digits * (π / 2) =
        (pi digits - 10 ^ digits * π) / 2 := by
      ring
    rw [apart, abs_div, abs_two]
    linarith [digits.cast_nonneg (α := ℝ)]
  push_cast at truncated
  exact (abs_sub_le _ _ _).trans ((add_le_add truncated.le half).trans (by linarith))

theorem abs_positiveArctangent_sub_le (x digits : ℕ) :
    |(positiveArctangent x digits : ℝ) - exactArctangent x digits| ≤ 128 * (5 * digits + 3) := by
  have natural : (0 : ℝ) ≤ digits := digits.cast_nonneg
  rw [positiveArctangent]
  split
  · rename_i above
    have inside : tenTo digits * tenTo digits / x ≤ tenTo digits :=
      Nat.div_le_of_le_mul (Nat.mul_le_mul_right _ above.le)
    obtain ⟨-, unit⟩ := unitArctangent_spec inside
    have inverse := @abs_exactArctangent_inverse_sub_le x digits ((tenTo_pos digits).trans above)
    have quarter := abs_halfPi_sub_le digits
    push_cast
    rw [abs_le] at unit inverse quarter ⊢
    constructor <;> linarith
  · rename_i below
    obtain ⟨-, unit⟩ := unitArctangent_spec (not_lt.1 below)
    exact unit.trans (by linarith)

/-- The arctangent of any number is accurate to a few hundred units for each digit. -/
theorem abs_arctangent_sub_le (x : ℤ) (digits : ℕ) :
    |(arctangent x digits : ℝ) - exactArctangent x digits| ≤ 128 * (5 * digits + 3) := by
  have accurate := abs_positiveArctangent_sub_le x.natAbs digits
  rw [arctangent]
  split
  · rename_i negative
    have opposite : (x : ℝ) = -(x.natAbs : ℕ) := by
      rw [← Int.cast_natCast, ← Int.cast_neg, Int.ofNat_natAbs_of_nonpos negative.le, Int.neg_neg]
    rw [opposite, exactArctangent_neg, Int.cast_neg, neg_sub_neg, abs_sub_comm]
    exact accurate
  · rename_i positive
    have same : (x : ℝ) = (x.natAbs : ℕ) := by
      rw [← Int.cast_natCast, Int.natAbs_of_nonneg (not_lt.1 positive)]
    rwa [same]

theorem unitArctangent_zero (digits : ℕ) : unitArctangent 0 digits = 0 := by
  have stops : halveAngle digits 0 0 = (0, 0) := by simp [halveAngle]
  have none : smallArctangent 0 digits = 0 := by simp [smallArctangent, oddTail]
  simp [unitArctangent, stops, none]

/-- The arctangent of the opposite number is the opposite one, also at zero. -/
theorem arctangent_opposite (x : ℤ) (digits : ℕ) :
    arctangent (-x) digits = -arctangent x digits := by
  by_cases zero : x = 0
  · simp [zero, arctangent, positiveArctangent, unitArctangent_zero]
  · exact arctangent_neg digits zero

end Whole

end ScientificCalculator.FixedPoint
