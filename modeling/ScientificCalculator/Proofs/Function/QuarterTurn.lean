import ScientificCalculator.Proofs.Decimal.Monotone
import ScientificCalculator.Proofs.Function.Circular

/-!
Whole quarter turns have exact sines and cosines. The series are accurate to a few hundred units of
the last working digit; next to one that is far less than a unit of the last digit that is kept, and
next to zero it is dropped. So the result is exactly zero, one or minus one, as the true value, for
every whole number of quarter turns and however the angle is reduced.
-/

namespace ScientificCalculator.Decimal

section Working
variable {n : Int} {y : Decimal}

/-- A few units of the last working digit are dropped. -/
theorem ofWorking_eq_zero (few : |(n : ℝ)| ≤ 1000) : ofWorking n = zero := by
  have near : |(n : ℝ) - 10 ^ workingDigits * 0| ≤ 1000 := by rwa [mul_zero, sub_zero]
  have rounded := abs_ofScaled_sub_le (by decide) near (by norm_num) (by norm_num)
  have tiny : |(ofScaled n workingDigits).toRat| < 10 ^ (-60 : Int) := by
    rw [sub_zero, abs_zero, zero_div, zero_add, tenPow_workingDigits] at rounded
    have below := rounded.trans_lt (by norm_num : (1.01 * (1000 / 10 ^ 75) : ℝ) < 10 ^ (-60 : Int))
    apply (Rat.cast_lt (K := ℝ)).1
    push_cast
    exact below
  unfold ofWorking dropNegligible
  by_cases none : (ofScaled n workingDigits).IsZero
  · rw [if_neg (fun negligible => negligible.1 none)]
    exact eq_zero_of_isZero (canonical_ofScaled n workingDigits) none
  · have place := firstPlace_lt_of_abs_lt none tiny
    rw [firstPlace] at place
    have negligible : (ofScaled n workingDigits).leadingOrder < leastResultOrder := by
      rw [leadingOrder, saturate, leastExponent, leastResultOrder]
      omega
    rw [if_pos ⟨none, negligible⟩]

/-- A few units away from one or minus one, the result is rounded to that. -/
theorem ofWorking_eq_of_unit (unit : y = one ∨ y = -one)
    (near : |(n : ℝ) - 10 ^ workingDigits * (y.toRat : ℝ)| ≤ 1000) : ofWorking n = y := by
  have facts : y.Held ∧ y.mantissa.natAbs = 1 ∧ y.exponent = 0 := by
    rcases unit with rfl | rfl
    · exact ⟨held_of_written (by decide), rfl, rfl⟩
    · exact ⟨held_of_written (by decide), rfl, rfl⟩
  obtain ⟨held, size, exponent⟩ := facts
  have nonzero : y.mantissa ≠ 0 := by omega
  have digits : digitCount y.mantissa.natAbs = 1 := by
    rw [size]
    exact digitCount_of_lt (by decide)
  have place : y.firstPlace = 0 := by
    rw [firstPlace, digits, exponent]
    rfl
  have kept : y.dropNegligible = y := by
    apply if_neg
    rw [leadingOrder, digits, exponent]
    exact fun negligible => absurd negligible.2 (by decide)
  have near' : |(n : ℚ) - 10 ^ workingDigits * y.toRat| ≤ 1000 := by exact_mod_cast near
  have close : (1000 : ℚ) ≤ 10 ^ workingDigits * 10 ^ (y.firstPlace - 1 - precision) := by
    rw [place]
    norm_num [workingDigits, precision]
  rw [ofWorking, ofScaled_eq_of_near held nonzero (by decide) (near'.trans close), kept]

end Working

section Quarters
variable {quarters : Int}

/-- The sine of a whole number of quarter turns. -/
def quarterSine (quarters : Int) : Decimal :=
  if quarters % 4 = 1 then one else if quarters % 4 = 3 then -one else zero

theorem quarterSine_of_even (even : Even quarters) : quarterSine quarters = zero := by
  have parity := Int.even_iff.1 even
  rw [quarterSine, if_neg (by omega), if_neg (by omega)]

theorem quarterSine_of_odd (odd : Odd quarters) :
    quarterSine quarters = one ∨ quarterSine quarters = -one := by
  have parity := Int.odd_iff.1 odd
  by_cases first : quarters % 4 = 1
  · exact .inl (if_pos first)
  · right
    rw [quarterSine, if_neg first, if_pos (by omega)]

theorem quarterSine_cases (quarters : Int) :
    quarterSine quarters = zero ∨ quarterSine quarters = one ∨ quarterSine quarters = -one := by
  rcases Int.even_or_odd quarters with even | odd
  · exact .inl (quarterSine_of_even even)
  · exact .inr (quarterSine_of_odd odd)

theorem toRat_quarterSine (quarters : Int) :
    ((quarterSine quarters).toRat : ℝ) = Real.sin (quarters * (Real.pi / 2)) := by
  obtain ⟨turns, rest, count, low, high⟩ :
      ∃ turns rest : Int, quarters = rest + 4 * turns ∧ 0 ≤ rest ∧ rest < 4 :=
    ⟨quarters / 4, quarters % 4, by omega, by omega, by omega⟩
  have periodic : Real.sin (quarters * (Real.pi / 2)) = Real.sin (rest * (Real.pi / 2)) := by
    have angle : (quarters : ℝ) * (Real.pi / 2) = rest * (Real.pi / 2) + turns * (2 * Real.pi) := by
      rw [count]
      push_cast
      ring
    rw [angle, Real.sin_add_int_mul_two_pi]
  have same : quarterSine quarters = quarterSine rest := by
    rw [quarterSine, quarterSine, count, Int.add_mul_emod_self_left]
  rw [periodic, same]
  obtain rfl | rfl | rfl | rfl : rest = 0 ∨ rest = 1 ∨ rest = 2 ∨ rest = 3 := by omega
  · rw [Int.cast_zero, zero_mul, Real.sin_zero]
    exact_mod_cast toRat_zero
  · rw [Int.cast_one, one_mul, Real.sin_pi_div_two]
    exact_mod_cast toRat_one
  · have half : ((2 : Int) : ℝ) * (Real.pi / 2) = Real.pi := by
      push_cast
      ring
    rw [half, Real.sin_pi]
    exact_mod_cast toRat_zero
  · have opposite : ((3 : Int) : ℝ) * (Real.pi / 2) = Real.pi / 2 + Real.pi := by
      push_cast
      ring
    have value : (-one).toRat = -1 := by rw [toRat_neg, toRat_one]
    rw [opposite, Real.sin_add_pi, Real.sin_pi_div_two]
    exact_mod_cast value

/-- The cosine is the sine of a quarter turn more. -/
theorem toRat_quarterSine_succ (quarters : Int) :
    ((quarterSine (quarters + 1)).toRat : ℝ) = Real.cos (quarters * (Real.pi / 2)) := by
  have angle : ((quarters + 1 : Int) : ℝ) * (Real.pi / 2) =
      quarters * (Real.pi / 2) + Real.pi / 2 := by
    push_cast
    ring
  rw [toRat_quarterSine, angle, Real.sin_add_pi_div_two]

/-- A working number close to the sine of whole quarter turns makes exactly that. -/
theorem ofWorking_eq_quarterSine {n : Int}
    (near : |(n : ℝ) - 10 ^ workingDigits * ((quarterSine quarters).toRat : ℝ)| ≤ 1000) :
    ofWorking n = quarterSine quarters := by
  rcases Int.even_or_odd quarters with even | odd
  · have none := quarterSine_of_even even
    rw [none, toRat_zero, Rat.cast_zero, mul_zero, sub_zero] at near
    rw [none, ofWorking_eq_zero near]
  · exact ofWorking_eq_of_unit (quarterSine_of_odd odd) near

/-- After whole half turns the tangent is a few units over a number close to one. -/
theorem ofWorking_tangent_eq_zero {sine cosine : Int} (even : Even quarters)
    (low : |(sine : ℝ) - 10 ^ workingDigits * ((quarterSine quarters).toRat : ℝ)| ≤ 370)
    (high : |(cosine : ℝ) - 10 ^ workingDigits * ((quarterSine (quarters + 1)).toRat : ℝ)| ≤ 370) :
    ofWorking ((sine * tenTo workingDigits).tdiv cosine) = zero := by
  have power : (0 : ℝ) < 10 ^ workingDigits := by positivity
  have unit : |((quarterSine (quarters + 1)).toRat : ℝ)| = 1 := by
    rcases quarterSine_of_odd even.add_one with same | same
    · rw [same, toRat_one]
      norm_num
    · rw [same, toRat_neg, toRat_one]
      norm_num
  have large : 10 ^ workingDigits / 2 ≤ |(cosine : ℝ)| := by
    have triangle := abs_sub_abs_le_abs_sub
      (10 ^ workingDigits * ((quarterSine (quarters + 1)).toRat : ℝ)) cosine
    rw [abs_mul, abs_of_pos power, unit, abs_sub_comm] at triangle
    have margin : (740 : ℝ) ≤ 10 ^ workingDigits := by norm_num [tenPow_workingDigits]
    linarith
  rw [quarterSine_of_even even, toRat_zero, Rat.cast_zero, mul_zero, sub_zero] at low
  apply ofWorking_eq_zero
  refine (abs_tdiv_le_div_abs _ _).trans ?_
  rw [div_le_iff₀ (by linarith)]
  push_cast
  rw [realCast_tenTo, abs_mul, abs_of_pos power]
  linarith [mul_le_mul_of_nonneg_right low power.le]

end Quarters

section Functions
variable {x : Decimal} {quarters : Int}

/-- Whole half turns are the even numbers of quarter turns. -/
theorem exists_half_turns_iff (value : x.toRat = 90 * quarters) :
    (∃ halves : Int, x.toRat = 180 * halves) ↔ Even quarters := by
  rw [value]
  constructor
  · rintro ⟨halves, same⟩
    have double : quarters = halves + halves := by
      have double' : (quarters : ℚ) = halves + halves := by linarith
      exact_mod_cast double'
    exact ⟨halves, double⟩
  · rintro ⟨halves, rfl⟩
    refine ⟨halves, ?_⟩
    push_cast
    ring

theorem toRadians_of_quarters (value : x.toRat = 90 * quarters) :
    AngleUnit.degrees.toRadians x.toRat = quarters * (Real.pi / 2) := by
  rw [AngleUnit.toRadians, value]
  push_cast
  ring

/-- Sine and cosine of an angle in degrees that is a whole number of quarter turns are exact: zero,
one or minus one. The tangent is zero after whole half turns and undefined otherwise. -/
theorem quarter_turns_exact (held : x.Held) (inRange : x.order ≤ 1000)
    (value : x.toRat = 90 * quarters) :
    (∃ s, sin .degrees x = .ok s ∧ (s = zero ∨ s = one ∨ s = -one) ∧
      (s.toRat : ℝ) = Real.sin (AngleUnit.degrees.toRadians x.toRat)) ∧
    (∃ c, cos .degrees x = .ok c ∧ (c = zero ∨ c = one ∨ c = -one) ∧
      (c.toRat : ℝ) = Real.cos (AngleUnit.degrees.toRadians x.toRat)) ∧
    ((∃ halves : Int, x.toRat = 180 * halves) → tan .degrees x = .ok zero) ∧
    ((¬ ∃ halves : Int, x.toRat = 180 * halves) →
      tan .degrees x = .error (.domain .undefinedTangent)) := by
  obtain ⟨angle, found, reduced⟩ := reducedAngle_eq_ok held inRange .degrees
  rw [toRadians_of_quarters value] at reduced ⊢
  have sine := abs_sine_sub_le_of_reduced reduced
  have cosine := abs_cosine_sub_le_of_reduced reduced
  rw [← toRat_quarterSine] at sine
  rw [← toRat_quarterSine_succ] at cosine
  have exact_sine := ofWorking_eq_quarterSine (sine.trans (by norm_num))
  have exact_cosine := ofWorking_eq_quarterSine (cosine.trans (by norm_num))
  rw [sin_eq_ok found, cos_eq_ok found, tan_eq found, exact_sine, exact_cosine,
    exists_half_turns_iff value]
  refine ⟨⟨_, rfl, quarterSine_cases _, toRat_quarterSine _⟩,
    ⟨_, rfl, quarterSine_cases _, toRat_quarterSine_succ _⟩, ?_, ?_⟩
  · intro even
    have defined : ¬ (quarterSine (quarters + 1)).IsZero := by
      rcases quarterSine_of_odd even.add_one with same | same
      · rw [same]
        decide
      · rw [same]
        decide
    rw [if_neg defined, ofWorking_tangent_eq_zero even sine cosine]
  · intro odd
    rw [quarterSine_of_even (Int.not_even_iff_odd.1 odd).add_one]
    rfl

/-- A negative angle of more than two turns with the sine one, where the tangent has a pole, and an
angle of the greatest order with the tangent zero. -/
theorem quarter_turns_exact_extreme :
    (∃ s, sin .degrees ⟨-99, 1⟩ = .ok s ∧ (s = zero ∨ s = one ∨ s = -one) ∧
      (s.toRat : ℝ) = Real.sin (AngleUnit.degrees.toRadians (toRat ⟨-99, 1⟩))) ∧
    tan .degrees ⟨-99, 1⟩ = .error (.domain .undefinedTangent) ∧
    tan .degrees ⟨9, 1000⟩ = .ok zero := by
  have negative : Held ⟨-99, 1⟩ := held_of_written (by decide)
  have inRange : order ⟨-99, 1⟩ ≤ 1000 := (order_of_written 1 (by decide)).trans_le (by decide)
  have large : Held ⟨9, 1000⟩ := held_of_written (by decide)
  have inRange' : order ⟨9, 1000⟩ ≤ 1000 := (order_of_written 0 (by decide)).trans_le (by decide)
  have value : toRat ⟨-99, 1⟩ = 90 * (-11 : Int) := by
    rw [toRat]
    norm_num
  have value' : toRat ⟨9, 1000⟩ = 90 * (10 ^ 999 : Int) := by
    have power : (10 : ℚ) ^ (1000 : Int) = 10 * 10 ^ 999 :=
      (zpow_natCast (10 : ℚ) (1 + 999)).trans ((pow_add 10 1 999).trans (by rw [pow_one]))
    rw [toRat, power, Int.cast_pow, Int.cast_ofNat, Int.cast_ofNat]
    generalize (10 : ℚ) ^ 999 = p
    ring
  obtain ⟨sines, -, -, poles⟩ := quarter_turns_exact negative inRange value
  obtain ⟨-, -, zeros, -⟩ := quarter_turns_exact large inRange' value'
  refine ⟨sines, poles ?_, zeros ?_⟩
  · rw [exists_half_turns_iff value]
    decide
  · rw [exists_half_turns_iff value']
    exact (by decide : Even (10 : Int)).pow_of_ne_zero (by decide)

end Functions

end ScientificCalculator.Decimal
