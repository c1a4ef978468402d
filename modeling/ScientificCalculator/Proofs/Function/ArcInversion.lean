import ScientificCalculator.Proofs.Function.ArcRange

/-!
The sine undoes the arcsine and the cosine the arccosine. In radians at the working digits each
undoes the other up to the units that the kernels lose, at the ends as well as between them. What is
left is due to the results: the angle is rounded, or dropped if it is below `10 ^ -50`, and so are
its sine and cosine. The sine of an angle that was dropped is exactly zero and its cosine one, so the
two losses never add up.
-/

namespace ScientificCalculator.Decimal

open FixedPoint

variable {x r : Decimal} {unit : AngleUnit} {angle : Int}

/-- Whether it is dropped or rounded, a result is this close. -/
theorem Approximates.abs_sub_le {value : ℝ} (accurate : r.Approximates value) :
    |(r.toRat : ℝ) - value| ≤ 1.01 / 10 ^ 50 := by
  rcases accurate with ⟨rfl, small⟩ | close
  · rw [toRat_zero, Rat.cast_zero, zero_sub, abs_neg]
    exact small.trans_eq (by norm_num)
  · exact close.trans (by norm_num)

/-- A value that is zero or one is not dropped, or dropped without an error. -/
theorem Approximates.abs_sub_le_of_unit {value : ℝ} (accurate : r.Approximates value)
    (unit : value = 0 ∨ value = 1) : |(r.toRat : ℝ) - value| ≤ 1 / 10 ^ 59 := by
  rcases accurate with ⟨rfl, small⟩ | close
  · rcases unit with rfl | rfl
    · rw [toRat_zero, Rat.cast_zero, sub_zero, abs_zero]
      positivity
    · norm_num at small
  · exact close.trans_eq (by norm_num)

section Angles
variable (half : |angle| ≤ FixedPoint.pi workingDigits)
include half

/-- An angle of at most half a turn is admitted again in either unit. -/
theorem order_ofRadians_le (unit : AngleUnit) : (ofRadians unit angle).order ≤ 1000 := by
  have power : (0 : ℝ) < 10 ^ workingDigits := by positivity
  have size := abs_fromRadians_le half unit
  rw [ofRadians_eq]
  generalize unit.fromRadians angle = n at size ⊢
  have value : |(n : ℝ) / 10 ^ workingDigits| ≤ 180 := by
    rwa [abs_div, abs_of_pos power, div_le_iff₀ power]
  have rounded := abs_ofScaled_sub_div_le (size.trans (by linarith))
  have triangle := abs_sub_abs_le_abs_sub ((ofScaled n workingDigits).toRat : ℝ)
    (n / 10 ^ workingDigits)
  have below : |((ofScaled n workingDigits).toRat : ℝ)| < 10 ^ (3 : Int) := by
    norm_num at rounded ⊢
    linarith
  have below' : |(ofWorking n).toRat| < 10 ^ (3 : Int) :=
    (abs_toRat_dropNegligible_le _).trans_lt (by exact_mod_cast below)
  have order := order_lt_of_abs_lt (held_ofWorking n) (by decide) (by decide) below'
  omega

/-- A function that changes no faster than its argument, and is zero or one at zero, is computed of
an angle that was rounded as well as of the angle. -/
theorem abs_result_sub_le {f : ℝ → ℝ} {value : ℚ} (contracts : ∀ a b, |f a - f b| ≤ |a - b|)
    (start : f 0 = 0 ∨ f 0 = 1)
    (near : |10 ^ workingDigits * f (angle / 10 ^ workingDigits) - 10 ^ workingDigits * value| ≤
      100000)
    (accurate : r.Approximates (f (unit.toRadians (ofRadians unit angle).toRat))) :
    |r.toRat - value| ≤ 2 / 10 ^ 50 := by
  apply (Rat.cast_le (K := ℝ)).1
  push_cast
  have power : (0 : ℝ) < 10 ^ workingDigits := by positivity
  rw [abs_scaled_sub, ← le_div_iff₀' power] at near
  have units : (100000 : ℝ) / 10 ^ workingDigits ≤ 1 / 10 ^ 60 := by
    rw [tenPow_workingDigits]
    norm_num
  have moved := contracts (unit.toRadians (ofRadians unit angle).toRat) (angle / 10 ^ workingDigits)
  have errors : |(r.toRat : ℝ) - f (unit.toRadians (ofRadians unit angle).toRat)| +
      |unit.toRadians (ofRadians unit angle).toRat - angle / 10 ^ workingDigits| ≤
        1.1 / 10 ^ 50 := by
    rcases ofRadians_cases half unit with ⟨dropped, tiny⟩ | rounded
    · -- the result is that of zero, where nothing is lost by dropping it
      have origin : unit.toRadians (ofRadians unit angle).toRat = 0 := by
        obtain ⟨factor, -, -, linear⟩ := AngleUnit.exists_factor unit
        rw [dropped, toRat_zero, linear, Rat.cast_zero, zero_mul]
      rw [origin] at accurate ⊢
      rw [zero_sub, abs_neg]
      linarith [accurate.abs_sub_le_of_unit start]
    · linarith [accurate.abs_sub_le]
  generalize unit.toRadians (ofRadians unit angle).toRat = θ at moved errors
  calc |(r.toRat : ℝ) - value|
      ≤ |(r.toRat : ℝ) - f θ| + |f θ - value| := abs_sub_le _ _ _
    _ ≤ |(r.toRat : ℝ) - f θ| + (|f θ - f (angle / 10 ^ workingDigits)| +
          |f (angle / 10 ^ workingDigits) - value|) := add_le_add le_rfl (abs_sub_le _ _ _)
    _ ≤ 1.1 / 10 ^ 50 + 1 / 10 ^ 60 := by linarith
    _ ≤ 2 / 10 ^ 50 := by norm_num

end Angles

section Functions
variable (held : x.Held) (small : |x.toRat| ≤ 1) (unit : AngleUnit)
include held small

/-- What an inverse function works with is the number up to half a unit. -/
theorem abs_working_sub_le {f : ℝ} {units : ℝ} (few : units ≤ 60000)
    (near : |f - x.toScaled workingDigits| ≤ units) :
    |f - 10 ^ workingDigits * x.toRat| ≤ 100000 := by
  have scaled := abs_toScaled_sub_real_le held (by decide)
    (exponent_within_of_turn held (small.trans (by norm_num)))
  exact (abs_sub_le _ _ _).trans ((add_le_add near scaled).trans (by linarith))

theorem sin_asin_near : ∃ r, asin unit x >>= sin unit = .ok r ∧
    |r.toRat - x.toRat| ≤ 2 / 10 ^ 50 := by
  obtain ⟨natural, -, half⟩ := halfPi_bounds
  have argument := arcsineArgument_of_le (natAbs_toScaled_le held small)
  have computed := asin_of_le held small unit
  have within : |scaledArcsine (x.toScaled workingDigits)| ≤ FixedPoint.pi workingDigits := by
    have bound := abs_scaledArcsine_le (x.toScaled workingDigits)
    omega
  have near := abs_working_sub_le held small (by norm_num) (abs_sin_scaledArcsine_sub_le argument)
  obtain ⟨angle, found, reduced⟩ :=
    reducedAngle_eq_ok (held_ofRadians unit _) (order_ofRadians_le within unit) unit
  refine ⟨_, by rw [computed]; exact sin_eq_ok found, ?_⟩
  apply abs_result_sub_le within Real.abs_sin_sub_sin_le (.inl Real.sin_zero) near
  exact approximates_of_reduced Real.sin_sub_int_mul_two_pi Real.abs_sin_sub_sin_le
    Real.abs_sin_le_one reduced (FixedPoint.abs_sine_sub_le reduced.small)

theorem cos_acos_near : ∃ r, acos unit x >>= cos unit = .ok r ∧
    |r.toRat - x.toRat| ≤ 2 / 10 ^ 50 := by
  obtain ⟨natural, -, half⟩ := halfPi_bounds
  have argument := arcsineArgument_of_le (natAbs_toScaled_le held small)
  have computed := acos_of_le held small unit
  have within : |(FixedPoint.pi workingDigits).tdiv 2 - scaledArcsine (x.toScaled workingDigits)| ≤
      FixedPoint.pi workingDigits := by
    obtain ⟨low, high⟩ := abs_le.1 (abs_scaledArcsine_le (x.toScaled workingDigits))
    exact abs_le.2 (by omega)
  have near := abs_working_sub_le held small le_rfl (abs_cos_scaledArccosine_sub_le argument)
  obtain ⟨angle, found, reduced⟩ :=
    reducedAngle_eq_ok (held_ofRadians unit _) (order_ofRadians_le within unit) unit
  refine ⟨_, by rw [computed]; exact cos_eq_ok found, ?_⟩
  apply abs_result_sub_le within Real.abs_cos_sub_cos_le (.inr Real.cos_zero) near
  exact approximates_of_reduced Real.cos_sub_int_mul_two_pi Real.abs_cos_sub_cos_le
    Real.abs_cos_le_one reduced (FixedPoint.abs_cosine_sub_le reduced.small)

end Functions

/-- The sine of the arcsine and the cosine of the arccosine are the number itself, but for little
more than what may be dropped, in either unit. -/
theorem circular_functions_undo_inverses (held : x.Held) (small : |x.toRat| ≤ 1)
    (unit : AngleUnit) :
    (∃ r, asin unit x >>= sin unit = .ok r ∧ |r.toRat - x.toRat| ≤ 2 / 10 ^ 50) ∧
      ∃ r, acos unit x >>= cos unit = .ok r ∧ |r.toRat - x.toRat| ≤ 2 / 10 ^ 50 := by
  exact ⟨sin_asin_near held small unit, cos_acos_near held small unit⟩

/-- The sine is flat next to one, and below `10 ^ -50` the arcsine is dropped. -/
theorem circular_functions_undo_inverses_at_extremes :
    (∃ r, asin .degrees ⟨10 ^ 60 - 1, -60⟩ >>= sin .degrees = .ok r ∧
      |r.toRat - toRat ⟨10 ^ 60 - 1, -60⟩| ≤ 2 / 10 ^ 50) ∧
    ∃ r, acos .radians ⟨9, -51⟩ >>= cos .radians = .ok r ∧
      |r.toRat - toRat ⟨9, -51⟩| ≤ 2 / 10 ^ 50 := by
  have nearOne : Held ⟨10 ^ 60 - 1, -60⟩ := held_of_written (by decide)
  have inside : |toRat ⟨10 ^ 60 - 1, -60⟩| ≤ 1 := by
    rw [toRat, abs_le]
    norm_num
  have tiny : Held ⟨9, -51⟩ := held_of_written (by decide)
  have inside' : |toRat ⟨9, -51⟩| ≤ 1 := by
    rw [toRat, abs_le]
    norm_num
  exact ⟨(circular_functions_undo_inverses nearOne inside .degrees).1,
    (circular_functions_undo_inverses tiny inside' .radians).2⟩

end ScientificCalculator.Decimal
