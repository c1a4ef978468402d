import ScientificCalculator.Proofs.Decimal.Opposite
import ScientificCalculator.Proofs.Function.Angle

/-!
Sine and tangent of the opposite angle are the opposite ones and its cosine is the same, digit for
digit. Every step from the angle to the result keeps this: numbers are rounded half away from zero
and quotients truncated toward zero, the nearest turns are taken off on either side of zero, and the
terms of both series change sign with the first one.
-/

namespace ScientificCalculator

namespace FixedPoint

section Series
variable {scale : Nat} {factor : Int} {divisor : Nat → Nat} {grows : ∀ n, n ≤ divisor n}

theorem nextTerm_neg (term : Int) (n : Nat) :
    nextTerm scale factor (-term) n = -nextTerm scale factor term n := by
  rw [nextTerm, nextTerm, Int.neg_mul, Int.neg_tdiv, Int.neg_tdiv]

/-- Every term of the series changes sign with the one before it, so the series ends at the same
term. -/
theorem taylorTail_neg (term : Int) (n : Nat) :
    taylorTail scale factor divisor grows (-term) n =
      -taylorTail scale factor divisor grows term n := by
  fun_induction taylorTail scale factor divisor grows term n with
  | case1 term n next last =>
    rw [taylorTail, nextTerm_neg, if_pos (by omega), Int.neg_zero]
  | case2 term n next more ih =>
    rw [taylorTail, nextTerm_neg, if_neg (by omega), ih, Int.neg_add]

end Series

theorem negatedSquare_neg (x : Int) (digits : Nat) :
    negatedSquare (-x) digits = negatedSquare x digits := by
  rw [negatedSquare, negatedSquare, Int.neg_mul_neg]

theorem sine_neg (x : Int) (digits : Nat) : sine (-x) digits = -sine x digits := by
  rw [sine, sine, negatedSquare_neg, taylorTail_neg, Int.neg_add]

theorem cosine_neg (x : Int) (digits : Nat) : cosine (-x) digits = cosine x digits := by
  rw [cosine, cosine, negatedSquare_neg]

end FixedPoint

namespace Decimal
variable {x : Decimal} {unit : AngleUnit}

section Reduction

theorem reducedRadians_neg (x : Decimal) : (-x).reducedRadians = -x.reducedRadians := by
  simp only [reducedRadians, order_neg, toScaled_neg, roundDiv_neg]
  rw [Int.neg_mul, neg_sub_neg, ← Int.neg_tdiv, neg_sub]

/-- Half a turn is positive, so only one of its two bounds can be passed. -/
theorem foldHalfTurn_neg {halfTurn : Int} (natural : 0 ≤ halfTurn) (angle : Int) :
    foldHalfTurn (-angle) halfTurn = -foldHalfTurn angle halfTurn := by
  unfold foldHalfTurn
  split_ifs <;> omega

theorem reducedDegrees_neg (inside : x.abs < ofInt 360) :
    (-x).reducedDegrees = -x.reducedDegrees := by
  have natural : 0 ≤ FixedPoint.pi workingDigits := by
    obtain ⟨low, -⟩ := halfTurn_bounds (by decide : workingDigits ≤ 10000) (by decide)
    exact_mod_cast (by positivity : (0 : ℝ) ≤ 3 * 10 ^ workingDigits).trans low
  have inside' : (-x).abs < ofInt 360 := by rwa [abs_opposite]
  rw [reducedDegrees, reducedDegrees, withinTurn_of_lt inside, withinTurn_of_lt inside',
    toScaled_neg, Int.neg_mul, Int.neg_tdiv, foldHalfTurn_neg natural]

/-- The opposite of an angle that is admitted is admitted, and it is reduced to the opposite
number. -/
theorem reducedAngle_neg (held : x.Held)
    (admitted : unit = .radians ∧ x.order ≤ 1000 ∨ unit = .degrees ∧ |x.toRat| < 360) :
    ∃ angle, reducedAngle unit x = .ok angle ∧ reducedAngle unit (-x) = .ok (-angle) := by
  rcases admitted with ⟨rfl, inRange⟩ | ⟨rfl, inside⟩
  · have inRange' : (-x).order ≤ 1000 := by rwa [order_neg]
    rw [reducedAngle_radians inRange, reducedAngle_radians inRange', reducedRadians_neg]
    exact ⟨_, rfl, rfl⟩
  · have short : x.order < 3 :=
      order_lt_of_abs_lt held (by decide) (by decide) (inside.trans (by norm_num))
    have inRange : x.order ≤ greatestAngleOrder := by
      rw [greatestAngleOrder]
      omega
    have inRange' : (-x).order ≤ greatestAngleOrder := by rwa [order_neg]
    rw [reducedAngle_degrees inRange, reducedAngle_degrees inRange',
      reducedDegrees_neg ((abs_lt_fullTurn_iff held).2 inside)]
    exact ⟨_, rfl, rfl⟩

end Reduction

section Functions

theorem dropNegligible_neg (x : Decimal) : (-x).dropNegligible = -x.dropNegligible := by
  simp only [dropNegligible, isZero_neg, leadingOrder_neg]
  split <;> rfl

theorem ofWorking_neg (n : Int) : ofWorking (-n) = -ofWorking n := by
  rw [ofWorking, ofWorking, ofScaled_neg, dropNegligible_neg]

/-- The symmetries of the circular functions are exact, for every angle in radians and for an angle
of less than a turn in degrees. -/
theorem circular_symmetries (held : x.Held)
    (admitted : unit = .radians ∧ x.order ≤ 1000 ∨ unit = .degrees ∧ |x.toRat| < 360) :
    (∃ s, sin unit x = .ok s ∧ sin unit (-x) = .ok (-s)) ∧
      (∃ c, cos unit x = .ok c ∧ cos unit (-x) = .ok c) ∧
      tan unit (-x) = (tan unit x).map fun t => -t := by
  obtain ⟨angle, found, found'⟩ := reducedAngle_neg held admitted
  refine ⟨⟨_, sin_eq_ok found, ?_⟩, ⟨_, cos_eq_ok found, ?_⟩, ?_⟩
  · rw [sin_eq_ok found', FixedPoint.sine_neg, ofWorking_neg]
  · rw [cos_eq_ok found', FixedPoint.cosine_neg]
  · rw [tan_eq found, tan_eq found', FixedPoint.sine_neg, FixedPoint.cosine_neg, Int.neg_mul,
      Int.neg_tdiv, ofWorking_neg]
    split <;> rfl

/-- The greatest power of ten that is an angle in radians, and a pole of the tangent in degrees. -/
theorem circular_symmetries_extreme :
    (∃ s, sin .radians ⟨1, 1000⟩ = .ok s ∧ sin .radians (-⟨1, 1000⟩) = .ok (-s)) ∧
      (∃ c, cos .degrees ⟨9, 1⟩ = .ok c ∧ cos .degrees (-⟨9, 1⟩) = .ok c) ∧
      tan .degrees (-⟨9, 1⟩) = (tan .degrees ⟨9, 1⟩).map fun t => -t := by
  have greatest : Held ⟨1, 1000⟩ := held_of_written (by decide)
  have inRange : order ⟨1, 1000⟩ ≤ 1000 := (order_of_written 0 (by decide)).trans_le (by decide)
  have quarter : Held ⟨9, 1⟩ := held_of_written (by decide)
  have inside : |toRat ⟨9, 1⟩| < 360 := by
    rw [toRat]
    norm_num [abs_lt]
  obtain ⟨sines, -, -⟩ := circular_symmetries greatest (.inl ⟨rfl, inRange⟩)
  obtain ⟨-, cosines, tangents⟩ := circular_symmetries quarter (.inr ⟨rfl, inside⟩)
  exact ⟨sines, cosines, tangents⟩

end Functions

end Decimal

end ScientificCalculator
