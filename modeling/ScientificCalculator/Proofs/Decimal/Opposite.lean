import ScientificCalculator.Proofs.Decimal.Value

/-!
The opposite of a decimal. Products, quotients and the ways to fixed point and back round magnitudes
and put the sign to the result, so the opposite operand gives the opposite result; what only looks
at the size of a number is the same for its opposite.
-/

namespace ScientificCalculator.Decimal

section Size

theorem isZero_neg {x : Decimal} : (-x).IsZero ↔ x.IsZero := Int.neg_eq_zero

theorem abs_opposite (x : Decimal) : (-x).abs = x.abs :=
  Decimal.ext (congrArg Int.ofNat (Int.natAbs_neg x.mantissa)) rfl

theorem leadingOrder_neg (x : Decimal) : (-x).leadingOrder = x.leadingOrder := by
  have magnitude : (-x).mantissa.natAbs = x.mantissa.natAbs := Int.natAbs_neg _
  rw [leadingOrder, leadingOrder, magnitude]
  rfl

theorem order_neg (x : Decimal) : (-x).order = x.order := by
  simp only [order, order?, isZero_neg, leadingOrder_neg]

theorem leadingDigits_neg (x : Decimal) (count : Nat) :
    (-x).leadingDigits count = x.leadingDigits count := by
  have magnitude : (-x).mantissa.natAbs = x.mantissa.natAbs := Int.natAbs_neg _
  unfold leadingDigits
  simp only [isZero_neg, magnitude, leadingOrder_neg]

end Size

section Arithmetic

theorem mul_neg_left (x y : Decimal) : -x * y = -(x * y) := by
  have mantissa : (-x).mantissa * y.mantissa = -(x.mantissa * y.mantissa) := Int.neg_mul _ _
  show ofParts ((-x).mantissa * y.mantissa) _ = -ofParts _ _
  rw [mantissa, ofParts_neg]
  rfl

theorem mul_neg_right (x y : Decimal) : x * -y = -(x * y) := by
  have mantissa : x.mantissa * (-y).mantissa = -(x.mantissa * y.mantissa) := Int.mul_neg _ _
  show ofParts (x.mantissa * (-y).mantissa) _ = -ofParts _ _
  rw [mantissa, ofParts_neg]
  rfl

theorem mul_neg_both (x y : Decimal) : -x * -y = x * y := by
  rw [mul_neg_left, mul_neg_right, double_neg]

theorem div?_neg (x y : Decimal) : x.div? (-y) = (x.div? y).map Neg.neg := by
  have magnitude : (-y).mantissa.natAbs = y.mantissa.natAbs := Int.natAbs_neg _
  have sign : (-y).mantissa.sign = -y.mantissa.sign := Int.sign_neg _
  have exponent : (-y).exponent = y.exponent := rfl
  unfold div?
  simp only [isZero_neg, quotientDigits, magnitude, sign, exponent, Int.neg_mul, ofParts_neg]
  split
  · rfl
  · split <;> rfl

end Arithmetic

section FixedPoint

theorem ofScaled_neg (n : Int) (digits : Nat) : ofScaled (-n) digits = -ofScaled n digits :=
  ofParts_neg n _

theorem toScaled_neg (x : Decimal) (digits : Nat) : (-x).toScaled digits = -x.toScaled digits := by
  have mantissa : (-x).mantissa = -x.mantissa := rfl
  have exponent : (-x).exponent = x.exponent := rfl
  simp only [toScaled, mantissa, exponent, Int.natAbs_neg, roundDiv_neg, Int.neg_mul]
  split
  · rfl
  · split <;> rfl

end FixedPoint

end ScientificCalculator.Decimal
