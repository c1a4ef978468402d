import ScientificCalculator.FixedPoint.Pi
import ScientificCalculator.FixedPoint.Root
import ScientificCalculator.FixedPoint.Series

/-!
The arctangent in fixed point. A negative argument changes the sign of the result, an argument above
one is inverted, and halvings of the angle bring the rest down to a hundredth, where the series is
summed. The arctangent is odd by construction.
-/

namespace ScientificCalculator.FixedPoint

/-- The tangent of half the angle whose tangent is `x / 10 ^ digits`. -/
def halfAngle (x digits : Nat) : Nat :=
  x * tenTo digits / (tenTo digits + squareRoot (tenTo digits + x * x / tenTo digits) digits)

theorem halfAngle_lt {x digits : Nat} (pos : 0 < x) : halfAngle x digits < x := by
  have scale_pos := tenTo_pos digits
  have root_pos : 0 < squareRoot (tenTo digits + x * x / tenTo digits) digits := by
    have radicand : 0 < (tenTo digits + x * x / tenTo digits) * tenTo digits :=
      Nat.mul_pos (Nat.add_pos_left scale_pos _) scale_pos
    have above := Nat.lt_succ_sqrt ((tenTo digits + x * x / tenTo digits) * tenTo digits)
    unfold squareRoot
    apply Nat.pos_of_ne_zero
    intro zero
    rw [zero] at above
    omega
  unfold halfAngle
  exact (Nat.div_lt_iff_lt_mul (by omega)).2 (Nat.mul_lt_mul_of_pos_left (by omega) pos)

/-- Halves the angle until its tangent is at most a hundredth, and counts the halvings. -/
def halveAngle (digits x taken : Nat) : Nat × Nat :=
  if x * 100 ≤ tenTo digits then (x, taken)
  else halveAngle digits (halfAngle x digits) (taken + 1)
termination_by x
decreasing_by
  rename_i large
  apply halfAngle_lt
  rcases Nat.eq_zero_or_pos x with rfl | pos
  · simp at large
  · exact pos

def smallArctangent (x digits : Nat) : Int :=
  let scale := tenTo digits
  x + oddTail scale (-(x * x / scale : Nat)) x 1

def unitArctangent (x digits : Nat) : Int :=
  let (small, taken) := halveAngle digits x 0
  smallArctangent small digits * (Nat.pow 2 taken : Nat)

def positiveArctangent (x digits : Nat) : Int :=
  let scale := tenTo digits
  if scale < x then (pi digits).tdiv 2 - unitArctangent (scale * scale / x) digits
  else unitArctangent x digits

/-- The arctangent of `x / 10 ^ digits` times `10 ^ digits`. -/
def arctangent (x : Int) (digits : Nat) : Int :=
  if x < 0 then -positiveArctangent x.natAbs digits else positiveArctangent x.natAbs digits

theorem arctangent_neg {x : Int} (digits : Nat) (nonzero : x ≠ 0) :
    arctangent (-x) digits = -arctangent x digits := by
  unfold arctangent
  rw [Int.natAbs_neg]
  rcases Int.lt_or_gt_of_ne nonzero with negative | positive
  · rw [if_neg (by omega), if_pos negative, Int.neg_neg]
  · rw [if_pos (by omega), if_neg (by omega)]

end ScientificCalculator.FixedPoint
