import ScientificCalculator.Decimal.Scale
import ScientificCalculator.FixedPoint.Series

/-!
Sine and cosine in fixed point, by their Taylor series. Both series multiply by the negated square
of the angle from term to term, so the sine changes sign with the angle and the cosine does not
depend on its sign. The calculator counts the terms of both in thirty-two bits, and the functions of
an angle take the series without a bound on the counter; a series of fewer than thirty-two thousand
terms is the same with either.
-/

namespace ScientificCalculator.FixedPoint

def negatedSquare (x : Int) (digits : Nat) : Int := -(x * x).tdiv (tenTo digits)

/-- The sine of `x / 10 ^ digits` times `10 ^ digits`. -/
def sine (x : Int) (digits : Nat) : Int :=
  x + taylorTail (tenTo digits) (negatedSquare x digits) (fun n => 2 * n * (2 * n + 1))
    (fun n => Nat.le_trans (by omega : n ≤ 2 * n) (Nat.le_mul_of_pos_right _ (by omega))) x 1

theorem le_two_mul_mul (n : Nat) : n ≤ (2 * n - 1) * (2 * n) := by
  rcases Nat.eq_zero_or_pos n with rfl | pos
  · simp
  · exact Nat.le_trans (by omega : n ≤ 2 * n) (Nat.le_mul_of_pos_left _ (by omega))

def cosine (x : Int) (digits : Nat) : Int :=
  tenTo digits + taylorTail (tenTo digits) (negatedSquare x digits)
    (fun n => (2 * n - 1) * (2 * n)) le_two_mul_mul (tenTo digits) 1

def sineDivisor (n : UInt32) : UInt32 := 2 * n * (2 * n + 1)

def cosineDivisor (n : UInt32) : UInt32 := (2 * n - 1) * (2 * n)

theorem sineDivisor_ends : sineDivisor 2147483648 = 0 := by decide

theorem cosineDivisor_ends : cosineDivisor 2147483648 = 0 := by decide

/-- The sine with terms that are counted in thirty-two bits. -/
def countedSine (x : Int) (digits : Nat) : Option Int :=
  (x + ·) <$>
    countedTail (tenTo digits) (negatedSquare x digits) sineDivisor sineDivisor_ends x 1

def countedCosine (x : Int) (digits : Nat) : Option Int :=
  (tenTo digits + ·) <$>
    countedTail (tenTo digits) (negatedSquare x digits) cosineDivisor cosineDivisor_ends
      (tenTo digits) 1

/-- Sine and cosine together, as the calculator has them. -/
def sineCosine (x : Int) (digits : Nat) : Option (Int × Int) := do
  let sine ← countedSine x digits
  let cosine ← countedCosine x digits
  return (sine, cosine)

end ScientificCalculator.FixedPoint
