import ScientificCalculator.Decimal.Scale
import ScientificCalculator.FixedPoint.Series

/-!
The exponential function in fixed point. The argument is divided by a power of two, the Taylor
series is summed, and the sum is squared once for each division by two.
-/

namespace ScientificCalculator.FixedPoint

def halvings : Nat := 10

def squareRepeatedly (scale : Nat) : Nat → Int → Int
  | 0, value => value
  | times + 1, value => squareRepeatedly scale times ((value * value).tdiv scale)

/-- The exponential of `x / 10 ^ digits` times `10 ^ digits`. -/
def exponential (x : Int) (digits : Nat) : Int :=
  let scale := tenTo digits
  let reduced := x.tdiv (Nat.pow 2 halvings : Nat)
  squareRepeatedly scale halvings
    (scale + taylorTail scale reduced (fun n => n) (fun _ => Nat.le_refl _) scale 1)

end ScientificCalculator.FixedPoint
