import ScientificCalculator.FixedPoint.Root
import ScientificCalculator.FixedPoint.Series

/-!
The natural logarithm in fixed point. Square roots bring the argument within a tenth of one, where
the series of twice the inverse hyperbolic tangent of `(y - 1) / (y + 1)` is summed, and each root
taken doubles the result.
-/

namespace ScientificCalculator.FixedPoint

def distanceFromOne (digits y : Nat) : Nat := ((y : Int) - tenTo digits).natAbs

def NearOne (digits y : Nat) : Prop := distanceFromOne digits y * 10 ≤ tenTo digits

instance (digits y : Nat) : Decidable (NearOne digits y) :=
  inferInstanceAs (Decidable (distanceFromOne digits y * 10 ≤ tenTo digits))

/-- Takes square roots until the number is near one, and counts them. A root that comes no closer to
one ends the search as well, where the calculator would go on for ever: for zero, and with fewer
than two digits. -/
def rootsUntilNear (digits y taken : Nat) : Nat × Nat :=
  if NearOne digits y then (y, taken)
  else if distanceFromOne digits (squareRoot y digits) < distanceFromOne digits y then
    rootsUntilNear digits (squareRoot y digits) (taken + 1)
  else (y, taken)
termination_by distanceFromOne digits y

/-- Half the logarithm of a number near one. -/
def halfLogarithm (y digits : Nat) : Int :=
  let scale := tenTo digits
  let z := (((y : Int) - scale) * scale).tdiv (y + scale)
  z + oddTail scale ((z * z).tdiv scale) z 1

/-- The logarithm of `y / 10 ^ digits` times `10 ^ digits`, for a positive `y`. -/
def logarithm (y digits : Nat) : Int :=
  let (near, taken) := rootsUntilNear digits y 0
  halfLogarithm near digits * (Nat.pow 2 (taken + 1) : Nat)

def logarithmGuard : Nat := 5

def logarithmTen (digits : Nat) : Int :=
  let working := digits + logarithmGuard
  (logarithm (tenTo working * 10) working).tdiv (tenTo logarithmGuard)

end ScientificCalculator.FixedPoint
