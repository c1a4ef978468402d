import ScientificCalculator.Function.Power
import ScientificCalculator.FixedPoint.Root

/-!
Roots of decimals. Square and cube roots widen the mantissa to at least twice or three times the
working digits, with an exponent that the degree divides, and take the integer root; other degrees
are powers with the inverse exponent.
-/

namespace ScientificCalculator.Decimal

/-- The places by which a mantissa is widened, so that it has `digits` digits and `degree` divides
the exponent that is left. -/
def rootPlaces (x : Decimal) (degree digits : Nat) : Nat :=
  let places := digits - digitCount x.mantissa.natAbs
  places + ((x.exponent - places) % degree).toNat

def squareRoot (x : Decimal) : Except Error Decimal :=
  if x.IsNegative then .error (.domain .squareRootOfNegative)
  else if x.IsZero then .ok zero
  else
    let places := x.rootPlaces 2 (2 * workingDigits)
    .ok (ofParts (Nat.sqrt (x.mantissa.natAbs * tenTo places)) ((x.exponent - places) / 2))

def cubeRoot (x : Decimal) : Decimal :=
  if x.IsZero then zero
  else
    let places := x.rootPlaces 3 (3 * workingDigits)
    let root := ofParts (FixedPoint.cubeRoot (x.mantissa.natAbs * tenTo places))
      ((x.exponent - places) / 3)
    if x.IsNegative then -root else root

/-- The root of this degree. Of a negative number it is taken if the inverse of the degree is an
integer. -/
def root (degree radicand : Decimal) : Except Error Decimal := do
  let inverse ← degree.reciprocal
  if radicand.IsNegative ∧ ¬ inverse.IsInteger then .error (.domain .rootOfNegative)
  else
    match degree.toInt64? with
    | some 2 => radicand.squareRoot
    | some 3 => .ok radicand.cubeRoot
    | _ => radicand.power inverse

end ScientificCalculator.Decimal
