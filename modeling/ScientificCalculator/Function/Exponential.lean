import ScientificCalculator.Decimal.Arithmetic
import ScientificCalculator.Error
import ScientificCalculator.FixedPoint.Exponential
import ScientificCalculator.FixedPoint.Logarithm

/-!
Exponential and logarithms of decimals. A number is split into a power of ten and a remainder of a
few units, for which the fixed-point functions are accurate, and the result is rounded to sixty
digits.
-/

namespace ScientificCalculator

/-- The digits after the point with which functions are computed before the last rounding. -/
def workingDigits : Nat := precision + 15

def overflow {α : Type} : Except Error α := .error (.domain .overflow)

namespace Decimal

/-- From this order on an exponential has no representable exponent. -/
def exponentialOrderLimit : Int := 17

/-- The exponential, as a power of ten times the exponential of the remainder by `ln 10`. -/
def exp (x : Decimal) : Except Error Decimal :=
  if x.IsZero then .ok one
  else if exponentialOrderLimit ≤ x.order then
    if x.IsNegative then .ok zero else overflow
  else
    let scaled := x.toScaled workingDigits
    let ten := FixedPoint.logarithmTen workingDigits
    let power := scaled / ten
    if (maxOrder : Int) < power then overflow
    else if power < -maxOrder then .ok zero
    else
      .ok (ofParts (FixedPoint.exponential (scaled % ten) workingDigits) (power - workingDigits))

/-- The logarithm of a positive number to the working digits: that of its digits, from one to ten,
plus as many times `ln 10` as its order says. The calculator negates the order in sixty-four bits,
so it has no logarithm of a number whose order is the least of these. -/
def scaledLogarithm (x : Decimal) : Int :=
  let digits := (x.shift (-x.order)).toScaled workingDigits
  FixedPoint.logarithm digits.toNat workingDigits +
    x.order * FixedPoint.logarithmTen workingDigits

def ln (x : Decimal) : Except Error Decimal :=
  if x.IsPositive then .ok (ofScaled x.scaledLogarithm workingDigits)
  else .error (.domain .naturalLogarithm)

def log10 (x : Decimal) : Except Error Decimal :=
  if x.IsPositive then
    .ok (ofScaled ((x.scaledLogarithm * tenTo workingDigits).tdiv
      (FixedPoint.logarithmTen workingDigits)) workingDigits)
  else .error (.domain .decimalLogarithm)

/-- Ten to the power `x`, exact for an integer. -/
def tenPower (x : Decimal) : Except Error Decimal :=
  match x.toInt64? with
  | some n =>
    if n.natAbs ≤ maxOrder then .ok (tenPow n)
    else if n < 0 then .ok zero
    else overflow
  | none => exp (x * ofScaled (FixedPoint.logarithmTen workingDigits) workingDigits)

/-- The number `x * 10 ^ y`; an integer `y` moves the exponent without rounding. -/
def timesTenPower (x y : Decimal) : Except Error Decimal :=
  match y.toInt64? with
  | some n =>
    if n.natAbs ≤ maxOrder then .ok (x.shift n) else return x * (← y.tenPower)
  | none => return x * (← y.tenPower)

end Decimal

end ScientificCalculator
