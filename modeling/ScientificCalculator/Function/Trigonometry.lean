import ScientificCalculator.FixedPoint.Arctangent
import ScientificCalculator.FixedPoint.SineCosine
import ScientificCalculator.Function.Exponential

/-!
Circular functions and their inverses, in degrees or radians. An angle is first reduced to at most
half a turn, with as many more digits as its order takes away; a result below `10 ^ -50` in size is
exactly zero.
-/

namespace ScientificCalculator

inductive AngleUnit where
  | degrees
  | radians
  deriving DecidableEq

def AngleUnit.other : AngleUnit → AngleUnit
  | degrees => radians
  | radians => degrees

def AngleUnit.name : AngleUnit → String
  | degrees => "degrés"
  | radians => "radians"

namespace Decimal

def pi : Decimal := ofScaled (FixedPoint.pi workingDigits) workingDigits

def greatestAngleOrder : Int := 1000

def leastResultOrder : Int := -50

/-- Results that are zero but for the rounding become zero. -/
def dropNegligible (x : Decimal) : Decimal :=
  if ¬ x.IsZero ∧ x.leadingOrder < leastResultOrder then zero else x

/-- The residue by a full turn of an angle in degrees. An angle below a turn is left as it is, also
a negative one. -/
def withinTurn (x : Decimal) : Decimal :=
  if x.abs < ofInt 360 then x
  else if 0 ≤ x.exponent then ofInt (x.mantissa * tenTo x.exponent.toNat % 360)
  else ofParts (x.mantissa % (tenTo x.exponent.natAbs * 360)) x.exponent

/-- An angle in radians at the working digits, from minus half a turn to half a turn. -/
def reducedRadians (x : Decimal) : Int :=
  let extra := (x.order + 1).toNat
  let digits := workingDigits + extra
  let turn := FixedPoint.pi digits * 2
  let scaled := x.toScaled digits
  (scaled - roundDiv scaled turn.toNat * turn).tdiv (tenTo extra)

def foldHalfTurn (angle halfTurn : Int) : Int :=
  if halfTurn < angle then angle - halfTurn * 2
  else if angle < -halfTurn then angle + halfTurn * 2
  else angle

def reducedDegrees (x : Decimal) : Int :=
  let halfTurn := FixedPoint.pi workingDigits
  foldHalfTurn ((x.withinTurn.toScaled workingDigits * halfTurn).tdiv (tenTo workingDigits * 180))
    halfTurn

/-- An angle of either unit in radians at the working digits, within half a turn. -/
def reducedAngle (unit : AngleUnit) (x : Decimal) : Except Error Int :=
  if greatestAngleOrder < x.order then .error (.domain .angleTooLarge)
  else
    match unit with
    | .radians => .ok x.reducedRadians
    | .degrees => .ok x.reducedDegrees

def ofWorking (n : Int) : Decimal := dropNegligible (ofScaled n workingDigits)

def sin (unit : AngleUnit) (x : Decimal) : Except Error Decimal := do
  return ofWorking (FixedPoint.sine (← reducedAngle unit x) workingDigits)

def cos (unit : AngleUnit) (x : Decimal) : Except Error Decimal := do
  return ofWorking (FixedPoint.cosine (← reducedAngle unit x) workingDigits)

def tan (unit : AngleUnit) (x : Decimal) : Except Error Decimal := do
  let angle ← reducedAngle unit x
  let sine := FixedPoint.sine angle workingDigits
  let cosine := FixedPoint.cosine angle workingDigits
  if (ofWorking cosine).IsZero then .error (.domain .undefinedTangent)
  else return ofWorking ((sine * tenTo workingDigits).tdiv cosine)

def ofRadians (unit : AngleUnit) (angle : Int) : Decimal :=
  match unit with
  | .radians => ofWorking angle
  | .degrees =>
    ofWorking ((angle * 180 * tenTo workingDigits).tdiv (FixedPoint.pi workingDigits))

/-- The argument of an inverse function at the working digits, if it is at most one in size. -/
def withinUnit (x : Decimal) (otherwise : DomainFault) : Except Error Int :=
  if one < x.abs then .error (.domain otherwise) else .ok (x.toScaled workingDigits)

/-- The arcsine, as the arctangent of the sine over the cosine. -/
def scaledArcsine (sine : Int) : Int :=
  let scale := tenTo workingDigits
  if sine.natAbs = scale then sine.sign * (FixedPoint.pi workingDigits).tdiv 2
  else
    let cosine := FixedPoint.squareRoot (scale - sine * sine / scale).toNat workingDigits
    FixedPoint.arctangent ((sine * scale).tdiv cosine) workingDigits

def asin (unit : AngleUnit) (x : Decimal) : Except Error Decimal := do
  return ofRadians unit (scaledArcsine (← x.withinUnit .arcsineArgument))

def acos (unit : AngleUnit) (x : Decimal) : Except Error Decimal := do
  let sine ← x.withinUnit .arccosineArgument
  return ofRadians unit ((FixedPoint.pi workingDigits).tdiv 2 - scaledArcsine sine)

/-- The arctangent, of arguments at most one in size. -/
def atan (unit : AngleUnit) (x : Decimal) : Except Error Decimal := do
  return ofRadians unit (FixedPoint.arctangent (← x.withinUnit .arctangentArgument) workingDigits)

end Decimal

end ScientificCalculator
