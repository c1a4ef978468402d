import ScientificCalculator.Function.Combinatorics
import ScientificCalculator.Function.Root
import ScientificCalculator.Function.Trigonometry

/-!
The operators and functions of an expression and what they do to their operands. A leading function
stands before its operand, a trailing one after it; a sign that has no operand to its left acts as a
leading function.
-/

namespace ScientificCalculator

inductive Sign where
  | plus
  | minus
  deriving DecidableEq

def Sign.combine : Sign → Decimal → Decimal → Decimal
  | plus, x, y => x + y
  | minus, x, y => x - y

def Sign.apply : Sign → Decimal → Decimal
  | plus, x => x
  | minus, x => -x

inductive Multiplicative where
  | times
  | divide
  deriving DecidableEq

def Multiplicative.apply : Multiplicative → Decimal → Decimal → Except Error Decimal
  | times, x, y => .ok (x * y)
  | divide, x, y => x.divide y

/-- The operators that bind their operands more tightly than a product. -/
inductive DualOperator where
  | power
  | root
  | exponent
  | combination
  | permutation
  deriving DecidableEq

def DualOperator.apply : DualOperator → Decimal → Decimal → Except Error Decimal
  | power, x, y => x.power y
  | root, x, y => x.root y
  | exponent, x, y => x.timesTenPower y
  | combination, x, y => x.combinations y
  | permutation, x, y => x.permutations y

inductive LeadingFunction where
  | squareRoot
  | cubeRoot
  | log10
  | ln
  | tenPower
  | exp
  | sin
  | cos
  | tan
  | asin
  | acos
  | atan
  deriving DecidableEq

def LeadingFunction.apply (unit : AngleUnit) : LeadingFunction → Decimal → Except Error Decimal
  | squareRoot, x => x.squareRoot
  | cubeRoot, x => .ok x.cubeRoot
  | log10, x => x.log10
  | ln, x => x.ln
  | tenPower, x => x.tenPower
  | exp, x => x.exp
  | sin, x => x.sin unit
  | cos, x => x.cos unit
  | tan, x => x.tan unit
  | asin, x => x.asin unit
  | acos, x => x.acos unit
  | atan, x => x.atan unit

inductive TrailingFunction where
  | square
  | cube
  | factorial
  | inverse
  deriving DecidableEq

def TrailingFunction.apply : TrailingFunction → Decimal → Except Error Decimal
  | square, x => .ok (x * x)
  | cube, x => .ok (x * x * x)
  | factorial, x => x.factorial
  | inverse, x => x.reciprocal

inductive Unary where
  | sign (sign : Sign)
  | function (function : LeadingFunction)
  deriving DecidableEq

def Unary.apply (unit : AngleUnit) : Unary → Decimal → Except Error Decimal
  | sign s, x => .ok (s.apply x)
  | function f, x => f.apply unit x

end ScientificCalculator
