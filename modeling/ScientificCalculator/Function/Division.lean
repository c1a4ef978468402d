import ScientificCalculator.Decimal.Arithmetic
import ScientificCalculator.Error

/-!
Division of decimals as an operation of the calculator: a divisor of zero is an error.
-/

namespace ScientificCalculator.Decimal

def divide (x y : Decimal) : Except Error Decimal :=
  match x.div? y with
  | some quotient => .ok quotient
  | none => .error .divisionByZero

def reciprocal (x : Decimal) : Except Error Decimal := one.divide x

end ScientificCalculator.Decimal
