import ScientificCalculator.Decimal.Printer
import ScientificCalculator.Expression.Operator

/-!
The tokens of an expression. The marks of a typed number come one by one; the registers are read
when a token is made, so a later change of a register does not reach it.
-/

namespace ScientificCalculator

inductive Mark where
  | digit (value : Fin 10)
  | point
  | exponent
  | minus
  deriving DecidableEq

def Mark.char : Mark → Char
  | digit value => Nat.digitChar value
  | point => '.'
  | exponent => 'e'
  | minus => '-'

inductive Constant where
  | pi
  | answer (value : Decimal)
  | recalled (value : Decimal)
  deriving DecidableEq

def Constant.value : Constant → Decimal
  | pi => Decimal.pi
  | answer value => value
  | recalled value => value

/-- What is done to the memory with the result of a calculation. -/
inductive MemoryOperation where
  | store
  | add
  | subtract
  | clear
  deriving DecidableEq

/-- A value token holds the result of a part of the expression. -/
inductive Token where
  | mark (mark : Mark)
  | constant (constant : Constant)
  | value (value : Decimal)
  | additive (sign : Sign)
  | unary (unary : Unary)
  | dual (operator : DualOperator)
  | multiplicative (operator : Multiplicative)
  | trailing (function : TrailingFunction)
  | opening
  | closing
  | memory (operation : MemoryOperation)
  deriving DecidableEq

def LeadingFunction.name : LeadingFunction → String
  | squareRoot => "sqrt"
  | cubeRoot => "cbrt"
  | log10 => "log"
  | ln => "ln"
  | tenPower => "tenpow"
  | exp => "exp"
  | sin => "sin"
  | cos => "cos"
  | tan => "tan"
  | asin => "asin"
  | acos => "acos"
  | atan => "atan"

def TrailingFunction.name : TrailingFunction → String
  | square => "square"
  | cube => "cube"
  | factorial => "factorial"
  | inverse => "inverse"

def DualOperator.name : DualOperator → String
  | power => "^"
  | root => "root"
  | exponent => "E"
  | combination => "C"
  | permutation => "P"

def MemoryOperation.name : MemoryOperation → String
  | store => "Store"
  | add => "AddToMemory"
  | subtract => "SubtractFromMemory"
  | clear => "ClearMemory"

def Sign.name : Sign → String
  | plus => "+"
  | minus => "-"

def Token.text : Token → String
  | mark m => String.singleton m.char
  | constant .pi => "π"
  | constant (.answer _) => "Ans"
  | constant (.recalled _) => "RCL"
  | value x => "[" ++ String.ofList x.text ++ "]"
  | additive s => s.name
  | unary (.sign s) => "u" ++ s.name
  | unary (.function f) => f.name
  | dual o => o.name
  | multiplicative .times => "*"
  | multiplicative .divide => "/"
  | trailing f => f.name
  | opening => "("
  | closing => ")"
  | memory o => o.name

def Token.listText (tokens : List Token) : String := " ".intercalate (tokens.map Token.text)

end ScientificCalculator
