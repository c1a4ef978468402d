import ScientificCalculator.Display.Fitting
import ScientificCalculator.Expression.Reduction

/-!
The value of an expression with parentheses. Each group is reduced where it closes and stands for
its value in the group around it. A memory operation may come first and does not take part.
-/

namespace ScientificCalculator

def splitMemoryOperation : List Token → Option MemoryOperation × List Token
  | .memory operation :: rest => (some operation, rest)
  | tokens => (none, tokens)

def Token.isMemory : Token → Bool
  | memory _ => true
  | _ => false

/-- The value of a list of tokens inside the groups `outer`, the nearest first, of which `group` has
been read. -/
def evaluateGroups (unit : AngleUnit) (outer : List (List Token)) (group : List Token) :
    List Token → Except Error Decimal
  | [] => if outer = [] then reduce unit group else .error .unbalancedParentheses
  | .opening :: rest => evaluateGroups unit (group :: outer) [] rest
  | .closing :: rest =>
    match outer with
    | [] => .error .unbalancedParentheses
    | enclosing :: others =>
      if group = [] then .error (.malformedExpression .emptyParentheses)
      else do
        let x ← reduce unit group
        evaluateGroups unit others (enclosing ++ [.value x]) rest
  | token :: rest => evaluateGroups unit outer (group ++ [token]) rest

/-- The value of an expression. Misplaced memory operations and unequal numbers of parentheses are
found before any calculation. -/
def evaluate (unit : AngleUnit) (tokens : List Token) : Except Error Decimal :=
  let expression := (splitMemoryOperation tokens).2
  if expression.any Token.isMemory then
    .error (.malformedExpression .memoryKeyNotFirst)
  else if expression.count .opening ≠ expression.count .closing then .error .unbalancedParentheses
  else evaluateGroups unit [] [] expression

def defaultWidth : Nat := 24

def evaluateWithin (unit : AngleUnit) (width : Nat) (tokens : List Token) :
    Except Error (Decimal × List Char) := do
  let x ← evaluate unit tokens
  return (x, ← Display.fit x width)

end ScientificCalculator
