import ScientificCalculator.Expression.Numeral

/-!
The reduction of a list of tokens without parentheses to a value. Trailing functions come first,
then the operators that bind more tightly than a product, leading functions, products and quotients,
sums and differences; values left side by side are multiplied. Each step keeps the order of the
tokens and stops at the first operation that fails.
-/

namespace ScientificCalculator

def missingOperand {α : Type} : Except Error α := .error (.malformedExpression .missingOperand)

namespace Reduction

/-- Applies each trailing function to the value before it; `before` is the token just read. -/
def applyTrailing (before : Option Token) : List Token → Except Error (List Token)
  | [] => .ok before.toList
  | .trailing f :: rest =>
    match before with
    | some (.value x) => do applyTrailing (some (.value (← f.apply x))) rest
    | _ => missingOperand
  | token :: rest => do return before.toList ++ (← applyTrailing (some token) rest)

/-- The value at the head, with the signs and functions before it applied, and the tokens after
it. -/
def takeOperand (unit : AngleUnit) : List Token → Except Error (Decimal × List Token)
  | .value x :: rest => .ok (x, rest)
  | .unary u :: rest => do
    let (x, others) ← takeOperand unit rest
    return (← u.apply unit x, others)
  | _ => missingOperand

theorem length_of_takeOperand {unit : AngleUnit} {tokens others : List Token} {x : Decimal}
    (taken : takeOperand unit tokens = .ok (x, others)) : others.length < tokens.length := by
  induction tokens generalizing x others with
  | nil => simp [takeOperand, missingOperand] at taken
  | cons token rest ih =>
    cases token with
    | value y =>
      simp only [takeOperand, Except.ok.injEq, Prod.mk.injEq] at taken
      simp [taken.2]
    | unary u =>
      rw [takeOperand] at taken
      cases inner : takeOperand unit rest with
      | error e => simp [inner, bind, Except.bind] at taken
      | ok pair =>
        obtain ⟨y, left⟩ := pair
        have shorter := ih inner
        cases applied : u.apply unit y with
        | error e => simp [inner, applied, bind, Except.bind] at taken
        | ok z =>
          simp only [inner, applied, bind, Except.bind, pure, Except.pure, Except.ok.injEq,
            Prod.mk.injEq] at taken
          rw [← taken.2]
          exact Nat.lt_succ_of_lt shorter
    | _ => simp [takeOperand, missingOperand] at taken

def applyDual (operator : DualOperator) (before : Token) (operand : Decimal) : Except Error Token :=
  match before with
  | .value x => do return .value (← operator.apply x operand)
  | _ => missingOperand

/-- Applies the tightly binding operators from left to right. -/
def applyDuals (unit : AngleUnit) (before : Option Token) (tokens : List Token) :
    Except Error (List Token) :=
  match tokens with
  | [] => .ok before.toList
  | .dual operator :: rest =>
    match before with
    | none => missingOperand
    | some left =>
      match _ : takeOperand unit rest with
      | .error e => .error e
      | .ok (operand, others) => do
        applyDuals unit (some (← applyDual operator left operand)) others
  | token :: rest => do return before.toList ++ (← applyDuals unit (some token) rest)
termination_by tokens.length
decreasing_by
  · exact Nat.lt_succ_of_lt (length_of_takeOperand ‹_›)
  · exact Nat.lt_succ_self _

/-- Applies signs and leading functions from right to left. One that ends the list stays. -/
def applyUnary (unit : AngleUnit) : List Token → Except Error (List Token)
  | [] => .ok []
  | [token] => .ok [token]
  | token :: rest => do
    let reduced ← applyUnary unit rest
    match token, reduced with
    | .unary u, .value x :: others => return .value (← u.apply unit x) :: others
    | .unary _, _ => missingOperand
    | token, reduced => return token :: reduced

/-- Multiplies and divides from left to right. An operator that ends the list stays. -/
def applyMultiplicative (before : Token) : List Token → Except Error (List Token)
  | [] => .ok [before]
  | .multiplicative operator :: next :: rest =>
    match before, next with
    | .value x, .value y => do applyMultiplicative (.value (← operator.apply x y)) rest
    | _, _ => missingOperand
  | token :: rest => do return before :: (← applyMultiplicative token rest)

def applyAdditive (before : Token) : List Token → Except Error (List Token)
  | [] => .ok [before]
  | .additive s :: rest =>
    match before, rest with
    | .value x, .value y :: others => applyAdditive (.value (s.combine x y)) others
    | _, _ => missingOperand
  | token :: rest => do return before :: (← applyAdditive token rest)

/-- Runs a step that looks at the token before the others. -/
def fromFirst (step : Token → List Token → Except Error (List Token)) :
    List Token → Except Error (List Token)
  | [] => .ok []
  | first :: rest => step first rest

def value? : Token → Option Decimal
  | .value x => some x
  | _ => none

/-- The product of the values left, from left to right. -/
def product (tokens : List Token) : Except Error Decimal :=
  match tokens.mapM value? with
  | none => .error (.malformedExpression .loneOperator)
  | some [] => .error (.malformedExpression .empty)
  | some (first :: others) => .ok (others.foldl (· * ·) first)

end Reduction

open Reduction in
/-- The value of a list of tokens without parentheses and memory operations. -/
def reduce (unit : AngleUnit) (tokens : List Token) : Except Error Decimal := do
  let settled ← readNumerals [] (foldExponents false tokens)
  let trailed ← applyTrailing none (readSigns false settled)
  let bound ← applyDuals unit none trailed
  let led ← applyUnary unit bound
  let multiplied ← fromFirst applyMultiplicative led
  let added ← fromFirst applyAdditive multiplied
  product added

end ScientificCalculator
