import ScientificCalculator.Decimal.Literal
import ScientificCalculator.Expression.Token

/-!
The reading of typed numbers and of signs in a list of tokens. The exponent key directly after a
number continues it, together with the signs that follow the key; runs of marks and constants become
values; and a sign without an operand to its left becomes unary.
-/

namespace ScientificCalculator

namespace Token

def isMark : Token → Bool
  | mark _ => true
  | _ => false

def isAdditive : Token → Bool
  | additive _ => true
  | _ => false

/-- A sign after such a token adds or subtracts. -/
def endsOperand : Token → Bool
  | value _ => true
  | trailing _ => true
  | _ => false

/-- The marks of an exponent whose sign keys are these: an odd number of minus keys negates it. -/
def exponentMarks (signs : List Token) : List Token :=
  if signs.count (additive .minus) % 2 = 1 then [mark .exponent, mark .minus] else [mark .exponent]

end Token

/-- Turns each exponent key after a mark, with the signs that follow it, into marks. -/
def foldExponents (afterMark : Bool) (tokens : List Token) : List Token :=
  match tokens with
  | [] => []
  | token :: rest =>
    if afterMark ∧ token = .dual .exponent then
      Token.exponentMarks (rest.takeWhile Token.isAdditive) ++
        foldExponents true (rest.dropWhile Token.isAdditive)
    else token :: foldExponents token.isMark rest
termination_by tokens.length
decreasing_by
  · exact Nat.lt_succ_of_le (List.dropWhile_suffix _).length_le
  · exact Nat.lt_succ_self _

def closeNumeral (marks : List Mark) : Except Error (List Token) :=
  if marks = [] then .ok []
  else do return [.value (← Decimal.parse (marks.map Mark.char))]

def Token.settle : Token → Token
  | constant c => value c.value
  | token => token

/-- Reads the runs of marks; `marks` is the part of a run that has been seen. -/
def readNumerals (marks : List Mark) : List Token → Except Error (List Token)
  | [] => closeNumeral marks
  | .mark m :: rest => readNumerals (marks ++ [m]) rest
  | token :: rest => do
    let numeral ← closeNumeral marks
    let others ← readNumerals [] rest
    return numeral ++ token.settle :: others

/-- Makes a sign unary unless it directly follows a value or a trailing function. -/
def readSigns (afterOperand : Bool) : List Token → List Token
  | [] => []
  | .additive s :: rest =>
    (if afterOperand then .additive s else .unary (.sign s)) :: readSigns false rest
  | token :: rest => token :: readSigns token.endsOperand rest

end ScientificCalculator
