import ScientificCalculator.Decimal.Basic
import ScientificCalculator.Error

/-!
Numbers as they are typed: an optional minus sign, digits with at most one point among them, and an
optional exponent after the letter `e`. A text of another form is malformed; a text of this form
fails only if its exponent passes the greatest decimal order.
-/

namespace ScientificCalculator.Decimal

/-- The text before the first separator, and the text after it if there is one. -/
def cutAt (separator : Char) (text : List Char) : List Char × Option (List Char) :=
  match text.dropWhile (· ≠ separator) with
  | [] => (text, none)
  | _ :: rest => (text.takeWhile (· ≠ separator), some rest)

/-- Whether the text starts with a minus sign, and the text without it. -/
def takeMinus : List Char → Bool × List Char
  | '-' :: rest => (true, rest)
  | text => (false, text)

def withSign (negative : Bool) (n : Nat) : Int := if negative then -n else n

structure Literal where
  negative : Bool
  whole : List Char
  fraction : List Char
  exponent : Option (Bool × List Char)

def Literal.split (text : List Char) : Literal :=
  let (body, exponent) := cutAt 'e' text
  let (negative, unsigned) := takeMinus body
  let (whole, fraction) := cutAt '.' unsigned
  ⟨negative, whole, fraction.getD [], exponent.map takeMinus⟩

/-- At least one digit stands before the exponent, and an exponent has a digit of its own. -/
def Literal.WellFormed (parts : Literal) : Prop :=
  (parts.whole ≠ [] ∨ parts.fraction ≠ []) ∧ Digits parts.whole ∧ Digits parts.fraction ∧
    match parts.exponent with
    | none => True
    | some (_, digits) => digits ≠ [] ∧ Digits digits

instance (parts : Literal) : Decidable parts.WellFormed := by
  unfold Literal.WellFormed
  rcases parts.exponent with _ | ⟨_, _⟩ <;> infer_instance

def Literal.mantissa (parts : Literal) : Int :=
  withSign parts.negative (digitsValue (parts.whole ++ parts.fraction))

/-- The size of the typed exponent, zero if there is none. -/
def Literal.exponentSize (parts : Literal) : Nat :=
  match parts.exponent with
  | none => 0
  | some (_, digits) => digitsValue digits

def Literal.typedExponent (parts : Literal) : Int :=
  match parts.exponent with
  | none => 0
  | some (negative, digits) => withSign negative (digitsValue digits)

def Literal.value (parts : Literal) : Decimal :=
  ofParts parts.mantissa (parts.typedExponent - parts.fraction.length)

def parse (text : List Char) : Except Error Decimal :=
  let parts := Literal.split text
  if ¬ parts.WellFormed then .error (.malformedNumber (String.ofList text))
  else if maxOrder < parts.exponentSize then .error (.domain .exponentTooLarge)
  else .ok parts.value

end ScientificCalculator.Decimal
