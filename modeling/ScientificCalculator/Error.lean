import ScientificCalculator.Text.Quoted

/-!
The causes for which a calculation has no result, and the sentence shown for each. A cause carries
no wording of its own, so a statement about failure never depends on the language of the messages.
-/

namespace ScientificCalculator

/-- An operand outside the domain of an operation, or a result outside the numbers held. -/
inductive DomainFault where
  | overflow
  | exponentTooLarge
  | integerTooLarge
  | naturalLogarithm
  | decimalLogarithm
  | fractionalPowerOfNegative
  | squareRootOfNegative
  | rootOfNegative
  | factorialOfNegative
  | combinationsOfNegative
  | combinationsTooLarge
  | angleTooLarge
  | undefinedTangent
  | arcsineArgument
  | arccosineArgument
  | arctangentArgument
  deriving DecidableEq

def DomainFault.reason : DomainFault → String
  | overflow => "dépassement de capacité"
  | exponentTooLarge => "exposant trop grand"
  | integerTooLarge => "entier trop grand"
  | naturalLogarithm => "ln d’un nombre ≤ 0"
  | decimalLogarithm => "log d’un nombre ≤ 0"
  | fractionalPowerOfNegative => "puissance non entière d’un nombre négatif"
  | squareRootOfNegative => "racine carrée d’un nombre négatif"
  | rootOfNegative => "racine d’un nombre négatif"
  | factorialOfNegative => "factorielle d’un nombre négatif"
  | combinationsOfNegative => "combinatoire avec n négatif"
  | combinationsTooLarge => "combinatoire trop grande"
  | angleTooLarge => "angle trop grand"
  | undefinedTangent => "tangente indéfinie"
  | arcsineArgument => "arc sinus hors de [-1, 1]"
  | arccosineArgument => "arc cosinus hors de [-1, 1]"
  | arctangentArgument => "arc tangente hors de [-1, 1]"

/-- A token sequence that is not an expression. -/
inductive ExpressionFault where
  | missingOperand
  | loneOperator
  | empty
  | emptyParentheses
  | memoryKeyNotFirst
  deriving DecidableEq

def ExpressionFault.reason : ExpressionFault → String
  | missingOperand => "opérande manquant"
  | loneOperator => "opérateur sans opérande"
  | empty => "expression vide"
  | emptyParentheses => "parenthèses vides"
  | memoryKeyNotFirst => "touche mémoire hors de la tête"

inductive Error where
  | unbalancedParentheses
  | domain (fault : DomainFault)
  | notInteger
  | malformedNumber (text : String)
  | divisionByZero
  | malformedExpression (fault : ExpressionFault)
  | doesNotFit (width : Nat)
  deriving DecidableEq

def Error.message : Error → String
  | unbalancedParentheses => "erreur de parenthèses"
  | domain fault => "hors domaine : " ++ fault.reason
  | notInteger => "erreur : argument non entier"
  | malformedNumber text => "nombre mal formé : " ++ Text.quoted text
  | divisionByZero => "division par zéro"
  | malformedExpression fault => "expression invalide : " ++ fault.reason
  | doesNotFit width =>
    "affichage impossible sur " ++ String.ofList (Nat.toDigits 10 width) ++ " caractères"

end ScientificCalculator
