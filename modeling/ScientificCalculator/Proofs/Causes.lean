import ScientificCalculator.Proofs.Canonical.Expression

/-!
The causes for which a group without parentheses has no value. Every function, operator and step of
the reduction has causes of its own, and none of them is a fault of the parentheses: those are only
looked at where groups open and close.
-/

namespace ScientificCalculator

/-- An error in which parentheses have no part. -/
def Error.WithinGroup (error : Error) : Prop := error ≠ .unbalancedParentheses

namespace Decimal

section Functions
variable (x y : Decimal)

theorem raises_divide : Raises Error.WithinGroup (x.divide y) := by
  unfold divide
  split
  · exact .ok _
  · exact .error nofun

theorem raises_reciprocal : Raises Error.WithinGroup x.reciprocal := raises_divide one x

theorem raises_overflow : Raises Error.WithinGroup (overflow : Except Error Decimal) :=
  .error nofun

theorem raises_parse (text : List Char) : Raises Error.WithinGroup (parse text) :=
  .ite (.error nofun) (.ite (.error nofun) (.ok _))

theorem raises_exp : Raises Error.WithinGroup x.exp := by
  refine .ite (.ok _) (.ite ?_ ?_)
  · exact .ite (.ok _) raises_overflow
  · exact .ite raises_overflow (.ite (.ok _) (.ok _))

theorem raises_ln : Raises Error.WithinGroup x.ln := .ite (.ok _) (.error nofun)

theorem raises_log10 : Raises Error.WithinGroup x.log10 := .ite (.ok _) (.error nofun)

theorem raises_tenPower : Raises Error.WithinGroup x.tenPower := by
  unfold tenPower
  split
  · exact .ite (.ok _) (.ite (.ok _) raises_overflow)
  · exact raises_exp _

theorem raises_timesTenPower : Raises Error.WithinGroup (x.timesTenPower y) := by
  have product : Raises Error.WithinGroup (do return x * (← y.tenPower)) :=
    .bind (raises_tenPower y) fun _ => .ok _
  unfold timesTenPower
  split
  · exact .ite (.ok _) product
  · exact product

theorem raises_integerPower (n : Int) : Raises Error.WithinGroup (integerPower x n) :=
  .ite raises_overflow (.ite (.ok _) (.ite (raises_reciprocal _) (.ok _)))

theorem raises_powerByLogarithm : Raises Error.WithinGroup (powerByLogarithm x y) :=
  .bind (raises_ln _) fun _ => .bind (raises_exp _) fun _ => .ok _

theorem raises_power : Raises Error.WithinGroup (x.power y) := by
  refine .ite (.ok _) (.ite (.ite (.error nofun) (.ok _)) (.ite (.error nofun) ?_))
  split
  · exact raises_integerPower _ _
  · exact raises_powerByLogarithm _ _

theorem raises_squareRoot : Raises Error.WithinGroup x.squareRoot :=
  .ite (.error nofun) (.ite (.ok _) (.ok _))

theorem raises_root : Raises Error.WithinGroup (x.root y) := by
  refine .bind (raises_reciprocal _) fun inverse => .ite (.error nofun) ?_
  split
  · exact raises_squareRoot _
  · exact .ok _
  · exact raises_power _ _

theorem raises_wholeNumber : Raises Error.WithinGroup x.wholeNumber := by
  refine .ite ?_ (.error nofun)
  split
  · exact .ok _
  · exact .error nofun

theorem raises_binomial (n r : Int) : Raises Error.WithinGroup (binomial n r) :=
  .ite (.error nofun) (.ite (.ok _) (.ite (.error nofun) (.ite (.ok _)
    (.ite (.error nofun) (.ok _)))))

theorem raises_combinations : Raises Error.WithinGroup (x.combinations y) :=
  .bind (raises_wholeNumber x) fun _ => .bind (raises_wholeNumber y) fun _ =>
    .bind (raises_binomial _ _) fun _ => .ok _

theorem raises_permutations : Raises Error.WithinGroup (x.permutations y) :=
  .bind (raises_wholeNumber x) fun _ => .bind (raises_wholeNumber y) fun _ =>
    .bind (raises_binomial _ _) fun _ => .ok _

theorem raises_factorial : Raises Error.WithinGroup x.factorial := by
  refine .ite (.error nofun) (.ite (.error nofun) ?_)
  split
  · exact .ite (.ok _) (.error nofun)
  · exact .error nofun

theorem raises_reducedAngle (unit : AngleUnit) :
    Raises Error.WithinGroup (reducedAngle unit x) := by
  refine .ite (.error nofun) ?_
  cases unit with
  | radians => exact .ok _
  | degrees => exact .ok _

theorem raises_withinUnit (fault : DomainFault) : Raises Error.WithinGroup (x.withinUnit fault) :=
  .ite (.error nofun) (.ok _)

end Functions

end Decimal

section Operators
variable (unit : AngleUnit) (x y : Decimal)

theorem raises_leadingFunction (f : LeadingFunction) :
    Raises Error.WithinGroup (f.apply unit x) := by
  open Decimal in
  cases f with
  | squareRoot => exact raises_squareRoot x
  | cubeRoot => exact .ok _
  | log10 => exact raises_log10 x
  | ln => exact raises_ln x
  | tenPower => exact raises_tenPower x
  | exp => exact raises_exp x
  | sin | cos => exact .bind (raises_reducedAngle x unit) fun _ => .ok _
  | tan => exact .bind (raises_reducedAngle x unit) fun _ => .ite (.error nofun) (.ok _)
  | asin | acos | atan => exact .bind (raises_withinUnit x _) fun _ => .ok _

theorem raises_unary (u : Unary) : Raises Error.WithinGroup (u.apply unit x) := by
  cases u with
  | sign s => exact .ok _
  | function f => exact raises_leadingFunction unit x f

theorem raises_trailingFunction (f : TrailingFunction) : Raises Error.WithinGroup (f.apply x) := by
  cases f with
  | square | cube => exact .ok _
  | factorial => exact Decimal.raises_factorial x
  | inverse => exact Decimal.raises_reciprocal x

theorem raises_dualOperator (o : DualOperator) : Raises Error.WithinGroup (o.apply x y) := by
  cases o with
  | power => exact Decimal.raises_power x y
  | root => exact Decimal.raises_root x y
  | exponent => exact Decimal.raises_timesTenPower x y
  | combination => exact Decimal.raises_combinations x y
  | permutation => exact Decimal.raises_permutations x y

theorem raises_multiplicative (o : Multiplicative) : Raises Error.WithinGroup (o.apply x y) := by
  cases o with
  | times => exact .ok _
  | divide => exact Decimal.raises_divide x y

end Operators

section Steps
open Reduction
variable {unit : AngleUnit}

theorem raises_missingOperand {α : Type} :
    Raises Error.WithinGroup (missingOperand : Except Error α) := .error nofun

theorem raises_closeNumeral (marks : List Mark) :
    Raises Error.WithinGroup (closeNumeral marks) :=
  .ite (.ok _) (.bind (Decimal.raises_parse _) fun _ => .ok _)

theorem raises_readNumerals (marks : List Mark) (tokens : List Token) :
    Raises Error.WithinGroup (readNumerals marks tokens) := by
  fun_induction readNumerals marks tokens with
  | case1 marks => exact raises_closeNumeral marks
  | case2 marks m rest ih => exact ih
  | case3 marks token rest _ ih =>
    exact .bind (raises_closeNumeral marks) fun _ => .bind ih fun _ => .ok _

theorem raises_applyTrailing (before : Option Token) (tokens : List Token) :
    Raises Error.WithinGroup (applyTrailing before tokens) := by
  fun_induction applyTrailing before tokens with
  | case1 before => exact .ok _
  | case2 f rest x ih => exact .bind (raises_trailingFunction x f) ih
  | case3 before f rest _ => exact raises_missingOperand
  | case4 before token rest _ ih => exact .bind ih fun _ => .ok _

theorem raises_takeOperand (tokens : List Token) :
    Raises Error.WithinGroup (takeOperand unit tokens) := by
  fun_induction takeOperand unit tokens with
  | case1 x rest => exact .ok _
  | case2 u rest ih => exact .bind ih fun _ => .bind (raises_unary unit _ u) fun _ => .ok _
  | case3 tokens _ _ => exact raises_missingOperand

theorem raises_applyDual (operator : DualOperator) (before : Token) (operand : Decimal) :
    Raises Error.WithinGroup (applyDual operator before operand) := by
  cases before with
  | value x => exact .bind (raises_dualOperator x operand operator) fun _ => .ok _
  | _ => exact raises_missingOperand

theorem raises_applyDuals (before : Option Token) (tokens : List Token) :
    Raises Error.WithinGroup (applyDuals unit before tokens) := by
  fun_induction applyDuals unit before tokens with
  | case1 before => exact .ok _
  | case2 o rest => exact raises_missingOperand
  | case3 o rest left e failed => exact .error (raises_takeOperand rest e failed)
  | case4 o rest left operand others _ ih => exact .bind (raises_applyDual o left operand) ih
  | case5 before token rest _ ih => exact .bind ih fun _ => .ok _

theorem raises_applyUnary (tokens : List Token) :
    Raises Error.WithinGroup (applyUnary unit tokens) := by
  fun_induction applyUnary unit tokens with
  | case1 => exact .ok _
  | case2 token => exact .ok _
  | case3 token rest _ ih =>
    refine .bind ih fun reduced => ?_
    split
    · exact .bind (raises_unary unit _ _) fun _ => .ok _
    · exact raises_missingOperand
    · exact .ok _

theorem raises_applyMultiplicative (before : Token) (tokens : List Token) :
    Raises Error.WithinGroup (applyMultiplicative before tokens) := by
  fun_induction applyMultiplicative before tokens with
  | case1 before => exact .ok _
  | case2 o rest x y ih => exact .bind (raises_multiplicative x y o) ih
  | case3 before o next rest _ => exact raises_missingOperand
  | case4 before token rest _ ih => exact .bind ih fun _ => .ok _

theorem raises_applyAdditive (before : Token) (tokens : List Token) :
    Raises Error.WithinGroup (applyAdditive before tokens) := by
  fun_induction applyAdditive before tokens with
  | case1 before => exact .ok _
  | case2 s x y others ih => exact ih
  | case3 before o rest _ => exact raises_missingOperand
  | case4 before token rest _ ih => exact .bind ih fun _ => .ok _

theorem raises_fromFirst {step : Token → List Token → Except Error (List Token)}
    (each : ∀ before tokens, Raises Error.WithinGroup (step before tokens))
    (tokens : List Token) : Raises Error.WithinGroup (fromFirst step tokens) := by
  cases tokens with
  | nil => exact .ok _
  | cons first rest => exact each first rest

theorem raises_product (tokens : List Token) : Raises Error.WithinGroup (product tokens) := by
  unfold product
  split
  · exact .error nofun
  · exact .error nofun
  · exact .ok _

/-- The reduction of a group never blames the parentheses. -/
theorem raises_reduce (tokens : List Token) : Raises Error.WithinGroup (reduce unit tokens) := by
  refine .bind (raises_readNumerals _ _) fun settled => ?_
  refine .bind (raises_applyTrailing _ _) fun trailed => ?_
  refine .bind (raises_applyDuals _ _) fun bound => ?_
  refine .bind (raises_applyUnary _) fun led => ?_
  refine .bind (raises_fromFirst raises_applyMultiplicative _) fun multiplied => ?_
  refine .bind (raises_fromFirst raises_applyAdditive _) fun added => ?_
  exact raises_product added

end Steps

end ScientificCalculator
