import ScientificCalculator.Expression.Reduction

/-!
The grammar of expressions without parentheses. A phrase is kept by its parts, from which both its
tokens and its tree are read. From the tightest level to the loosest stand atoms with trailing
functions, dual operators, signs and leading functions, products, sums, and sums side by side.
-/

namespace ScientificCalculator.Grammar

inductive UnaryOperation where
  | trailing (function : TrailingFunction)
  | leading (unary : Unary)

def UnaryOperation.apply (unit : AngleUnit) : UnaryOperation → Decimal → Except Error Decimal
  | trailing f, x => f.apply x
  | leading u, x => u.apply unit x

/-- Two values side by side are multiplied. -/
inductive BinaryOperation where
  | dual (operator : DualOperator)
  | multiplicative (operator : Multiplicative)
  | additive (sign : Sign)
  | juxtaposition

def BinaryOperation.apply : BinaryOperation → Decimal → Decimal → Except Error Decimal
  | dual o, x, y => o.apply x y
  | multiplicative o, x, y => o.apply x y
  | additive s, x, y => .ok (s.combine x y)
  | juxtaposition, x, y => .ok (x * y)

inductive Tree where
  | leaf (value : Decimal)
  | unary (operation : UnaryOperation) (operand : Tree)
  | binary (operation : BinaryOperation) (left right : Tree)

namespace Tree

def eval (unit : AngleUnit) : Tree → Except Error Decimal
  | leaf x => .ok x
  | unary f operand => do f.apply unit (← operand.eval unit)
  | binary o left right => do
    let x ← left.eval unit
    let y ← right.eval unit
    o.apply x y

/-- An operation of the tree whose operands have values returns this error. -/
def Fails (unit : AngleUnit) (error : Error) : Tree → Prop
  | leaf _ => False
  | unary f operand =>
    operand.Fails unit error ∨ ∃ x, operand.eval unit = .ok x ∧ f.apply unit x = .error error
  | binary o left right =>
    left.Fails unit error ∨ right.Fails unit error ∨
      ∃ x y, left.eval unit = .ok x ∧ right.eval unit = .ok y ∧ o.apply x y = .error error

theorem fails_of_eval {unit : AngleUnit} {tree : Tree} {error : Error}
    (failed : tree.eval unit = .error error) : tree.Fails unit error := by
  induction tree with
  | leaf x => cases failed
  | unary f operand ih =>
    rw [eval] at failed
    cases value : operand.eval unit with
    | error e =>
      rw [value] at failed
      cases failed
      exact .inl (ih value)
    | ok x =>
      rw [value] at failed
      exact .inr ⟨x, value, failed⟩
  | binary o left right first second =>
    rw [eval] at failed
    cases leftValue : left.eval unit with
    | error e =>
      rw [leftValue] at failed
      cases failed
      exact .inl (first leftValue)
    | ok x =>
      rw [leftValue] at failed
      cases rightValue : right.eval unit with
      | error e =>
        rw [rightValue] at failed
        cases failed
        exact .inr (.inl (second rightValue))
      | ok y =>
        rw [rightValue] at failed
        exact .inr (.inr ⟨x, y, leftValue, rightValue, failed⟩)

end Tree

/-- A value as it is typed. -/
inductive Atom where
  | value (value : Decimal)
  | constant (constant : Constant)

def Atom.token : Atom → Token
  | value x => .value x
  | constant c => .constant c

def Atom.denotation : Atom → Decimal
  | value x => x
  | constant c => c.value

/-- A key before its operand: one that is always unary, or a sign without an operand before it. -/
inductive Lead where
  | unary (unary : Unary)
  | sign (sign : Sign)

def Lead.token : Lead → Token
  | unary u => .unary u
  | sign s => .additive s

def Lead.operation : Lead → Unary
  | unary u => u
  | sign s => .sign s

def Lead.isSign : Lead → Bool
  | unary _ => false
  | sign _ => true

structure Primary where
  atom : Atom
  functions : List TrailingFunction

structure Prefixed (α : Type) where
  run : List Lead
  phrase : α

/-- A phrase and the operands joined to it one after the other. -/
structure Chain (α ω β : Type) where
  first : α
  others : List (ω × β)

/-- The right operand of a dual operator takes the signs and functions between the two. -/
abbrev Tight := Chain Primary DualOperator (Prefixed Primary)

/-- Other signs and functions apply to the whole of a chain of dual operators. -/
abbrev Factor := Prefixed Tight

abbrev Term := Chain Factor Multiplicative Factor

abbrev Sum := Chain Term Sign Term

/-- A sum that follows another one directly; a sign at its head would have joined the two. -/
abbrev LaterSum := { sum : Sum // sum.first.first.run.head?.any Lead.isSign = false }

/-- Sums side by side. -/
abbrev Sentence := Chain Sum Unit LaterSum

section Text
variable {α ω β : Type}

def Primary.text (atom : Atom → Token) (primary : Primary) : List Token :=
  atom primary.atom :: primary.functions.map .trailing

def Prefixed.text (lead : Lead → Token) (phrase : α → List Token) (prefixed : Prefixed α) :
    List Token :=
  prefixed.run.map lead ++ phrase prefixed.phrase

def Chain.text (head : α → List Token) (operator : ω → List Token) (operand : β → List Token)
    (chain : Chain α ω β) : List Token :=
  head chain.first ++ chain.others.flatMap fun other => operator other.1 ++ operand other.2

def Tight.text (lead : Lead → Token) (primary : Primary → List Token) : Tight → List Token :=
  Chain.text primary (fun operator => [.dual operator]) (Prefixed.text lead primary)

def Term.text (factor : Factor → List Token) : Term → List Token :=
  Chain.text factor (fun operator => [.multiplicative operator]) factor

def Sum.text (term : Term → List Token) : Sum → List Token :=
  Chain.text term (fun sign => [.additive sign]) term

def Sentence.text (sum : Sum → List Token) : Sentence → List Token :=
  Chain.text sum (fun _ => []) (fun later => sum later.1)

/-- The tokens from which a sentence is read. -/
def Sentence.tokens : Sentence → List Token :=
  Sentence.text <| Sum.text <| Term.text <| Prefixed.text Lead.token <| Tight.text Lead.token <|
    Primary.text Atom.token

end Text

section Trees
variable {α ω β : Type}

def Primary.tree (primary : Primary) : Tree :=
  primary.functions.foldl (fun operand f => .unary (.trailing f) operand)
    (.leaf primary.atom.denotation)

/-- The operation nearest to the operand comes first. -/
def Prefixed.tree (phrase : α → Tree) (prefixed : Prefixed α) : Tree :=
  prefixed.run.foldr (fun lead operand => .unary (.leading lead.operation) operand)
    (phrase prefixed.phrase)

/-- The operators come from left to right. -/
def Chain.tree (head : α → Tree) (operator : ω → BinaryOperation) (operand : β → Tree)
    (chain : Chain α ω β) : Tree :=
  chain.others.foldl (fun left other => .binary (operator other.1) left (operand other.2))
    (head chain.first)

def Tight.tree : Tight → Tree := Chain.tree Primary.tree .dual (Prefixed.tree Primary.tree)

def Factor.tree : Factor → Tree := Prefixed.tree Tight.tree

def Term.tree : Term → Tree := Chain.tree Factor.tree .multiplicative Factor.tree

def Sum.tree : Sum → Tree := Chain.tree Term.tree .additive Term.tree

def Sentence.tree : Sentence → Tree :=
  Chain.tree Sum.tree (fun _ => .juxtaposition) (fun later => Sum.tree later.1)

end Trees

end ScientificCalculator.Grammar
