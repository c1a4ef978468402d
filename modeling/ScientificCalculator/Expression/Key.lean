import ScientificCalculator.Expression.Token

/-!
The keys of the calculator: the identifier by which a key is sent, the label under which it is shown
in the entry, and the token it makes. Identifiers are told apart exactly; a text that is no
identifier is reported and otherwise without effect.
-/

namespace ScientificCalculator

inductive Key where
  | mark (mark : Mark)
  | pi
  | answer
  | recalled
  | additive (sign : Sign)
  | dual (operator : DualOperator)
  | opening
  | closing
  | sign (sign : Sign)
  | leading (function : LeadingFunction)
  | trailing (function : TrailingFunction)
  | multiplicative (operator : Multiplicative)
  | memory (operation : MemoryOperation)
  deriving DecidableEq

/-- The numbers kept between calculations. -/
structure Registers where
  memory : Decimal
  answer : Decimal
  deriving DecidableEq

namespace Key

def identifier : Key → String
  | mark m => String.ofList ['#', m.char]
  | pi => "pi"
  | answer => "ANS"
  | recalled => "RCL"
  | additive .plus => "+"
  | additive .minus => "-"
  | dual .exponent => "E"
  | dual .power => "^"
  | dual .combination => "C"
  | dual .permutation => "P"
  | dual .root => "root"
  | opening => "("
  | closing => ")"
  | sign .plus => "u+"
  | sign .minus => "u-"
  | leading .squareRoot => "sqrt"
  | leading .cubeRoot => "cbrt"
  | leading .log10 => "log"
  | leading .ln => "ln"
  | leading .tenPower => "tenX"
  | leading .exp => "exp"
  | leading .sin => "sin"
  | leading .cos => "cos"
  | leading .tan => "tan"
  | leading .asin => "asin"
  | leading .acos => "acos"
  | leading .atan => "atan"
  | trailing .square => "2"
  | trailing .cube => "3"
  | trailing .factorial => "!"
  | trailing .inverse => "inv"
  | multiplicative .times => "*"
  | multiplicative .divide => "/"
  | memory .store => "STO"
  | memory .add => "M+"
  | memory .subtract => "M-"
  | memory .clear => "MCL"

/-- The text of a key in the entry; a name is followed by a space. -/
def label : Key → String
  | mark m => String.singleton m.char
  | pi => "π"
  | answer => "Ans"
  | recalled => "RCL"
  | additive .plus => "+"
  | additive .minus => "−"
  | dual .exponent => "E"
  | dual .power => "^"
  | dual .combination => "C"
  | dual .permutation => "P"
  | dual .root => "ˣ√"
  | opening => "("
  | closing => ")"
  | sign .plus => "+"
  | sign .minus => "−"
  | leading .squareRoot => "√"
  | leading .cubeRoot => "∛"
  | leading .log10 => "log "
  | leading .ln => "ln "
  | leading .tenPower => "10^"
  | leading .exp => "exp "
  | leading .sin => "sin "
  | leading .cos => "cos "
  | leading .tan => "tan "
  | leading .asin => "asin "
  | leading .acos => "acos "
  | leading .atan => "atan "
  | trailing .square => "²"
  | trailing .cube => "³"
  | trailing .factorial => "!"
  | trailing .inverse => "⁻¹"
  | multiplicative .times => "×"
  | multiplicative .divide => "÷"
  | memory .store => "STO "
  | memory .add => "M+ "
  | memory .subtract => "M− "
  | memory .clear => "MCL "

def all : List Key :=
  (List.finRange 10).map (fun value => mark (.digit value)) ++
    [.mark .point, .mark .exponent, .mark .minus, .pi, .answer, .recalled, .additive .plus,
      .additive .minus, .dual .exponent, .dual .power, .dual .combination, .dual .permutation,
      .dual .root, .opening, .closing, .sign .plus, .sign .minus, .leading .squareRoot,
      .leading .cubeRoot, .leading .log10, .leading .ln, .leading .tenPower, .leading .exp,
      .leading .sin, .leading .cos, .leading .tan, .leading .asin, .leading .acos, .leading .atan,
      .trailing .square, .trailing .cube, .trailing .factorial, .trailing .inverse,
      .multiplicative .times, .multiplicative .divide, .memory .store, .memory .add,
      .memory .subtract, .memory .clear]

def ofIdentifier? (identifier : String) : Option Key :=
  all.find? fun key => key.identifier = identifier

theorem mem_all (key : Key) : key ∈ all := by
  cases key with
  | mark m => cases m <;> simp [all]
  | additive s => cases s <;> simp [all]
  | dual o => cases o <;> simp [all]
  | sign s => cases s <;> simp [all]
  | leading f => cases f <;> simp [all]
  | trailing f => cases f <;> simp [all]
  | multiplicative o => cases o <;> simp [all]
  | memory o => cases o <;> simp [all]
  | _ => simp [all]

theorem identifier_injective {first second : Key} (same : first.identifier = second.identifier) :
    first = second := by
  have distinct : ∀ a ∈ all, ∀ b ∈ all, a.identifier = b.identifier → a = b := by decide +kernel
  exact distinct first (mem_all first) second (mem_all second) same

theorem identifier_of_ofIdentifier? {identifier : String} {key : Key}
    (found : ofIdentifier? identifier = some key) : key.identifier = identifier := by
  have same := List.find?_some found
  simpa using same

theorem ofIdentifier?_identifier (key : Key) : ofIdentifier? key.identifier = some key := by
  cases found : ofIdentifier? key.identifier with
  | none =>
    have absent := List.find?_eq_none.1 found key (mem_all key)
    simp at absent
  | some other => rw [identifier_injective (identifier_of_ofIdentifier? found)]

def label? (identifier : String) : Option String := (ofIdentifier? identifier).map label

def token (registers : Registers) : Key → Token
  | mark m => .mark m
  | pi => .constant .pi
  | answer => .constant (.answer registers.answer)
  | recalled => .constant (.recalled registers.memory)
  | additive s => .additive s
  | dual o => .dual o
  | opening => .opening
  | closing => .closing
  | sign s => .unary (.sign s)
  | leading f => .unary (.function f)
  | trailing f => .trailing f
  | multiplicative o => .multiplicative o
  | memory o => .memory o

end Key

/-- The identifiers of a sequence sent as one text, with a semicolon after each. -/
def splitIdentifiers (sent : String) : List String := (sent.splitOn ";").filter (· ≠ "")

def Token.ofIdentifier? (registers : Registers) (identifier : String) : Option Token :=
  (Key.ofIdentifier? identifier).map (Key.token registers)

/-- The tokens of the identifiers that name a key, in their order. -/
def assemble (registers : Registers) (identifiers : List String) : List Token :=
  identifiers.filterMap (Token.ofIdentifier? registers)

/-- The identifiers that name no key, other than empty ones. -/
def ignoredIdentifiers (identifiers : List String) : List String :=
  identifiers.filter fun identifier => identifier ≠ "" ∧ Key.ofIdentifier? identifier = none

end ScientificCalculator
