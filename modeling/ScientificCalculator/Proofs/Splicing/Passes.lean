import ScientificCalculator.Proofs.Splicing.Program

/-!
The passes of a reduction as programs that change the list of tokens in place. A pass keeps an index
into the list; an operator at the index is spliced together with its operands, which are sought
beside it, and the pass goes on at the same index. What an operator does to its operands is left
open; with the operations of the calculator, the passes over trailing functions, products and sums
have the result of the reduction's functions on lists.
-/

namespace ScientificCalculator

/-- What the tokens between operands do to them. An operation that does not return is none. -/
structure Operators where
  unary : Unary → Decimal → Option (Except Error Decimal)
  trailing : TrailingFunction → Decimal → Option (Except Error Decimal)
  dual : DualOperator → Decimal → Decimal → Option (Except Error Decimal)
  multiplicative : Multiplicative → Decimal → Decimal → Option (Except Error Decimal)
  additive : Sign → Decimal → Decimal → Option (Except Error Decimal)

/-- The operations that a reduction applies. -/
def Operators.of (unit : AngleUnit) : Operators where
  unary u x := some (u.apply unit x)
  trailing f x := some (f.apply x)
  dual o x y := some (o.apply x y)
  multiplicative o x y := some (o.apply x y)
  additive s x y := some (.ok (s.combine x y))

namespace Token

def isUnary : Token → Bool
  | unary _ => true
  | _ => false

def applyUnary (operators : Operators) : Token → Decimal → Option (Except Error Decimal)
  | unary u, x => operators.unary u x
  | _, _ => some missingOperand

def trailing? : Token → Option TrailingFunction
  | trailing f => some f
  | _ => none

def dual? : Token → Option DualOperator
  | dual o => some o
  | _ => none

def multiplicative? : Token → Option Multiplicative
  | multiplicative o => some o
  | _ => none

def additive? : Token → Option Sign
  | additive s => some s
  | _ => none

theorem trailing?_eq_none {token : Token} (other : ∀ f, token ≠ .trailing f) :
    token.trailing? = none := by
  cases token with
  | trailing f => exact absurd rfl (other f)
  | _ => rfl

theorem dual?_eq_none {token : Token} (other : ∀ o, token ≠ .dual o) : token.dual? = none := by
  cases token with
  | dual o => exact absurd rfl (other o)
  | _ => rfl

theorem multiplicative?_eq_none {token : Token} (other : ∀ o, token ≠ .multiplicative o) :
    token.multiplicative? = none := by
  cases token with
  | multiplicative o => exact absurd rfl (other o)
  | _ => rfl

theorem additive?_eq_none {token : Token} (other : ∀ s, token ≠ .additive s) :
    token.additive? = none := by
  cases token with
  | additive s => exact absurd rfl (other s)
  | _ => rfl

end Token

namespace Splice
open Program

/-- A list of tokens and the index up to which a pass has come. -/
structure Cursor where
  tokens : List Token
  index : Nat

/-- One round of a pass: the token at the index is replaced together with its operands, or the index
moves on. The pass ends `margin` tokens before the end of the list. -/
def passStep {ω : Type} (margin : Nat) (select : Token → Option ω)
    (splice : ω → Nat → List Token → Program (List Token)) (cursor : Cursor) :
    Program (Cursor ⊕ List Token) :=
  if cursor.index + margin < cursor.tokens.length then do
    match select (← read cursor.tokens cursor.index) with
    | some found => return .inl ⟨← splice found cursor.index cursor.tokens, cursor.index⟩
    | none => return .inl ⟨cursor.tokens, cursor.index + 1⟩
  else return .inr cursor.tokens

def spliceTrailing (operators : Operators) (f : TrailingFunction) (i : Nat)
    (tokens : List Token) : Program (List Token) :=
  if i = 0 then calculate missingOperand
  else do
    let left ← previous i
    let x ← operand tokens left
    let y ← perform (operators.trailing f x)
    let tokens ← write tokens left (.value y)
    remove tokens i

/-- Replaces an operator and the values beside it by its result. -/
def spliceBinary (apply : Decimal → Decimal → Option (Except Error Decimal)) (i : Nat)
    (tokens : List Token) : Program (List Token) := do
  let left ← previous i
  let x ← operand tokens left
  let y ← operand tokens (i + 1)
  let z ← perform (apply x y)
  let tokens ← write tokens left (.value z)
  let (_, tokens) ← drain tokens i (i + 2)
  return tokens

/-- Replaces a sign or function and the value after it by its result. -/
def spliceUnary (operators : Operators) (i : Nat) (tokens : List Token) :
    Program (List Token) := do
  let token ← read tokens i
  let x ← operand tokens (i + 1)
  let y ← perform (token.applyUnary operators x)
  let tokens ← write tokens i (.value y)
  remove tokens (i + 1)

/-- Looks for the end of a run of signs and functions. -/
def runStep (tokens : List Token) (last : Nat) : Program (Nat ⊕ Nat) :=
  if (tokens[last]?).any Token.isUnary then return .inl (last + 1) else return .inr last

/-- The run of signs and functions to the right of the operator is applied first. -/
noncomputable def spliceDual (operators : Operators) (o : DualOperator) (i : Nat)
    (tokens : List Token) : Program (List Token) :=
  if i = 0 then calculate missingOperand
  else do
    let last ← iterate (runStep tokens) (i + 1)
    let tokens ← descend (spliceUnary operators) (i + 1) (last - (i + 1)) tokens
    spliceBinary (operators.dual o) i tokens

def trailingStep (operators : Operators) : Cursor → Program (Cursor ⊕ List Token) :=
  passStep 0 Token.trailing? (spliceTrailing operators)

noncomputable def dualStep (operators : Operators) : Cursor → Program (Cursor ⊕ List Token) :=
  passStep 0 Token.dual? (spliceDual operators)

def multiplicativeStep (operators : Operators) : Cursor → Program (Cursor ⊕ List Token) :=
  passStep 1 Token.multiplicative? fun o => spliceBinary (operators.multiplicative o)

def additiveStep (operators : Operators) : Cursor → Program (Cursor ⊕ List Token) :=
  passStep 0 Token.additive? fun s => spliceBinary (operators.additive s)

def followsOperand (tokens : List Token) (i : Nat) : Program Bool :=
  if 0 < i then do
    let before ← read tokens (← previous i)
    return before.endsOperand
  else return false

/-- Makes the sign at an index unary unless it follows an operand. -/
def settleSign (i : Nat) (tokens : List Token) : Program (List Token) := do
  match ← read tokens i with
  | .additive s =>
    if ← followsOperand tokens i then return tokens else write tokens i (.unary (.sign s))
  | _ => return tokens

def settleSigns (tokens : List Token) : Program (List Token) :=
  descend settleSign 0 tokens.length tokens

def settleUnary (operators : Operators) (i : Nat) (tokens : List Token) :
    Program (List Token) := do
  if (← read tokens i).isUnary then spliceUnary operators i tokens else return tokens

/-- The indices are fixed before any token is removed. -/
def sweepUnary (operators : Operators) (tokens : List Token) : Program (List Token) :=
  if tokens.length < 2 then return tokens
  else do
    let count ← previous tokens.length
    descend (settleUnary operators) 0 count tokens

/-- Takes the sign keys after an exponent key; the exponent is negative after an odd number of minus
keys. -/
def signRunStep : List Token × Bool → Program ((List Token × Bool) ⊕ (List Token × Bool))
  | (.additive s :: rest, negative) => return .inl (rest, negative ^^ decide (s = .minus))
  | (rest, negative) => return .inr (rest, negative)

/-- Moves the next token, or an exponent key after a mark with its signs, behind those read. -/
noncomputable def exponentStep :
    List Token × List Token → Program ((List Token × List Token) ⊕ List Token)
  | ([], moved) => return .inr moved
  | (token :: rest, moved) =>
    if token ≠ .dual .exponent ∨ ¬ moved.getLast?.any Token.isMark then
      return .inl (rest, moved ++ [token])
    else do
      let (rest, negative) ← iterate signRunStep (rest, false)
      return .inl (rest, moved ++ .mark .exponent :: if negative then [.mark .minus] else [])

noncomputable def reduce (operators : Operators) (tokens : List Token) : Program Decimal := do
  let tokens ← iterate exponentStep (tokens, [])
  let tokens ← calculate (readNumerals [] tokens)
  let tokens ← settleSigns tokens
  let tokens ← iterate (trailingStep operators) ⟨tokens, 0⟩
  let tokens ← iterate (dualStep operators) ⟨tokens, 0⟩
  let tokens ← sweepUnary operators tokens
  let tokens ← iterate (multiplicativeStep operators) ⟨tokens, 1⟩
  let tokens ← iterate (additiveStep operators) ⟨tokens, 1⟩
  calculate (Reduction.product tokens)

section Pass
variable {ω : Type} {margin i : Nat} {select : Token → Option ω}
  {splice : ω → Nat → List Token → Program (List Token)} {tokens before after : List Token}
  {token next : Token}

theorem passStep_append (place : before.length = i) (inside : margin ≤ after.length) :
    passStep margin select splice ⟨before ++ token :: after, i⟩ =
      match select token with
      | some found => (fun tokens => .inl ⟨tokens, i⟩) <$> splice found i (before ++ token :: after)
      | none => pure (.inl ⟨before ++ token :: after, i + 1⟩) := by
  have within : i + margin < (before ++ token :: after).length := by
    simp only [List.length_append, List.length_cons]
    omega
  rw [passStep]
  simp only [if_pos within, read_append place, pure_bind]
  cases select token with
  | none => rfl
  | some found => exact (map_eq_pure_bind _ _).symm

/-- A token that the pass does not look for is passed over. -/
theorem iterate_skip (place : before.length = i) (inside : margin ≤ after.length)
    (other : select token = none) :
    iterate (passStep margin select splice) ⟨before ++ token :: after, i⟩ =
      iterate (passStep margin select splice) ⟨before ++ token :: after, i + 1⟩ := by
  apply iterate_next
  rw [passStep_append place inside, other]

theorem iterate_found {found : ω} (place : before.length = i) (inside : margin ≤ after.length)
    (selected : select token = some found) :
    iterate (passStep margin select splice) ⟨before ++ token :: after, i⟩ = (do
      let tokens ← splice found i (before ++ token :: after)
      iterate (passStep margin select splice) ⟨tokens, i⟩) := by
  rw [iterate_eq, passStep_append place inside, selected]
  exact bind_map_left _ _ _

theorem iterate_skip_first (inside : margin ≤ after.length) (other : select token = none) :
    iterate (passStep margin select splice) ⟨token :: after, 0⟩ =
      iterate (passStep margin select splice) ⟨token :: after, 1⟩ :=
  iterate_skip (List.length_nil : ([] : List Token).length = 0) inside other

theorem iterate_found_first {found : ω} (inside : margin ≤ after.length)
    (selected : select token = some found) :
    iterate (passStep margin select splice) ⟨token :: after, 0⟩ = (do
      let tokens ← splice found 0 (token :: after)
      iterate (passStep margin select splice) ⟨tokens, 0⟩) :=
  iterate_found (List.length_nil : ([] : List Token).length = 0) inside selected

theorem iterate_spliced {found : ω} (inside : margin ≤ after.length)
    (selected : select next = some found) :
    iterate (passStep margin select splice) ⟨before ++ token :: next :: after, before.length + 1⟩ =
      (do
        let tokens ← splice found (before.length + 1) (before ++ token :: next :: after)
        iterate (passStep margin select splice) ⟨tokens, before.length + 1⟩) := by
  rw [List.append_cons]
  exact iterate_found (length_snoc before token) inside selected

/-- A token that a pass moves over stands in front of what the pass does to the others. -/
theorem iterate_passed {result : Except Error (List Token)}
    (later : iterate (passStep margin select splice)
        ⟨before ++ [token] ++ next :: after, (before ++ [token]).length + 1⟩ =
      (before ++ [token] ++ ·) <$> calculate result)
    (inside : margin ≤ after.length) (other : select next = none) :
    iterate (passStep margin select splice) ⟨before ++ token :: next :: after, before.length + 1⟩ =
      (before ++ ·) <$> calculate (do return token :: (← result)) := by
  rw [length_snoc] at later
  rw [List.append_cons, iterate_skip (length_snoc before token) inside other, later]
  cases result with
  | error e => rfl
  | ok others => exact congrArg (pure : _ → Program _) (List.append_cons before token others).symm

theorem iterate_end (ends : tokens.length ≤ i + margin) :
    iterate (passStep margin select splice) ⟨tokens, i⟩ = pure tokens := by
  apply iterate_done
  rw [passStep, if_neg (Nat.not_lt.2 ends)]

end Pass

variable {unit : AngleUnit}

theorem spliceTrailing_value (operators : Operators) (f : TrailingFunction)
    (before after : List Token) (x : Decimal) (other : Token) :
    spliceTrailing operators f (before.length + 1) (before ++ .value x :: other :: after) =
      (fun y => before ++ .value y :: after) <$> perform (operators.trailing f x) := by
  rw [spliceTrailing, if_neg (Nat.succ_ne_zero _), previous_succ, pure_bind, operand_append rfl,
    pure_bind, map_eq_pure_bind]
  refine bind_congr fun y => ?_
  rw [write_append rfl, pure_bind, List.append_cons, remove_append (length_snoc _ _),
    ← List.append_cons]

theorem spliceTrailing_missing (operators : Operators) (f : TrailingFunction)
    (before after : List Token) {token : Token} (missing : ∀ x, token ≠ .value x) :
    spliceTrailing operators f (before.length + 1) (before ++ token :: after) =
      calculate missingOperand := by
  rw [spliceTrailing, if_neg (Nat.succ_ne_zero _), previous_succ, pure_bind,
    operand_missing_cons rfl missing]
  rfl

section Binary
variable (apply : Decimal → Decimal → Option (Except Error Decimal))

theorem spliceBinary_values (before after : List Token) (x y : Decimal) (other : Token) :
    spliceBinary apply (before.length + 1) (before ++ .value x :: other :: .value y :: after) =
      (fun z => before ++ .value z :: after) <$> perform (apply x y) := by
  have apart : before ++ .value x :: other :: .value y :: after =
      (before ++ [.value x, other]) ++ .value y :: after := by simp
  have place : (before ++ [.value x, other]).length = before.length + 1 + 1 := List.length_append
  rw [spliceBinary, previous_succ, pure_bind, operand_append rfl, pure_bind, apart,
    operand_append place, pure_bind, ← apart, map_eq_pure_bind]
  refine bind_congr fun z => ?_
  have pieces : before ++ .value z :: other :: .value y :: after =
      (before ++ [.value z]) ++ ([other, .value y] ++ after) := by simp
  have size : before.length + 1 + [other, .value y].length = before.length + 1 + 2 := rfl
  rw [write_append rfl, pure_bind, pieces, drain_append (length_snoc _ _) size, pure_bind,
    ← List.append_cons]

theorem spliceBinary_missing (before after : List Token) {left other : Token}
    (missing : ∀ x y, left = .value x → after.head? ≠ some (.value y)) :
    spliceBinary apply (before.length + 1) (before ++ left :: other :: after) =
      calculate missingOperand := by
  rw [spliceBinary, previous_succ, pure_bind]
  by_cases value : ∃ x, left = .value x
  · obtain ⟨x, rfl⟩ := value
    have place : (before ++ [.value x, other]).length = before.length + 1 + 1 := List.length_append
    have apart : before ++ .value x :: other :: after =
        (before ++ [.value x, other]) ++ after := by simp
    rw [operand_append rfl, pure_bind, apart, operand_missing place fun y => missing x y rfl]
    rfl
  · rw [operand_missing_cons rfl fun x same => value ⟨x, same⟩]
    rfl

end Binary

theorem iterate_trailing (before : List Token) (token : Token) (rest : List Token) :
    iterate (trailingStep (.of unit)) ⟨before ++ token :: rest, before.length + 1⟩ =
      (before ++ ·) <$> calculate (Reduction.applyTrailing (some token) rest) := by
  induction rest generalizing before token with
  | nil => exact iterate_end (by simp)
  | cons next rest ih =>
    by_cases trails : ∃ f, next = .trailing f
    · obtain ⟨f, rfl⟩ := trails
      rw [trailingStep, iterate_spliced (Nat.zero_le _)
        (show Token.trailing? (.trailing f) = some f from rfl)]
      by_cases value : ∃ x, token = .value x
      · obtain ⟨x, rfl⟩ := value
        rw [spliceTrailing_value, bind_map_left, Reduction.applyTrailing, calculate_bind, map_bind]
        exact bind_congr fun y => ih before (.value y)
      · have missing : ∀ x, token ≠ .value x := fun x same => value ⟨x, same⟩
        rw [spliceTrailing_missing _ f before _ missing, Reduction.applyTrailing]
        · rfl
        · exact fun x same => missing x (Option.some.inj same)
    · have other : ∀ f, next ≠ .trailing f := fun f same => trails ⟨f, same⟩
      rw [Reduction.applyTrailing]
      · exact iterate_passed (ih (before ++ [token]) next) (Nat.zero_le _)
          (Token.trailing?_eq_none other)
      · exact other

theorem iterate_trailing_start (tokens : List Token) :
    iterate (trailingStep (.of unit)) ⟨tokens, 0⟩ =
      calculate (Reduction.applyTrailing none tokens) := by
  cases tokens with
  | nil => exact iterate_end (Nat.le_refl _)
  | cons first rest =>
    by_cases trails : ∃ f, first = .trailing f
    · obtain ⟨f, rfl⟩ := trails
      exact iterate_found_first (Nat.zero_le _)
        (show Token.trailing? (.trailing f) = some f from rfl)
    · have other : ∀ f, first ≠ .trailing f := fun f same => trails ⟨f, same⟩
      rw [trailingStep, iterate_skip_first (Nat.zero_le _) (Token.trailing?_eq_none other),
        Reduction.applyTrailing]
      · exact (iterate_trailing [] first rest).trans (by simp)
      · exact other

/-- What a pass from the second token on does is what it does after the first one. -/
theorem iterate_fromFirst {step : Cursor → Program (Cursor ⊕ List Token)}
    {apply : Token → List Token → Except Error (List Token)}
    (steps : ∀ before token rest,
      iterate step ⟨before ++ token :: rest, before.length + 1⟩ =
        (before ++ ·) <$> calculate (apply token rest))
    (empty : iterate step ⟨[], 1⟩ = pure []) (tokens : List Token) :
    iterate step ⟨tokens, 1⟩ = calculate (Reduction.fromFirst apply tokens) := by
  cases tokens with
  | nil => exact empty
  | cons first rest => exact (steps [] first rest).trans (by simp [Reduction.fromFirst])

theorem iterate_multiplicative (before : List Token) (token : Token) (rest : List Token) :
    iterate (multiplicativeStep (.of unit)) ⟨before ++ token :: rest, before.length + 1⟩ =
      (before ++ ·) <$> calculate (Reduction.applyMultiplicative token rest) := by
  -- An operator takes its second operand away, so the list after it is not the next tail.
  induction size : rest.length using Nat.strongRecOn generalizing before token rest with
  | _ count ih =>
  subst size
  match rest with
  | [] => exact iterate_end (by simp)
  | [next] =>
    rw [Reduction.applyMultiplicative]
    · exact iterate_end (by simp)
    · exact fun _ _ _ _ => nofun
  | next :: after :: rest =>
    by_cases operator : ∃ o, next = .multiplicative o
    · obtain ⟨o, rfl⟩ := operator
      rw [multiplicativeStep, iterate_spliced (Nat.le_add_left 1 _)
        (show Token.multiplicative? (.multiplicative o) = some o from rfl)]
      by_cases values : ∃ x y, token = .value x ∧ after = .value y
      · obtain ⟨x, y, rfl, rfl⟩ := values
        rw [spliceBinary_values, bind_map_left, Reduction.applyMultiplicative, calculate_bind,
          map_bind]
        exact bind_congr fun z =>
          ih _ (Nat.lt_succ_of_lt (Nat.lt_succ_self _)) before (.value z) rest rfl
      · rw [spliceBinary_missing, Reduction.applyMultiplicative]
        · rfl
        · exact fun x y left right => values ⟨x, y, left, right⟩
        · exact fun x y left right => values ⟨x, y, left, Option.some.inj right⟩
    · have later := ih _ (Nat.lt_succ_self _) (before ++ [token]) next (after :: rest) rfl
      rw [Reduction.applyMultiplicative]
      · exact iterate_passed later (Nat.le_add_left 1 _)
          (Token.multiplicative?_eq_none fun o same => operator ⟨o, same⟩)
      · exact fun o _ _ same _ => operator ⟨o, same⟩

theorem iterate_additive (before : List Token) (token : Token) (rest : List Token) :
    iterate (additiveStep (.of unit)) ⟨before ++ token :: rest, before.length + 1⟩ =
      (before ++ ·) <$> calculate (Reduction.applyAdditive token rest) := by
  induction size : rest.length using Nat.strongRecOn generalizing before token rest with
  | _ count ih =>
  subst size
  match rest with
  | [] => exact iterate_end (by simp)
  | next :: rest =>
    by_cases sign : ∃ s, next = .additive s
    · obtain ⟨s, rfl⟩ := sign
      rw [additiveStep, iterate_spliced (Nat.zero_le _)
        (show Token.additive? (.additive s) = some s from rfl)]
      by_cases values : ∃ x y others, token = .value x ∧ rest = .value y :: others
      · obtain ⟨x, y, others, rfl, rfl⟩ := values
        rw [spliceBinary_values, Reduction.applyAdditive]
        exact ih _ (Nat.lt_succ_of_lt (Nat.lt_succ_self _)) before (.value (s.combine x y)) others
          rfl
      · rw [spliceBinary_missing, Reduction.applyAdditive]
        · rfl
        · exact fun x y others left right => values ⟨x, y, others, left, right⟩
        · intro x y left head
          obtain ⟨others, right⟩ := List.head?_eq_some_iff.1 head
          exact values ⟨x, y, others, left, right⟩
    · have later := ih _ (Nat.lt_succ_self _) (before ++ [token]) next rest rfl
      rw [Reduction.applyAdditive]
      · exact iterate_passed later (Nat.zero_le _)
          (Token.additive?_eq_none fun s same => sign ⟨s, same⟩)
      · exact fun s same => sign ⟨s, same⟩

end Splice

end ScientificCalculator
