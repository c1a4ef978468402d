import Mathlib.Combinatorics.Enumerative.DyckWord
import ScientificCalculator.Proofs.Causes
import ScientificCalculator.Proofs.Groups

/-!
Which parentheses an evaluation accepts. Read one after the other they must be a Dyck word; the
groups that are open at some point are as many as the opening parentheses before it that are not
closed yet. Unequal numbers are found before any group is reduced, whatever else is wrong.
-/

namespace ScientificCalculator

def Token.step? : Token → Option DyckStep
  | opening => some .U
  | closing => some .D
  | _ => none

/-- The parentheses among the tokens. -/
def parentheses (tokens : List Token) : List DyckStep := tokens.filterMap Token.step?

/-- The parentheses are balanced and properly nested. -/
def Balanced (tokens : List Token) : Prop :=
  ∃ word : DyckWord, word.toList = parentheses tokens

/-- The steps lead from this depth down to the ground, and never below it. -/
def Descends : Nat → List DyckStep → Prop
  | depth, [] => depth = 0
  | depth, .U :: rest => Descends (depth + 1) rest
  | 0, .D :: _ => False
  | depth + 1, .D :: rest => Descends depth rest

section Steps

theorem descends_up {depth : Nat} {rest : List DyckStep} :
    Descends depth (.U :: rest) ↔ Descends (depth + 1) rest := by
  cases depth <;> rfl

/-- A way to the ground has as many steps down as it starts high and steps up, and before that
no more. -/
theorem descends_iff {depth : Nat} {steps : List DyckStep} :
    Descends depth steps ↔ steps.count .D = depth + steps.count .U ∧
      ∀ i, (steps.take i).count .D ≤ depth + (steps.take i).count .U := by
  induction steps generalizing depth with
  | nil => simp [Descends, eq_comm]
  | cons step rest ih =>
    -- the empty beginning is never too low; the others start with this step
    rw [← Nat.and_forall_add_one]
    cases step with
    | U =>
      rw [descends_up, ih]
      simp [Nat.add_right_comm depth 1, Nat.add_assoc]
    | D =>
      cases depth with
      | zero =>
        refine ⟨nofun, fun ⟨_, _, within⟩ => ?_⟩
        have first := within 0
        simp at first
      | succ depth =>
        rw [Descends, ih]
        simp [Nat.add_right_comm depth 1]

/-- The Dyck words are the ways from the ground back to it. -/
theorem balanced_iff_descends {tokens : List Token} :
    Balanced tokens ↔ Descends 0 (parentheses tokens) := by
  rw [descends_iff]
  constructor
  · rintro ⟨word, same⟩
    rw [← same]
    simp only [Nat.zero_add]
    exact ⟨word.count_U_eq_count_D.symm, word.count_D_le_count_U⟩
  · rintro ⟨total, within⟩
    simp only [Nat.zero_add] at total within
    exact ⟨⟨parentheses tokens, total.symm, within⟩, rfl⟩

end Steps

section Groups
variable {unit : AngleUnit} {outer : List (List Token)} {group tokens : List Token}

theorem parentheses_opening (rest : List Token) :
    parentheses (.opening :: rest) = .U :: parentheses rest := rfl

theorem parentheses_closing (rest : List Token) :
    parentheses (.closing :: rest) = .D :: parentheses rest := rfl

theorem parentheses_plain {token : Token} (notOpening : token ≠ .opening)
    (notClosing : token ≠ .closing) (rest : List Token) :
    parentheses (token :: rest) = parentheses rest := by
  cases token with
  | opening => exact absurd rfl notOpening
  | closing => exact absurd rfl notClosing
  | _ => rfl

/-- With a value, the groups that are open are closed by the tokens that follow. -/
theorem descends_of_evaluateGroups {x : Decimal}
    (evaluated : evaluateGroups unit outer group tokens = .ok x) :
    Descends outer.length (parentheses tokens) := by
  fun_induction evaluateGroups unit outer group tokens with
  | case1 group => rfl
  | case2 outer group unclosed => cases evaluated
  | case3 outer group rest ih => exact descends_up.2 (ih evaluated)
  | case4 group rest => cases evaluated
  | case5 rest enclosing others => cases evaluated
  | case6 group rest enclosing others nonempty ih =>
    obtain ⟨y, _, evaluated⟩ := bind_eq_ok_iff.1 evaluated
    exact ih y evaluated
  | case7 outer group token rest notOpening notClosing ih =>
    rw [parentheses_plain notOpening notClosing]
    exact ih evaluated

/-- Where the groups that are open are closed, whatever fails is not the parentheses. -/
theorem raises_evaluateGroups (group : List Token)
    (descends : Descends outer.length (parentheses tokens)) :
    Raises Error.WithinGroup (evaluateGroups unit outer group tokens) := by
  fun_induction evaluateGroups unit outer group tokens with
  | case1 group => exact raises_reduce group
  | case2 outer group unclosed => exact absurd (List.length_eq_zero_iff.1 descends) unclosed
  | case3 outer group rest ih => exact ih (descends_up.1 descends)
  | case4 group rest => exact descends.elim
  | case5 rest enclosing others =>
    refine .error fun same => ?_
    cases same
  | case6 group rest enclosing others nonempty ih =>
    exact .bind (raises_reduce group) fun x => ih x descends
  | case7 outer group token rest notOpening notClosing ih =>
    rw [parentheses_plain notOpening notClosing] at descends
    exact ih descends

end Groups

section Evaluation
variable {unit : AngleUnit} {tokens : List Token}

/-- A memory operation at the head is no parenthesis. -/
theorem parentheses_splitMemoryOperation (tokens : List Token) :
    parentheses (splitMemoryOperation tokens).2 = parentheses tokens := by
  unfold splitMemoryOperation
  split <;> rfl

theorem count_parentheses (tokens : List Token) :
    (parentheses tokens).count .U = tokens.count .opening ∧
      (parentheses tokens).count .D = tokens.count .closing := by
  induction tokens with
  | nil => exact ⟨rfl, rfl⟩
  | cons token rest ih =>
    by_cases opens : token = .opening
    · simp [opens, parentheses_opening, ih]
    · by_cases closes : token = .closing
      · simp [closes, parentheses_closing, ih]
      · rw [parentheses_plain opens closes, List.count_cons_of_ne opens,
          List.count_cons_of_ne closes]
        exact ih

theorem isMemory_splitMemoryOperation (first : ∀ token ∈ tokens.tail, token.isMemory = false) :
    (splitMemoryOperation tokens).2.any Token.isMemory = false := by
  cases tokens with
  | nil => rfl
  | cons head rest =>
    have later : rest.any Token.isMemory = false := by simpa using first
    cases head with
    | memory operation => exact later
    | _ => exact later

/-- An expression with a value is balanced; parentheses are never blamed in a balanced one, and
always if their numbers are unequal. -/
theorem evaluate_parentheses (first : ∀ token ∈ tokens.tail, token.isMemory = false) :
    ((∃ x, evaluate unit tokens = .ok x) → Balanced tokens) ∧
      (Balanced tokens → evaluate unit tokens ≠ .error .unbalancedParentheses) ∧
      (tokens.count .opening ≠ tokens.count .closing →
        evaluate unit tokens = .error .unbalancedParentheses) := by
  have unmixed := isMemory_splitMemoryOperation first
  have same := parentheses_splitMemoryOperation tokens
  have counts := count_parentheses tokens
  have counts' := count_parentheses (splitMemoryOperation tokens).2
  rw [same, counts.1, counts.2] at counts'
  refine ⟨?_, ?_, ?_⟩
  · rintro ⟨x, evaluated⟩
    obtain ⟨-, -, evaluated⟩ := evaluate_eq_ok_iff.1 evaluated
    have descends := descends_of_evaluateGroups evaluated
    rw [same] at descends
    exact balanced_iff_descends.2 descends
  · intro balanced failed
    have descends := balanced_iff_descends.1 balanced
    have equal : tokens.count .opening = tokens.count .closing := by
      have total := (descends_iff.1 descends).1
      rw [counts.1, counts.2] at total
      omega
    rw [← same] at descends
    simp only [evaluate, unmixed, ← counts'.1, ← counts'.2, equal, ne_eq, not_true_eq_false,
      Bool.false_eq_true, if_false] at failed
    have within : Raises Error.WithinGroup (evaluateGroups unit [] [] _) :=
      raises_evaluateGroups [] descends
    exact within _ failed rfl
  · intro unequal
    simp only [evaluate, unmixed, ← counts'.1, ← counts'.2, ne_eq, unequal, not_false_eq_true,
      Bool.false_eq_true, if_false, if_true]

/-- In MS ( 1 ÷ 0 ) ) the last parenthesis is blamed, though the group has no value either. -/
theorem evaluate_surplus_closing :
    (∀ token ∈ ([.memory .store, .opening, .value ⟨1, 0⟩, .multiplicative .divide,
        .value ⟨0, 0⟩, .closing, .closing] : List Token).tail, token.isMemory = false) ∧
      evaluate .degrees [.memory .store, .opening, .value ⟨1, 0⟩, .multiplicative .divide,
        .value ⟨0, 0⟩, .closing, .closing] = .error .unbalancedParentheses :=
  ⟨by decide, (evaluate_parentheses (by decide)).2.2 (by decide)⟩

end Evaluation

end ScientificCalculator
