import ScientificCalculator.Proofs.Groups
import ScientificCalculator.Proofs.Splicing.Reduction

/-!
The parentheses of an expression as a program. Each round finds the first closing parenthesis and
the last opening one before it, takes out the tokens between them and puts their value in the place
of the pair. With the operations of a reduction the program has the value of the expression.
-/

namespace ScientificCalculator.Splice
open Program

/-- The indices of the last opening parenthesis before the first closing one, and of that one. -/
def innermost (tokens : List Token) : Program (Option (Nat × Nat)) :=
  match tokens.findIdx? (· == .closing) with
  | some last => do
    let before ← takeTo tokens last
    match before.reverse.findIdx? (· == .opening) with
    | some i => return some (before.length - 1 - i, last)
    | none => calculate (.error .unbalancedParentheses)
  | none =>
    if Token.opening ∈ tokens then calculate (.error .unbalancedParentheses) else return none

/-- Replaces a pair of parentheses by the value of the tokens between them. -/
noncomputable def groupStep (operators : Operators) (tokens : List Token) :
    Program (List Token ⊕ List Token) := do
  match ← innermost tokens with
  | none => return .inr tokens
  | some (first, last) =>
    let (group, tokens) ← drain tokens (first + 1) last
    if group = [] then calculate (.error (.malformedExpression .emptyParentheses))
    else do
      let x ← Splice.reduce operators group
      let tokens ← write tokens first (.value x)
      return .inl (← remove tokens (first + 1))

def dropMemoryOperation : List Token → Program (List Token)
  | .memory operation :: rest => remove (.memory operation :: rest) 0
  | tokens => return tokens

noncomputable def evaluate (operators : Operators) (tokens : List Token) : Program Decimal := do
  let tokens ← dropMemoryOperation tokens
  if tokens.any Token.isMemory then calculate (.error (.malformedExpression .memoryKeyNotFirst))
  else if tokens.count .opening ≠ tokens.count .closing then
    calculate (.error .unbalancedParentheses)
  else do
    let tokens ← iterate (groupStep operators) tokens
    Splice.reduce operators tokens

variable {operators : Operators} {unit : AngleUnit} {before group after tokens : List Token}

theorem findIdx?_absent {token : Token} (absent : token ∉ before) :
    before.findIdx? (· == token) = none :=
  List.findIdx?_eq_none_iff.2 fun _ member => beq_false_of_ne fun same => absent (same ▸ member)

theorem findIdx?_first {token : Token} (first : token ∉ before) (after : List Token) :
    (before ++ token :: after).findIdx? (· == token) = some before.length := by
  rw [List.findIdx?_append, findIdx?_absent first, Option.none_or, List.findIdx?_cons,
    beq_self_eq_true]
  simp

theorem innermost_group (first : .closing ∉ before) (notOpening : .opening ∉ group)
    (notClosing : .closing ∉ group) (after : List Token) :
    innermost (before ++ .opening :: (group ++ .closing :: after)) =
      pure (some (before.length, before.length + 1 + group.length)) := by
  have inside : Token.closing ∉ before ++ .opening :: group := by
    simp [first, notClosing]
  have apart : before ++ .opening :: (group ++ .closing :: after) =
      (before ++ .opening :: group) ++ .closing :: after := by simp
  have size : (before ++ .opening :: group).length = before.length + 1 + group.length := by
    rw [List.length_append, List.length_cons]
    omega
  have backwards : (before ++ .opening :: group).reverse =
      group.reverse ++ .opening :: before.reverse := by simp
  have last : Token.opening ∉ group.reverse := by simpa using notOpening
  rw [apart, innermost, findIdx?_first inside]
  simp only [takeTo_append, pure_bind, backwards, findIdx?_first last, List.length_reverse, size]
  congr 3
  omega

theorem innermost_unopened (first : .closing ∉ before) (unopened : .opening ∉ before)
    (after : List Token) :
    innermost (before ++ .closing :: after) = calculate (.error .unbalancedParentheses) := by
  have last : Token.opening ∉ before.reverse := by simpa using unopened
  rw [innermost, findIdx?_first first]
  simp only [takeTo_append, pure_bind, findIdx?_absent last]

theorem groupStep_group (first : .closing ∉ before) (notOpening : .opening ∉ group)
    (notClosing : .closing ∉ group) (after : List Token) :
    groupStep operators (before ++ .opening :: (group ++ .closing :: after)) =
      if group = [] then calculate (.error (.malformedExpression .emptyParentheses))
      else (fun x => .inl (before ++ .value x :: after)) <$> Splice.reduce operators group := by
  rw [groupStep, innermost_group first notOpening notClosing, pure_bind]
  show (drain _ (before.length + 1) _ >>= _) = _
  rw [List.append_cons, drain_append (length_snoc _ _) rfl, pure_bind]
  show (if group = [] then _ else _) = _
  split
  · rfl
  · rw [map_eq_pure_bind]
    refine bind_congr fun x => ?_
    rw [← List.append_cons, write_append rfl, pure_bind, List.append_cons,
      remove_append (length_snoc _ _), pure_bind, ← List.append_cons]

theorem plain_of_not_mem (notOpening : .opening ∉ group) (notClosing : .closing ∉ group) :
    ∀ token ∈ group, token ≠ .opening ∧ token ≠ .closing :=
  fun _ member => ⟨fun same => notOpening (same ▸ member), fun same => notClosing (same ▸ member)⟩

theorem evaluateGroups_unclosed (unclosed : .closing ∉ tokens) {outer : List (List Token)}
    (opened : outer ≠ [] ∨ .opening ∈ tokens) (group : List Token) :
    evaluateGroups unit outer group tokens = .error .unbalancedParentheses := by
  induction tokens generalizing outer group with
  | nil =>
    rw [evaluateGroups, if_neg]
    simpa using opened
  | cons token rest ih =>
    have later := fun outer opened => @ih (List.not_mem_of_not_mem_cons unclosed) outer opened
    cases token with
    | opening => exact later _ (.inl (List.cons_ne_nil _ _)) _
    | closing => exact absurd List.mem_cons_self unclosed
    | _ => exact later _ (by simpa using opened) _

/-- The kinds of lists a step meets: without parentheses, with a wrong one, or with a group. -/
theorem groupStep_cases (operators : Operators) (tokens : List Token) :
    (groupStep operators tokens = pure (.inr tokens) ∧
        ∀ token ∈ tokens, token ≠ .opening ∧ token ≠ .closing) ∨
      (groupStep operators tokens = calculate (.error .unbalancedParentheses) ∧
        ∀ unit, evaluateGroups unit [] [] tokens = .error .unbalancedParentheses) ∨
      ∃ before group after, tokens = before ++ .opening :: (group ++ .closing :: after) ∧
        .closing ∉ before ∧ .opening ∉ group ∧ .closing ∉ group := by
  by_cases closed : Token.closing ∈ tokens
  · obtain ⟨reached, after, rfl, first⟩ := List.eq_append_cons_of_mem closed
    by_cases opened : Token.opening ∈ reached
    · have backwards : Token.opening ∈ reached.reverse := List.mem_reverse.2 opened
      obtain ⟨group, before, split, last⟩ := List.eq_append_cons_of_mem backwards
      have whole : reached = before.reverse ++ .opening :: group.reverse := by
        rw [← List.reverse_reverse reached, split]
        simp
      subst whole
      simp only [List.mem_append, List.mem_cons, not_or] at first
      exact .inr (.inr ⟨before.reverse, group.reverse, after, by simp, first.1, by simpa using last,
        first.2.2⟩)
    · refine .inr (.inl ⟨?_, fun unit => ?_⟩)
      · rw [groupStep, innermost_unopened first opened]
        rfl
      · rw [evaluateGroups_plain (plain_of_not_mem opened first), evaluateGroups]
  · by_cases opened : Token.opening ∈ tokens
    · refine .inr (.inl ⟨?_, fun unit => evaluateGroups_unclosed closed (.inr opened) []⟩)
      rw [groupStep, innermost, findIdx?_absent closed, if_pos opened]
      rfl
    · refine .inl ⟨?_, plain_of_not_mem opened closed⟩
      rw [groupStep, innermost, findIdx?_absent closed, if_neg opened, pure_bind]

theorem iterate_groups (tokens : List Token) :
    (iterate (groupStep (.of unit)) tokens >>= Splice.reduce (.of unit)) =
      calculate (evaluateGroups unit [] [] tokens) := by
  -- Each group with its parentheses becomes one token.
  induction size : tokens.length using Nat.strongRecOn generalizing tokens with
  | _ count ih =>
  subst size
  rcases groupStep_cases (.of unit) tokens with
    ⟨ends, plain⟩ | ⟨fails, unbalanced⟩ | ⟨before, group, after, rfl, first, notOpening, notClosing⟩
  · rw [iterate_done ends, pure_bind, reduce_eq, evaluateGroups_of_plain plain]
  · rw [iterate_eq, fails, unbalanced unit]
    rfl
  · have plain := plain_of_not_mem notOpening notClosing
    rw [iterate_eq, groupStep_group first notOpening notClosing, evaluateGroups_innermost _ plain]
    split
    · rfl
    · rw [reduce_eq, bind_map_left, bind_assoc, calculate_bind]
      refine bind_congr fun x => ih _ ?_ _ rfl
      simp only [List.length_append, List.length_cons]
      omega
    · exact fun token member same => first (same ▸ member)

theorem dropMemoryOperation_eq (tokens : List Token) :
    dropMemoryOperation tokens = pure (splitMemoryOperation tokens).2 := by
  cases tokens with
  | nil => rfl
  | cons token rest =>
    cases token with
    | memory operation => rfl
    | _ => rfl

theorem evaluate_eq (tokens : List Token) :
    Splice.evaluate (.of unit) tokens = calculate (ScientificCalculator.evaluate unit tokens) := by
  rw [Splice.evaluate, dropMemoryOperation_eq, pure_bind, ScientificCalculator.evaluate]
  split
  · rfl
  · split
    · rfl
    · exact iterate_groups _

end ScientificCalculator.Splice
