import ScientificCalculator.Expression.Evaluation
import ScientificCalculator.Proofs.Failure

/-!
Parentheses stand for their value. What a group does depends only on the tokens inside it, whatever
groups are open around it and whatever follows, so a group may be replaced by its value; replacing
the innermost group that closes first again and again is what an evaluation does.
-/

namespace ScientificCalculator

variable {unit : AngleUnit}

theorem reduce_nil : reduce unit [] = .error (.malformedExpression .empty) := by
  rw [reduce, foldExponents]
  show (Reduction.applyDuals unit none [] >>= _) = _
  rw [Reduction.applyDuals]
  rfl

/-- Tokens that do the same inside all groups do the same after any tokens. -/
theorem evaluateGroups_append {tokens tokens' : List Token}
    (same : ∀ outer group, evaluateGroups unit outer group tokens =
      evaluateGroups unit outer group tokens')
    (before : List Token) (outer : List (List Token)) (group : List Token) :
    evaluateGroups unit outer group (before ++ tokens) =
      evaluateGroups unit outer group (before ++ tokens') := by
  induction before generalizing outer group with
  | nil => exact same outer group
  | cons token before ih =>
    cases token with
    | opening => exact ih _ _
    | closing =>
      cases outer with
      | nil => rfl
      | cons enclosing others =>
        rw [List.cons_append, List.cons_append, evaluateGroups, evaluateGroups]
        split
        · rfl
        · exact bind_congr fun x => ih _ _
    | _ => exact ih _ _

/-- A token other than a parenthesis is kept for its group. -/
theorem evaluateGroups_plain {tokens : List Token}
    (plain : ∀ token ∈ tokens, token ≠ .opening ∧ token ≠ .closing)
    (outer : List (List Token)) (group rest : List Token) :
    evaluateGroups unit outer group (tokens ++ rest) =
      evaluateGroups unit outer (group ++ tokens) rest := by
  induction tokens generalizing group with
  | nil => rw [List.nil_append, List.append_nil]
  | cons token tokens ih =>
    have later := ih fun other member => plain other (List.mem_cons_of_mem _ member)
    have ⟨notOpening, notClosing⟩ := plain token List.mem_cons_self
    have kept : evaluateGroups unit outer group (token :: (tokens ++ rest)) =
        evaluateGroups unit outer (group ++ [token]) (tokens ++ rest) := by
      cases token with
      | opening => exact absurd rfl notOpening
      | closing => exact absurd rfl notClosing
      | _ => rfl
    rw [List.cons_append, kept, later, List.append_assoc, List.singleton_append]

theorem evaluateGroups_of_plain {tokens : List Token}
    (plain : ∀ token ∈ tokens, token ≠ .opening ∧ token ≠ .closing) :
    evaluateGroups unit [] [] tokens = reduce unit tokens := by
  have whole := @evaluateGroups_plain unit tokens plain [] [] []
  rwa [List.append_nil, List.nil_append, evaluateGroups, if_pos rfl] at whole

/-- A step of an evaluation: the group up to the first closing parenthesis is replaced by its
value. -/
theorem evaluateGroups_innermost {before group : List Token}
    (first : ∀ token ∈ before, token ≠ .closing)
    (plain : ∀ token ∈ group, token ≠ .opening ∧ token ≠ .closing)
    (outer : List (List Token)) (enclosing after : List Token) :
    evaluateGroups unit outer enclosing (before ++ .opening :: (group ++ .closing :: after)) =
      if group = [] then .error (.malformedExpression .emptyParentheses)
      else (do
        let x ← reduce unit group
        evaluateGroups unit outer enclosing (before ++ .value x :: after)) := by
  induction before generalizing outer enclosing with
  | nil =>
    rw [List.nil_append, evaluateGroups, evaluateGroups_plain plain, List.nil_append,
      evaluateGroups]
    rfl
  | cons token before ih =>
    have later := ih fun other member => first other (List.mem_cons_of_mem _ member)
    cases token with
    | closing => exact absurd rfl (first .closing List.mem_cons_self)
    | opening => exact later (enclosing :: outer) []
    | _ => exact later outer (enclosing ++ [_])

/-- Tokens with a value, up to the end of a group around them, put this value into the group around
that one. -/
theorem evaluateGroups_close {inner : List (List Token)} {group tokens : List Token} {x : Decimal}
    (evaluated : evaluateGroups unit inner group tokens = .ok x) (enclosing : List Token)
    (outer : List (List Token)) (rest : List Token) :
    evaluateGroups unit (inner ++ enclosing :: outer) group (tokens ++ .closing :: rest) =
      evaluateGroups unit outer (enclosing ++ [.value x]) rest := by
  fun_induction evaluateGroups unit inner group tokens with
  | case1 group =>
    have nonempty : group ≠ [] := by
      rintro rfl
      rw [reduce_nil] at evaluated
      cases evaluated
    rw [List.nil_append, List.nil_append, evaluateGroups, if_neg nonempty, evaluated]
    rfl
  | case2 inner group => cases evaluated
  | case3 inner group tokens ih => exact ih evaluated
  | case4 group tokens => cases evaluated
  | case5 tokens around others => cases evaluated
  | case6 group tokens around others nonempty ih =>
    obtain ⟨y, reduced, evaluated⟩ := bind_eq_ok_iff.1 evaluated
    rw [List.cons_append, List.cons_append, evaluateGroups, if_neg nonempty, reduced]
    exact ih y evaluated
  | case7 inner group token tokens notOpening notClosing ih =>
    rw [List.cons_append, evaluateGroups]
    · exact ih evaluated
    · exact notOpening
    · exact notClosing

theorem splitMemoryOperation_append (before : List Token) (token : Token)
    (plain : token.isMemory = false) (rest : List Token) :
    (splitMemoryOperation (before ++ token :: rest)).2 =
      (splitMemoryOperation before).2 ++ token :: rest := by
  cases before with
  | nil =>
    cases token with
    | memory operation => cases plain
    | _ => rfl
  | cons first before =>
    cases first with
    | memory operation => rfl
    | _ => rfl

theorem splitMemoryOperation_of_plain {tokens : List Token}
    (plain : ∀ token ∈ tokens, token.isMemory = false) :
    (splitMemoryOperation tokens).2 = tokens := by
  cases tokens with
  | nil => rfl
  | cons first rest =>
    have head := plain first List.mem_cons_self
    cases first with
    | memory operation => cases head
    | _ => rfl

/-- What an evaluation checks before it calculates. -/
theorem evaluate_eq_ok_iff {tokens : List Token} {x : Decimal} :
    evaluate unit tokens = .ok x ↔
      (splitMemoryOperation tokens).2.any Token.isMemory = false ∧
      (splitMemoryOperation tokens).2.count .opening =
        (splitMemoryOperation tokens).2.count .closing ∧
      evaluateGroups unit [] [] (splitMemoryOperation tokens).2 = .ok x := by
  simp only [evaluate]
  generalize (splitMemoryOperation tokens).2 = expression
  by_cases misplaced : expression.any Token.isMemory = true
  · simp [misplaced]
  · by_cases unequal : expression.count .opening ≠ expression.count .closing
    · simp [misplaced, unequal]
    · simp [misplaced, Decidable.not_not.1 unequal]

/-- A group that has a value by itself may be replaced by it in any expression, whatever stands
around it. -/
theorem evaluate_group {group : List Token} {x : Decimal}
    (plain : ∀ token ∈ group, token.isMemory = false) (evaluated : evaluate unit group = .ok x)
    (before after : List Token) :
    evaluate unit (before ++ [.opening] ++ group ++ [.closing] ++ after) =
      evaluate unit (before ++ [.value x] ++ after) := by
  obtain ⟨unmixed, balanced, valued⟩ := evaluate_eq_ok_iff.1 evaluated
  rw [splitMemoryOperation_of_plain plain] at unmixed balanced valued
  have groups : ∀ outer enclosing,
      evaluateGroups unit outer enclosing (.opening :: (group ++ .closing :: after)) =
        evaluateGroups unit outer enclosing (.value x :: after) :=
    fun outer enclosing => evaluateGroups_close valued enclosing outer after
  have whole : before ++ [.opening] ++ group ++ [.closing] ++ after =
      before ++ .opening :: (group ++ .closing :: after) := by simp
  have short : before ++ [.value x] ++ after = before ++ .value x :: after := by simp
  simp only [evaluate, whole, short, splitMemoryOperation_append before .opening rfl,
    splitMemoryOperation_append before (.value x) rfl]
  generalize (splitMemoryOperation before).2 = start
  have memory : (start ++ .opening :: (group ++ .closing :: after)).any Token.isMemory =
      (start ++ .value x :: after).any Token.isMemory := by
    simp [unmixed, Token.isMemory]
  have counts : (start ++ .opening :: (group ++ .closing :: after)).count .opening =
        (start ++ .opening :: (group ++ .closing :: after)).count .closing ↔
      (start ++ .value x :: after).count .opening =
        (start ++ .value x :: after).count .closing := by
    simp only [List.count_append, List.count_cons_self, List.count_cons_of_ne, balanced, ne_eq,
      reduceCtorEq, not_false_eq_true]
    omega
  rw [memory, evaluateGroups_append groups]
  simp only [ne_eq, counts]

/-- With 1 + 2 in parentheses or 3 in its place, the divisor of 1 ÷ (3 − …) is zero. -/
theorem evaluate_sum_in_divisor :
    evaluate .degrees [.value ⟨1, 0⟩, .multiplicative .divide, .opening, .value ⟨3, 0⟩,
        .additive .minus, .opening, .value ⟨1, 0⟩, .additive .plus, .value ⟨2, 0⟩, .closing,
        .closing] =
      evaluate .degrees [.value ⟨1, 0⟩, .multiplicative .divide, .opening, .value ⟨3, 0⟩,
        .additive .minus, .value ⟨3, 0⟩, .closing] := by
  have valued : evaluate .degrees [.value ⟨1, 0⟩, .additive .plus, .value ⟨2, 0⟩] =
      .ok ⟨3, 0⟩ := by
    with_unfolding_all rfl
  exact evaluate_group (by decide) valued
    [.value ⟨1, 0⟩, .multiplicative .divide, .opening, .value ⟨3, 0⟩, .additive .minus] [.closing]

end ScientificCalculator
