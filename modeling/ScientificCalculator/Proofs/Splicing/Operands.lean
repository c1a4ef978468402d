import ScientificCalculator.Proofs.Failure
import ScientificCalculator.Proofs.Splicing.Passes

/-!
The signs and functions before an operand, spliced from right to left. A tightly binding operator
looks for the end of the run to its right and collapses this run ahead of the index; the sweep over
the leading functions goes down through indices that are fixed before the first removal.
-/

namespace ScientificCalculator.Splice
open Program

variable {unit : AngleUnit}

theorem perform_unary (u : Unary) (x : Decimal) :
    perform ((Operators.of unit).unary u x) = calculate (u.apply unit x) := rfl

theorem perform_dual (o : DualOperator) (x y : Decimal) :
    perform ((Operators.of unit).dual o x y) = calculate (o.apply x y) := rfl

/-- The search from the token after an operator stops after the signs and functions there. -/
theorem iterate_run (before rest : List Token) :
    iterate (runStep (before ++ rest)) before.length =
      pure (before.length + (rest.takeWhile Token.isUnary).length) := by
  induction rest generalizing before with
  | nil =>
    apply iterate_done
    simp [runStep]
  | cons token rest ih =>
    by_cases unary : token.isUnary = true
    · have next : runStep (before ++ token :: rest) before.length =
          pure (.inl (before.length + 1)) := by
        simp [runStep, unary]
      have later := ih (before ++ [token])
      rw [← List.append_cons, length_snoc] at later
      rw [iterate_next next, later, List.takeWhile_cons_of_pos unary, List.length_cons]
      congr 1
      omega
    · rw [List.takeWhile_cons_of_neg unary]
      apply iterate_done
      simp [runStep, unary]

theorem spliceUnary_value (operators : Operators) (before after : List Token) (u : Unary)
    (x : Decimal) :
    spliceUnary operators before.length (before ++ .unary u :: .value x :: after) =
      (fun y => before ++ .value y :: after) <$> perform (operators.unary u x) := by
  have place := length_snoc before (.unary u)
  rw [spliceUnary, read_append rfl, pure_bind, List.append_cons, operand_append place, pure_bind,
    ← List.append_cons, map_eq_pure_bind]
  refine bind_congr fun y => ?_
  rw [write_append rfl, pure_bind, List.append_cons, remove_append (length_snoc _ _),
    ← List.append_cons]

theorem spliceUnary_missing (operators : Operators) (before after : List Token) (u : Unary)
    (missing : ∀ x, after.head? ≠ some (.value x)) :
    spliceUnary operators before.length (before ++ .unary u :: after) =
      calculate missingOperand := by
  have place := length_snoc before (.unary u)
  rw [spliceUnary, read_append rfl, pure_bind, List.append_cons, operand_missing place missing]
  rfl

/-- A run with an operand becomes its value. -/
theorem descend_run_of_ok {rest others : List Token} {x : Decimal} (before : List Token)
    (taken : Reduction.takeOperand unit rest = .ok (x, others)) :
    descend (spliceUnary (.of unit)) before.length (rest.takeWhile Token.isUnary).length
      (before ++ rest) = pure (before ++ .value x :: others) := by
  induction rest generalizing before x others with
  | nil => cases taken
  | cons token rest ih =>
    cases token with
    | value y =>
      cases taken
      rfl
    | unary u =>
      obtain ⟨⟨y, others'⟩, inner, taken⟩ := bind_eq_ok_iff.1 taken
      obtain ⟨z, applied, taken⟩ := bind_eq_ok_iff.1 taken
      cases taken
      have later := ih (before ++ [.unary u]) inner
      rw [← List.append_cons, ← List.append_cons, length_snoc] at later
      rw [List.takeWhile_cons_of_pos rfl, List.length_cons, descend_succ, later, pure_bind,
        spliceUnary_value, perform_unary, applied]
      rfl
    | _ => cases taken

/-- A run without an operand fails where it is applied, or is empty. -/
theorem descend_run_of_error {rest : List Token} {e : Error} (before : List Token)
    (failed : Reduction.takeOperand unit rest = .error e) :
    descend (spliceUnary (.of unit)) before.length (rest.takeWhile Token.isUnary).length
        (before ++ rest) = calculate (.error e) ∨
      e = .malformedExpression .missingOperand ∧ (∀ x, rest.head? ≠ some (.value x)) ∧
        descend (spliceUnary (.of unit)) before.length (rest.takeWhile Token.isUnary).length
          (before ++ rest) = pure (before ++ rest) := by
  induction rest generalizing before with
  | nil =>
    cases failed
    exact .inr ⟨rfl, nofun, rfl⟩
  | cons token rest ih =>
    cases token with
    | value y => cases failed
    | unary u =>
      left
      rw [List.takeWhile_cons_of_pos rfl, List.length_cons, descend_succ]
      rcases bind_eq_error_iff.1 failed with inner | ⟨⟨y, others⟩, inner, failed⟩
      · rcases ih (before ++ [.unary u]) inner with fails | ⟨rfl, absent, empty⟩
        · rw [← List.append_cons, length_snoc] at fails
          rw [fails]
          rfl
        · rw [← List.append_cons, length_snoc] at empty
          rw [empty, pure_bind, spliceUnary_missing _ before rest u absent]
          rfl
      · rcases bind_eq_error_iff.1 failed with applied | ⟨z, -, ⟨⟩⟩
        have later := descend_run_of_ok (before ++ [.unary u]) inner
        rw [← List.append_cons, ← List.append_cons, length_snoc] at later
        rw [later, pure_bind, spliceUnary_value, perform_unary, applied]
        rfl
    | _ =>
      cases failed
      exact .inr ⟨rfl, by rintro x ⟨⟩, rfl⟩

theorem spliceDual_eq (before rest : List Token) (token : Token) (o : DualOperator) :
    spliceDual (.of unit) o (before.length + 1) (before ++ token :: .dual o :: rest) = (do
      let (y, others) ← calculate (Reduction.takeOperand unit rest)
      (fun z => before ++ z :: others) <$> calculate (Reduction.applyDual o token y)) := by
  have place : (before ++ [token, .dual o]).length = before.length + 1 + 1 := List.length_append
  have apart : before ++ token :: .dual o :: rest = (before ++ [token, .dual o]) ++ rest := by simp
  have run := iterate_run (before ++ [token, .dual o]) rest
  rw [place, ← apart] at run
  rw [spliceDual, if_neg (Nat.succ_ne_zero _), run, pure_bind, Nat.add_sub_cancel_left]
  cases taken : Reduction.takeOperand unit rest with
  | ok pair =>
    obtain ⟨y, others⟩ := pair
    have applied := descend_run_of_ok (before ++ [token, .dual o]) taken
    have together : before ++ [token, .dual o] ++ .value y :: others =
        before ++ token :: .dual o :: .value y :: others := by simp
    rw [place, ← apart, together] at applied
    rw [applied, pure_bind]
    show _ = (fun z => before ++ z :: others) <$> calculate (Reduction.applyDual o token y)
    by_cases value : ∃ x, token = .value x
    · obtain ⟨x, rfl⟩ := value
      rw [spliceBinary_values, perform_dual, Reduction.applyDual]
      cases o.apply x y with
      | error e => rfl
      | ok z => rfl
    · rw [spliceBinary_missing _ _ _ fun x y same => absurd ⟨x, same⟩ value]
      cases token with
      | value x => exact absurd ⟨x, rfl⟩ value
      | _ => rfl
  | error e =>
    rcases descend_run_of_error (before ++ [token, .dual o]) taken with
      fails | ⟨rfl, absent, empty⟩
    · rw [place, ← apart] at fails
      rw [fails]
      rfl
    · rw [place, ← apart] at empty
      rw [empty, pure_bind, spliceBinary_missing _ _ _ fun x y _ => absent y]
      rfl

theorem applyDuals_found (before : Token) (o : DualOperator) (rest : List Token) :
    Reduction.applyDuals unit (some before) (.dual o :: rest) = (do
      let (y, others) ← Reduction.takeOperand unit rest
      Reduction.applyDuals unit (some (← Reduction.applyDual o before y)) others) := by
  rw [Reduction.applyDuals]
  split
  · next failed => rw [failed]; rfl
  · next taken => rw [taken]; rfl

theorem iterate_dual (before : List Token) (token : Token) (rest : List Token) :
    iterate (dualStep (.of unit)) ⟨before ++ token :: rest, before.length + 1⟩ =
      (before ++ ·) <$> calculate (Reduction.applyDuals unit (some token) rest) := by
  -- An operator takes its operand away, so the list after it is not the next tail.
  induction size : rest.length using Nat.strongRecOn generalizing before token rest with
  | _ count ih =>
  subst size
  cases rest with
  | nil =>
    rw [Reduction.applyDuals]
    exact iterate_end (by simp)
  | cons next rest =>
    by_cases dual : ∃ o, next = .dual o
    · obtain ⟨o, rfl⟩ := dual
      rw [dualStep, iterate_spliced (Nat.zero_le _)
        (show Token.dual? (.dual o) = some o from rfl), spliceDual_eq,
        applyDuals_found]
      cases taken : Reduction.takeOperand unit rest with
      | error e => rfl
      | ok pair =>
        obtain ⟨y, others⟩ := pair
        have shorter : others.length < (Token.dual o :: rest).length :=
          Nat.lt_succ_of_lt (Reduction.length_of_takeOperand taken)
        have first : calculate (.ok (y, others)) = pure (y, others) := rfl
        have after : (Except.ok (y, others) >>= fun (y, others) => do
              Reduction.applyDuals unit (some (← Reduction.applyDual o token y)) others) =
            (Reduction.applyDual o token y >>= fun z =>
              Reduction.applyDuals unit (some z) others) := rfl
        rw [first, pure_bind, bind_map_left, after, calculate_bind, map_bind]
        exact bind_congr fun z => ih others.length shorter before z others rfl
    · have other : ∀ o, next ≠ .dual o := fun o same => dual ⟨o, same⟩
      have later := ih rest.length (Nat.lt_succ_self _) (before ++ [token]) next rest rfl
      rw [Reduction.applyDuals]
      · exact iterate_passed later (Nat.zero_le _) (Token.dual?_eq_none other)
      · exact other

theorem iterate_dual_start (tokens : List Token) :
    iterate (dualStep (.of unit)) ⟨tokens, 0⟩ =
      calculate (Reduction.applyDuals unit none tokens) := by
  cases tokens with
  | nil =>
    rw [Reduction.applyDuals]
    exact iterate_end (Nat.le_refl _)
  | cons first rest =>
    by_cases dual : ∃ o, first = .dual o
    · obtain ⟨o, rfl⟩ := dual
      rw [dualStep, iterate_found_first (Nat.zero_le _)
        (show Token.dual? (.dual o) = some o from rfl), Reduction.applyDuals]
      rfl
    · have other : ∀ o, first ≠ .dual o := fun o same => dual ⟨o, same⟩
      rw [dualStep, iterate_skip_first (Nat.zero_le _) (Token.dual?_eq_none other),
        Reduction.applyDuals]
      · exact (iterate_dual [] first rest).trans (by simp)
      · exact other

theorem settleUnary_other {token : Token} (other : token.isUnary = false)
    (before after : List Token) :
    settleUnary (.of unit) before.length (before ++ token :: after) =
      pure (before ++ token :: after) := by
  rw [settleUnary, read_append rfl, pure_bind, other]
  rfl

theorem settleUnary_unary (u : Unary) (before after : List Token) :
    settleUnary (.of unit) before.length (before ++ .unary u :: after) =
      spliceUnary (.of unit) before.length (before ++ .unary u :: after) := by
  rw [settleUnary, read_append rfl, pure_bind]
  rfl

/-- What the sweep does at a token once the tokens after it are settled. -/
theorem settleUnary_eq (before : List Token) (token : Token) (reduced : List Token) :
    settleUnary (.of unit) before.length (before ++ token :: reduced) =
      (before ++ ·) <$> calculate (match token, reduced with
        | .unary u, .value x :: others => do return .value (← u.apply unit x) :: others
        | .unary _, _ => missingOperand
        | token, reduced => return token :: reduced) := by
  cases token with
  | unary u =>
    rw [settleUnary_unary]
    cases reduced with
    | nil => exact spliceUnary_missing _ before [] u nofun
    | cons first others =>
      cases first with
      | value x =>
        rw [spliceUnary_value, perform_unary]
        cases applied : u.apply unit x with
        | error e => simp only [applied]; rfl
        | ok y => simp only [applied]; rfl
      | _ => exact spliceUnary_missing _ before _ u (by rintro x ⟨⟩)
  | _ => exact settleUnary_other rfl before reduced

/-- The sweep goes down from the token before the last, so what it removes is always behind it. -/
theorem descend_unary (before tokens : List Token) :
    descend (settleUnary (.of unit)) before.length (tokens.length - 1) (before ++ tokens) =
      (before ++ ·) <$> calculate (Reduction.applyUnary unit tokens) := by
  induction tokens generalizing before with
  | nil => rfl
  | cons token rest ih =>
    by_cases last : rest = []
    · subst last
      rfl
    · have later := ih (before ++ [token])
      rw [length_snoc, ← List.append_cons] at later
      have count : (token :: rest).length - 1 = rest.length - 1 + 1 :=
        (Nat.sub_add_cancel (List.length_pos_iff.2 last)).symm
      rw [count, descend_succ, later, bind_map_left, Reduction.applyUnary,
        calculate_bind, map_bind]
      · refine bind_congr fun reduced => ?_
        rw [← List.append_cons]
        exact settleUnary_eq before token reduced
      · exact last

theorem sweepUnary_eq (tokens : List Token) :
    sweepUnary (.of unit) tokens = calculate (Reduction.applyUnary unit tokens) := by
  have whole := @descend_unary unit [] tokens
  match tokens with
  | [] => rfl
  | [_] => rfl
  | first :: next :: rest =>
    have long : ¬ (first :: next :: rest).length < 2 := Nat.not_lt.2 (Nat.le_add_left 2 _)
    rw [sweepUnary, if_neg long, List.length_cons, previous_succ, pure_bind]
    exact whole.trans (by simp)

end ScientificCalculator.Splice
