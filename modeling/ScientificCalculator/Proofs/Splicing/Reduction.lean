import ScientificCalculator.Proofs.Splicing.Operands

/-!
The reduction of a list of tokens as a program: exponent keys are moved with the signs that follow
them, signs are settled in place, and the passes follow each other. It has the same result as the
reduction of a list.
-/

namespace ScientificCalculator.Splice
open Program

theorem settleSign_other {token : Token} (other : ∀ s, token ≠ .additive s)
    (before after : List Token) :
    settleSign before.length (before ++ token :: after) = pure (before ++ token :: after) := by
  rw [settleSign, read_append rfl, pure_bind]
  cases token with
  | additive s => exact absurd rfl (other s)
  | _ => rfl

theorem followsOperand_append (before after : List Token) :
    followsOperand (before ++ after) before.length =
      pure (before.getLast?.any Token.endsOperand) := by
  rcases List.eq_nil_or_concat before with rfl | ⟨others, last, rfl⟩
  · rfl
  · rw [List.concat_eq_append, length_snoc, followsOperand, if_pos (Nat.succ_pos _), previous_succ,
      pure_bind, ← List.append_cons, read_append rfl, pure_bind, List.getLast?_concat,
      Option.any_some]

theorem settleSign_additive (s : Sign) (before after : List Token) :
    settleSign before.length (before ++ .additive s :: after) =
      pure (before ++
        (if before.getLast?.any Token.endsOperand then .additive s else .unary (.sign s)) ::
          after) := by
  rw [settleSign, read_append rfl, pure_bind]
  show (followsOperand (before ++ _) before.length >>= _) = _
  rw [followsOperand_append, pure_bind]
  split
  · rfl
  · rw [write_append rfl]

theorem descend_signs (before tokens : List Token) :
    descend settleSign before.length tokens.length (before ++ tokens) =
      pure (before ++ readSigns (before.getLast?.any Token.endsOperand) tokens) := by
  induction tokens generalizing before with
  | nil => rfl
  | cons token rest ih =>
    have later := ih (before ++ [token])
    rw [length_snoc, ← List.append_cons, List.getLast?_concat, Option.any_some,
      ← List.append_cons] at later
    rw [List.length_cons, descend_succ, later, pure_bind]
    by_cases sign : ∃ s, token = .additive s
    · obtain ⟨s, rfl⟩ := sign
      exact settleSign_additive s before _
    · have other : ∀ s, token ≠ .additive s := fun s same => sign ⟨s, same⟩
      rw [settleSign_other other, readSigns]
      exact other

theorem settleSigns_eq (tokens : List Token) :
    settleSigns tokens = pure (readSigns false tokens) :=
  descend_signs [] tokens

theorem iterate_signRun (tokens : List Token) (negative : Bool) :
    iterate signRunStep (tokens, negative) =
      pure (tokens.dropWhile Token.isAdditive,
        negative ^^
          decide ((tokens.takeWhile Token.isAdditive).count (.additive .minus) % 2 = 1)) := by
  induction tokens generalizing negative with
  | nil =>
    rw [iterate_done (show signRunStep ([], negative) = pure (.inr ([], negative)) from rfl)]
    simp
  | cons token rest ih =>
    by_cases sign : ∃ s, token = .additive s
    · obtain ⟨s, rfl⟩ := sign
      rw [iterate_next (show signRunStep (.additive s :: rest, negative) =
        pure (.inl (rest, negative ^^ decide (s = .minus))) from rfl), ih,
        List.dropWhile_cons_of_pos rfl, List.takeWhile_cons_of_pos rfl, Bool.xor_assoc]
      congr 3
      cases s with
      | plus => simp
      | minus =>
        rw [List.count_cons_self]
        have parity := Nat.mod_two_eq_zero_or_one
          (List.count (.additive .minus) (rest.takeWhile Token.isAdditive))
        rcases parity with even | odd
        · simp [even, Nat.add_mod]
        · simp [odd, Nat.add_mod]
    · have other : ¬ token.isAdditive = true := by
        cases token with
        | additive s => exact absurd ⟨s, rfl⟩ sign
        | _ => nofun
      have ends : signRunStep (token :: rest, negative) =
          pure (.inr (token :: rest, negative)) := by
        cases token with
        | additive s => exact absurd ⟨s, rfl⟩ sign
        | _ => rfl
      rw [iterate_done ends, List.dropWhile_cons_of_neg other, List.takeWhile_cons_of_neg other]
      simp

theorem exponentStep_kept {token : Token} {moved : List Token}
    (kept : ¬ (moved.getLast?.any Token.isMark ∧ token = .dual .exponent)) (rest : List Token) :
    exponentStep (token :: rest, moved) = pure (.inl (rest, moved ++ [token])) := by
  rw [exponentStep, if_pos]
  by_cases key : token = .dual .exponent
  · exact .inr fun marked => kept ⟨marked, key⟩
  · exact .inl key

theorem exponentStep_key {moved : List Token} (marked : moved.getLast?.any Token.isMark)
    (rest : List Token) :
    exponentStep (.dual .exponent :: rest, moved) =
      pure (.inl (rest.dropWhile Token.isAdditive,
        moved ++ Token.exponentMarks (rest.takeWhile Token.isAdditive))) := by
  rw [exponentStep, if_neg (by simp [marked]), iterate_signRun, pure_bind, Token.exponentMarks]
  simp only [Bool.false_xor, decide_eq_true_eq]
  congr 4
  split <;> rfl

theorem getLast?_exponentMarks (moved signs : List Token) :
    (moved ++ Token.exponentMarks signs).getLast?.any Token.isMark = true := by
  rw [Token.exponentMarks, List.getLast?_append]
  split <;> rfl

theorem iterate_exponents (tokens moved : List Token) :
    iterate exponentStep (tokens, moved) =
      pure (moved ++ foldExponents (moved.getLast?.any Token.isMark) tokens) := by
  -- The sign keys after an exponent key go with it, so the tokens left are not the next tail.
  induction size : tokens.length using Nat.strongRecOn generalizing tokens moved with
  | _ count ih =>
  subst size
  cases tokens with
  | nil =>
    rw [foldExponents, List.append_nil]
    exact iterate_done rfl
  | cons token rest =>
    rw [foldExponents]
    by_cases key : moved.getLast?.any Token.isMark = true ∧ token = .dual .exponent
    · obtain ⟨marked, rfl⟩ := key
      have shorter : (rest.dropWhile Token.isAdditive).length <
          (Token.dual .exponent :: rest).length :=
        Nat.lt_succ_of_le (List.dropWhile_suffix _).length_le
      rw [if_pos ⟨marked, rfl⟩, iterate_next (exponentStep_key marked rest), ih _ shorter _ _ rfl,
        getLast?_exponentMarks, List.append_assoc]
    · rw [if_neg key, iterate_next (exponentStep_kept key rest),
        ih _ (Nat.lt_succ_self _) _ _ rfl, List.getLast?_concat, Option.any_some,
        ← List.append_cons]

theorem reduce_eq (unit : AngleUnit) (tokens : List Token) :
    Splice.reduce (.of unit) tokens = calculate (ScientificCalculator.reduce unit tokens) := by
  rw [Splice.reduce, iterate_exponents, pure_bind, ScientificCalculator.reduce, calculate_bind]
  refine bind_congr fun settled => ?_
  rw [settleSigns_eq, pure_bind, iterate_trailing_start, calculate_bind]
  refine bind_congr fun trailed => ?_
  rw [iterate_dual_start, calculate_bind]
  refine bind_congr fun bound => ?_
  rw [sweepUnary_eq, calculate_bind]
  refine bind_congr fun led => ?_
  rw [iterate_fromFirst iterate_multiplicative (iterate_end (Nat.zero_le _)), calculate_bind]
  refine bind_congr fun multiplied => ?_
  rw [iterate_fromFirst iterate_additive (iterate_end (Nat.zero_le _)), calculate_bind]

end ScientificCalculator.Splice
