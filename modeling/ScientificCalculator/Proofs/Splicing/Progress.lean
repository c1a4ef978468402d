import ScientificCalculator.Proofs.Splicing.Groups

/-!
What a round of each loop over the tokens does: one that is not the last moves an index on, shortens
a list or takes a pair of parentheses away, whatever the operators do to their operands.
-/

namespace ScientificCalculator.Splice
open Program

variable {tokens out : List Token} {i : Nat} {operators : Operators}

theorem length_of_write {token : Token} (written : write tokens i token = pure out) :
    out.length = tokens.length := by
  unfold write at written
  split at written
  · cases written
    exact List.length_set
  · cases written

theorem length_of_remove (removed : remove tokens i = pure out) :
    out.length + 1 = tokens.length := by
  unfold remove at removed
  split at removed
  · next inside =>
    cases removed
    rw [List.length_eraseIdx_of_lt inside]
    omega
  · cases removed

theorem length_of_drain {taken : List Token} {first last : Nat}
    (drained : drain tokens first last = pure (taken, out)) :
    out.length + (last - first) = tokens.length := by
  unfold drain at drained
  split at drained
  · cases drained
    rw [List.length_append, List.length_take, List.length_drop]
    omega
  · cases drained

theorem length_of_spliceTrailing {f : TrailingFunction}
    (spliced : spliceTrailing operators f i tokens = pure out) : out.length < tokens.length := by
  unfold spliceTrailing at spliced
  split at spliced
  · cases spliced
  · obtain ⟨left, -, spliced⟩ := bind_eq_pure_iff.1 spliced
    obtain ⟨x, -, spliced⟩ := bind_eq_pure_iff.1 spliced
    obtain ⟨y, -, spliced⟩ := bind_eq_pure_iff.1 spliced
    obtain ⟨written, write, remove⟩ := bind_eq_pure_iff.1 spliced
    have kept := length_of_write write
    have shorter := length_of_remove remove
    omega

theorem length_of_spliceBinary {apply : Decimal → Decimal → Option (Except Error Decimal)}
    (spliced : spliceBinary apply i tokens = pure out) : out.length < tokens.length := by
  obtain ⟨left, -, spliced⟩ := bind_eq_pure_iff.1 spliced
  obtain ⟨x, -, spliced⟩ := bind_eq_pure_iff.1 spliced
  obtain ⟨y, -, spliced⟩ := bind_eq_pure_iff.1 spliced
  obtain ⟨z, -, spliced⟩ := bind_eq_pure_iff.1 spliced
  obtain ⟨written, write, spliced⟩ := bind_eq_pure_iff.1 spliced
  obtain ⟨⟨taken, others⟩, drain, rest⟩ := bind_eq_pure_iff.1 spliced
  cases rest
  have kept := length_of_write write
  have shorter := length_of_drain drain
  omega

theorem length_of_spliceUnary (spliced : spliceUnary operators i tokens = pure out) :
    out.length + 1 = tokens.length := by
  obtain ⟨token, -, spliced⟩ := bind_eq_pure_iff.1 spliced
  obtain ⟨x, -, spliced⟩ := bind_eq_pure_iff.1 spliced
  obtain ⟨y, -, spliced⟩ := bind_eq_pure_iff.1 spliced
  obtain ⟨written, write, remove⟩ := bind_eq_pure_iff.1 spliced
  have kept := length_of_write write
  have shorter := length_of_remove remove
  omega

theorem length_of_descend {count : Nat}
    (ends : descend (spliceUnary operators) i count tokens = pure out) :
    out.length ≤ tokens.length := by
  induction count generalizing tokens with
  | zero =>
    cases ends
    exact Nat.le_refl _
  | succ count ih =>
    obtain ⟨spliced, splice, ends⟩ := bind_eq_pure_iff.1 ends
    have shorter := length_of_spliceUnary splice
    exact Nat.le_trans (ih ends) (by omega)

theorem length_of_spliceDual {o : DualOperator}
    (spliced : spliceDual operators o i tokens = pure out) : out.length < tokens.length := by
  unfold spliceDual at spliced
  split at spliced
  · cases spliced
  · obtain ⟨last, -, spliced⟩ := bind_eq_pure_iff.1 spliced
    obtain ⟨collapsed, run, spliced⟩ := bind_eq_pure_iff.1 spliced
    exact Nat.lt_of_lt_of_le (length_of_spliceBinary spliced) (length_of_descend run)

/-- The index moves on inside the list, or the list gets shorter. -/
def Cursor.Progress (cursor next : Cursor) : Prop :=
  cursor.index < cursor.tokens.length ∧
    (next = ⟨cursor.tokens, cursor.index + 1⟩ ∨
      next.index = cursor.index ∧ next.tokens.length < cursor.tokens.length)

theorem eachRound_pass {ω : Type} {margin : Nat} {select : Token → Option ω}
    {splice : ω → Nat → List Token → Program (List Token)}
    (shortens : ∀ found i tokens spliced,
      splice found i tokens = pure spliced → spliced.length < tokens.length) :
    EachRound (passStep margin select splice) Cursor.Progress := by
  intro cursor next goesOn
  unfold passStep at goesOn
  split at goesOn
  · next inside =>
    refine ⟨Nat.lt_of_le_of_lt (Nat.le_add_right _ _) inside, ?_⟩
    obtain ⟨token, -, goesOn⟩ := bind_eq_pure_iff.1 goesOn
    split at goesOn
    · obtain ⟨spliced, splice, goesOn⟩ := bind_eq_pure_iff.1 goesOn
      cases goesOn
      exact .inr ⟨rfl, shortens _ _ _ _ splice⟩
    · cases goesOn
      exact .inl rfl
  · cases goesOn

theorem eachRound_run (tokens : List Token) :
    EachRound (runStep tokens) fun last next => last < tokens.length ∧ next = last + 1 := by
  intro last next goesOn
  unfold runStep at goesOn
  split at goesOn
  · next unary =>
    cases goesOn
    refine ⟨Nat.lt_of_not_le fun beyond => ?_, rfl⟩
    rw [List.getElem?_eq_none beyond] at unary
    cases unary
  · cases goesOn

theorem eachRound_signRun :
    EachRound signRunStep fun state next => next.1.length < state.1.length := by
  rintro ⟨tokens, negative⟩ next goesOn
  cases tokens with
  | nil => cases goesOn
  | cons token rest =>
    cases token with
    | additive s =>
      cases goesOn
      exact Nat.lt_succ_self _
    | _ => cases goesOn

theorem eachRound_exponents :
    EachRound exponentStep fun state next => next.1.length < state.1.length := by
  rintro ⟨tokens, moved⟩ next goesOn
  cases tokens with
  | nil => cases goesOn
  | cons token rest =>
    by_cases key : moved.getLast?.any Token.isMark = true ∧ token = .dual .exponent
    · obtain ⟨marked, rfl⟩ := key
      rw [exponentStep_key marked] at goesOn
      cases goesOn
      exact Nat.lt_succ_of_le (List.dropWhile_suffix _).length_le
    · rw [exponentStep_kept key] at goesOn
      cases goesOn
      exact Nat.lt_succ_self _

theorem eachRound_groups (operators : Operators) :
    EachRound (groupStep operators) fun tokens next =>
      next.count .opening + 1 = tokens.count .opening ∧
        next.count .closing + 1 = tokens.count .closing := by
  intro tokens next goesOn
  rcases groupStep_cases operators tokens with
    ⟨ends, plain⟩ | ⟨fails, -⟩ | ⟨before, group, after, rfl, first, notOpening, notClosing⟩
  · rw [ends] at goesOn
    cases goesOn
  · rw [fails] at goesOn
    cases goesOn
  · rw [groupStep_group first notOpening notClosing] at goesOn
    split at goesOn
    · cases goesOn
    · rw [map_eq_pure_bind] at goesOn
      obtain ⟨x, -, goesOn⟩ := bind_eq_pure_iff.1 goesOn
      cases goesOn
      simp only [List.count_append, List.count_cons_self, List.count_cons_of_ne, ne_eq,
        reduceCtorEq, not_false_eq_true, List.count_eq_zero.2 notOpening,
        List.count_eq_zero.2 notClosing]
      omega

/-- What a round of each loop does: it moves an index on, takes tokens away, or takes a pair of
parentheses away. -/
structure RoundsProgress (operators : Operators) : Prop where
  exponents : EachRound exponentStep fun state next => next.1.length < state.1.length
  signRun : EachRound signRunStep fun state next => next.1.length < state.1.length
  trailing : EachRound (trailingStep operators) Cursor.Progress
  dual : EachRound (dualStep operators) Cursor.Progress
  run : ∀ tokens, EachRound (runStep tokens) fun last next =>
    last < tokens.length ∧ next = last + 1
  multiplicative : EachRound (multiplicativeStep operators) Cursor.Progress
  additive : EachRound (additiveStep operators) Cursor.Progress
  groups : EachRound (groupStep operators) fun tokens next =>
    next.count .opening + 1 = tokens.count .opening ∧
      next.count .closing + 1 = tokens.count .closing

theorem roundsProgress (operators : Operators) : RoundsProgress operators where
  exponents := eachRound_exponents
  signRun := eachRound_signRun
  trailing := eachRound_pass fun _ _ _ _ => length_of_spliceTrailing
  dual := eachRound_pass fun _ _ _ _ => length_of_spliceDual
  run := eachRound_run
  multiplicative := eachRound_pass fun _ _ _ _ => length_of_spliceBinary
  additive := eachRound_pass fun _ _ _ _ => length_of_spliceBinary
  groups := eachRound_groups operators

end ScientificCalculator.Splice
