import ScientificCalculator.Proofs.Groups
import ScientificCalculator.Session

/-!
Calculations that follow each other mean one expression. A constant is read as the value it holds,
and a value as the group it is the value of; so each key that recalls the result of a calculation
may be replaced by this calculation in parentheses, however often it is pressed.
-/

namespace ScientificCalculator

variable {unit : AngleUnit}

section Constants

theorem isMark_settle (token : Token) : token.settle.isMark = token.isMark := by
  cases token <;> rfl

theorem takeWhile_map_settle (tokens : List Token) :
    (tokens.map Token.settle).takeWhile Token.isAdditive = tokens.takeWhile Token.isAdditive ∧
      (tokens.map Token.settle).dropWhile Token.isAdditive =
        (tokens.dropWhile Token.isAdditive).map Token.settle := by
  induction tokens with
  | nil => exact ⟨rfl, rfl⟩
  | cons token rest ih =>
    cases token with
    | additive s =>
      obtain ⟨taken, dropped⟩ := ih
      exact ⟨congrArg (Token.additive s :: ·) taken, dropped⟩
    | _ => exact ⟨rfl, rfl⟩

theorem exponentMarks_map_settle (signs : List Token) :
    (Token.exponentMarks signs).map Token.settle = Token.exponentMarks signs := by
  unfold Token.exponentMarks
  split <;> rfl

theorem settle_eq_dual_iff {token : Token} {operator : DualOperator} :
    token.settle = .dual operator ↔ token = .dual operator := by
  cases token <;> simp [Token.settle]

theorem foldExponents_map_settle (afterMark : Bool) (tokens : List Token) :
    foldExponents afterMark (tokens.map Token.settle) =
      (foldExponents afterMark tokens).map Token.settle := by
  fun_induction foldExponents afterMark tokens with
  | case1 => rw [List.map_nil, foldExponents]
  | case2 afterMark token rest folds ih =>
    obtain ⟨taken, dropped⟩ := takeWhile_map_settle rest
    rw [List.map_cons, foldExponents, if_pos ⟨folds.1, settle_eq_dual_iff.2 folds.2⟩, taken, dropped,
      ih, List.map_append, exponentMarks_map_settle]
  | case3 afterMark token rest stays ih =>
    have stays' : ¬ (afterMark = true ∧ token.settle = .dual .exponent) :=
      fun folds => stays ⟨folds.1, settle_eq_dual_iff.1 folds.2⟩
    rw [List.map_cons, foldExponents, if_neg stays', isMark_settle, ih, List.map_cons]

theorem readNumerals_map_settle (marks : List Mark) (tokens : List Token) :
    readNumerals marks (tokens.map Token.settle) = readNumerals marks tokens := by
  induction tokens generalizing marks with
  | nil => rfl
  | cons token rest ih =>
    have settles (token' : Token) : (do
        let numeral ← closeNumeral marks
        let others ← readNumerals [] (rest.map Token.settle)
        return numeral ++ token' :: others) = (do
        let numeral ← closeNumeral marks
        let others ← readNumerals [] rest
        return numeral ++ token' :: others) := by
      rw [ih]
    cases token with
    | mark m => exact ih _
    | _ => exact settles _

/-- A constant has the part of its value in a reduction. -/
theorem reduce_map_settle (tokens : List Token) :
    reduce unit (tokens.map Token.settle) = reduce unit tokens := by
  rw [reduce, reduce, foldExponents_map_settle, readNumerals_map_settle]

theorem settle_eq_opening_iff {token : Token} : token.settle = .opening ↔ token = .opening := by
  cases token <;> simp [Token.settle]

theorem settle_eq_closing_iff {token : Token} : token.settle = .closing ↔ token = .closing := by
  cases token <;> simp [Token.settle]

theorem evaluateGroups_map_settle (outer : List (List Token)) (group tokens : List Token) :
    evaluateGroups unit (outer.map (List.map Token.settle)) (group.map Token.settle)
        (tokens.map Token.settle) = evaluateGroups unit outer group tokens := by
  fun_induction evaluateGroups unit outer group tokens with
  | case1 group => exact reduce_map_settle group
  | case2 outer group unclosed =>
    rw [List.map_nil, evaluateGroups, if_neg (by simpa using unclosed)]
  | case3 outer group rest ih => exact ih
  | case4 group rest => rfl
  | case5 rest enclosing others => rfl
  | case6 group rest enclosing others nonempty ih =>
    have nonempty' : group.map Token.settle ≠ [] := by simpa using nonempty
    have closes : (Token.closing :: rest).map Token.settle = .closing :: rest.map Token.settle := rfl
    rw [closes, List.map_cons, evaluateGroups, if_neg nonempty', reduce_map_settle]
    refine bind_congr fun x => ?_
    rw [← ih x, List.map_append]
    rfl
  | case7 outer group token rest notOpening notClosing ih =>
    have plain : ∀ other ∈ [token.settle], other ≠ .opening ∧ other ≠ .closing := by
      rintro other member
      rw [List.mem_singleton.1 member, ne_eq, ne_eq, settle_eq_opening_iff, settle_eq_closing_iff]
      exact ⟨notOpening, notClosing⟩
    rw [List.map_cons, ← List.singleton_append, evaluateGroups_plain plain, ← ih, List.map_append]
    rfl

end Constants

/-- The tokens with a group in parentheses in place of each that `stands` picks out. -/
def expand (stands : Token → Bool) (group : List Token) (tokens : List Token) : List Token :=
  tokens.flatMap fun token => if stands token then .opening :: (group ++ [.closing]) else [token]

section Expansion
variable {stands : Token → Bool} {group : List Token}

theorem expand_cons_of_stands {token : Token} (replaced : stands token = true)
    (rest : List Token) : expand stands group (token :: rest) =
      .opening :: (group ++ .closing :: expand stands group rest) := by
  simp [expand, replaced]

theorem expand_cons_of_not {token : Token} (kept : ¬ stands token = true) (rest : List Token) :
    expand stands group (token :: rest) = token :: expand stands group rest := by
  simp [expand, kept]

theorem expand_plain (plain : ∀ token ∈ group, token.isMemory = false) {tokens : List Token}
    (plain' : ∀ token ∈ tokens, token.isMemory = false) :
    ∀ token ∈ expand stands group tokens, token.isMemory = false := by
  intro token member
  obtain ⟨original, source, member⟩ := List.mem_flatMap.1 member
  split at member
  · simp only [List.mem_cons, List.mem_append, List.not_mem_nil, or_false] at member
    rcases member with rfl | inside | rfl
    · rfl
    · exact plain token inside
    · rfl
  · rw [List.mem_singleton.1 member]
    exact plain' original source

/-- Each replacement brings as many opening as closing parentheses. -/
theorem count_expand (balanced : group.count .opening = group.count .closing)
    {tokens : List Token}
    (operands : ∀ token ∈ tokens, stands token = true → token ≠ .opening ∧ token ≠ .closing) :
    (expand stands group tokens).count .opening + tokens.count .closing =
      (expand stands group tokens).count .closing + tokens.count .opening := by
  induction tokens with
  | nil => rfl
  | cons token rest ih =>
    have later := ih fun other member => operands other (List.mem_cons_of_mem _ member)
    by_cases replaced : stands token = true
    · obtain ⟨notOpening, notClosing⟩ := operands token List.mem_cons_self replaced
      rw [expand_cons_of_stands replaced]
      simp only [List.count_cons_self, List.count_append, List.count_cons_of_ne, ne_eq, reduceCtorEq,
        not_false_eq_true, List.count_cons_of_ne notOpening, List.count_cons_of_ne notClosing,
        balanced]
      omega
    · rw [expand_cons_of_not replaced, List.count_cons, List.count_cons, List.count_cons,
        List.count_cons]
      omega

theorem evaluateGroups_expand {x : Decimal} (valued : evaluateGroups unit [] [] group = .ok x)
    (tokens : List Token) (outer : List (List Token)) (enclosing : List Token) :
    evaluateGroups unit outer enclosing (expand stands group tokens) =
      evaluateGroups unit outer enclosing
        (tokens.map fun token => if stands token then .value x else token) := by
  induction tokens generalizing outer enclosing with
  | nil => rfl
  | cons token rest ih =>
    by_cases replaced : stands token = true
    · rw [expand_cons_of_stands replaced, List.map_cons, if_pos replaced]
      exact (evaluateGroups_close valued enclosing outer _).trans (ih _ _)
    · rw [expand_cons_of_not replaced, List.map_cons, if_neg replaced]
      exact evaluateGroups_append ih [token] outer enclosing

/-- Constants that hold the value of a group may all be replaced by the group. -/
theorem evaluate_expand {x : Decimal} {tokens : List Token}
    (plain : ∀ token ∈ group, token.isMemory = false) (evaluated : evaluate unit group = .ok x)
    (plain' : ∀ token ∈ tokens, token.isMemory = false)
    (held : ∀ token ∈ tokens, stands token = true → token.settle = .value x) :
    evaluate unit (expand stands group tokens) = evaluate unit tokens := by
  obtain ⟨-, balanced, valued⟩ := evaluate_eq_ok_iff.1 evaluated
  rw [splitMemoryOperation_of_plain plain] at balanced valued
  have counts : (expand stands group tokens).count .opening + tokens.count .closing =
      (expand stands group tokens).count .closing + tokens.count .opening :=
    count_expand balanced fun token member replaced => by
      have known := held token member replaced
      constructor
      · rintro rfl
        cases known
      · rintro rfl
        cases known
  have settled : (tokens.map fun token => if stands token then .value x else token).map
      Token.settle = tokens.map Token.settle := by
    rw [List.map_map]
    refine List.map_congr_left fun token member => ?_
    by_cases replaced : stands token = true
    · rw [Function.comp_apply, if_pos replaced, held token member replaced]
      rfl
    · rw [Function.comp_apply, if_neg replaced]
  have groups : evaluateGroups unit [] [] (expand stands group tokens) =
      evaluateGroups unit [] [] tokens := by
    rw [evaluateGroups_expand valued, ← evaluateGroups_map_settle, settled]
    exact evaluateGroups_map_settle [] [] tokens
  have unmixed : tokens.any Token.isMemory = false := by simpa using plain'
  have unmixed' : (expand stands group tokens).any Token.isMemory = false := by
    simpa using expand_plain plain plain'
  have same : (expand stands group tokens).count .opening ≠
      (expand stands group tokens).count .closing ↔ tokens.count .opening ≠ tokens.count .closing := by
    omega
  simp only [evaluate, splitMemoryOperation_of_plain plain',
    splitMemoryOperation_of_plain (expand_plain plain plain'), unmixed, unmixed', same, groups]

end Expansion

/-- The numbers that a session keeps. -/
inductive Register where
  | memory
  | answer
  deriving DecidableEq

def Registers.held (registers : Registers) : Register → Decimal
  | .memory => registers.memory
  | .answer => registers.answer

def Token.recalls (register : Register) : Token → Bool
  | constant (.answer _) => register = .answer
  | constant (.recalled _) => register = .memory
  | _ => false

def WithoutMemoryKeys (identifiers : List String) : Prop :=
  ∀ operation : MemoryOperation, (Key.memory operation).identifier ∉ identifiers

section Assembly
variable {registers : Registers} {identifiers : List String} {token : Token}

theorem Token.ofIdentifier?_identifier (key : Key) :
    Token.ofIdentifier? registers key.identifier = some (key.token registers) := by
  rw [Token.ofIdentifier?, Key.ofIdentifier?_identifier]
  rfl

theorem assemble_identifiers (keys : List Key) :
    assemble registers (keys.map Key.identifier) = keys.map (Key.token registers) := by
  have each : Token.ofIdentifier? registers ∘ Key.identifier = some ∘ Key.token registers :=
    funext Token.ofIdentifier?_identifier
  rw [assemble, List.filterMap_map, each, List.filterMap_eq_map]

theorem exists_key_of_mem_assemble (member : token ∈ assemble registers identifiers) :
    ∃ key : Key, key.identifier ∈ identifiers ∧ token = key.token registers := by
  obtain ⟨identifier, source, found⟩ := List.mem_filterMap.1 member
  obtain ⟨key, named, rfl⟩ := Option.map_eq_some_iff.1 found
  exact ⟨key, Key.identifier_of_ofIdentifier? named ▸ source, rfl⟩

theorem isMemory_of_mem_assemble (without : WithoutMemoryKeys identifiers)
    (member : token ∈ assemble registers identifiers) : token.isMemory = false := by
  obtain ⟨key, source, rfl⟩ := exists_key_of_mem_assemble member
  cases key with
  | memory operation => exact absurd source (without operation)
  | _ => rfl

theorem settle_of_recalls {register : Register} (member : token ∈ assemble registers identifiers)
    (recalled : token.recalls register = true) :
    token.settle = .value (registers.held register) := by
  obtain ⟨key, -, rfl⟩ := exists_key_of_mem_assemble member
  cases key with
  | answer => rw [of_decide_eq_true recalled]; rfl
  | recalled => rw [of_decide_eq_true recalled]; rfl
  | _ => cases recalled

theorem assemble_memory_cons (operation : MemoryOperation) (identifiers : List String) :
    assemble registers ((Key.memory operation).identifier :: identifiers) =
      .memory operation :: assemble registers identifiers := by
  have named : Token.ofIdentifier? registers (Key.memory operation).identifier =
      some (.memory operation) := Token.ofIdentifier?_identifier (.memory operation)
  exact List.filterMap_cons_some named

end Assembly

namespace Session
variable {session next : Session} {calculation : Calculation} {first second : List String}

/-- What a calculation shows: a value and its text, or an error. -/
def outcome (session : Session) (identifiers : List String) : Except Error (Decimal × List Char) :=
  (fun result => (result.value, result.display)) <$> (session.calculate identifiers).1

theorem outcome_eq (session : Session) (identifiers : List String) :
    session.outcome identifiers = evaluateWithin session.unit session.width
      (splitMemoryOperation (assemble session.registers identifiers)).2 := by
  rw [outcome, calculate_eq]
  cases evaluateWithin session.unit session.width
      (splitMemoryOperation (assemble session.registers identifiers)).2 with
  | error e => rfl
  | ok shown => rfl

theorem outcome_of_plain (without : WithoutMemoryKeys second) (session : Session) :
    session.outcome second =
      evaluateWithin session.unit session.width (assemble session.registers second) := by
  rw [outcome_eq, splitMemoryOperation_of_plain fun _ => isMemory_of_mem_assemble without]

/-- A calculation that succeeds has a value, shows it within the width and puts it into the
registers. -/
theorem parts_of_calculate_eq_ok {identifiers : List String}
    (succeeded : session.calculate identifiers = (.ok calculation, next)) :
    evaluate session.unit (splitMemoryOperation (assemble session.registers identifiers)).2 =
        .ok calculation.value ∧
      Display.fit calculation.value session.width = .ok calculation.display ∧
      next = { session with
        registers := session.registers.record
          (splitMemoryOperation (assemble session.registers identifiers)).1 calculation.value } := by
  rw [calculate_eq] at succeeded
  cases shown : evaluateWithin session.unit session.width
      (splitMemoryOperation (assemble session.registers identifiers)).2 with
  | error e =>
    rw [shown] at succeeded
    cases succeeded
  | ok result =>
    rw [shown] at succeeded
    obtain ⟨x, evaluated, fitted⟩ := bind_eq_ok_iff.1 shown
    obtain ⟨text, found, same⟩ := bind_eq_ok_iff.1 fitted
    cases same
    cases succeeded
    exact ⟨evaluated, found, rfl⟩

theorem of_calculate_eq_ok {identifiers : List String}
    (succeeded : session.calculate identifiers = (.ok calculation, next)) :
    evaluate session.unit (splitMemoryOperation (assemble session.registers identifiers)).2 =
        .ok calculation.value ∧
      next = { session with
        registers := session.registers.record
          (splitMemoryOperation (assemble session.registers identifiers)).1 calculation.value } := by
  obtain ⟨evaluated, -, recorded⟩ := parts_of_calculate_eq_ok succeeded
  exact ⟨evaluated, recorded⟩

theorem fit_of_calculate_eq_ok {identifiers : List String}
    (succeeded : session.calculate identifiers = (.ok calculation, next)) :
    Display.fit calculation.value session.width = .ok calculation.display ∧
      next.width = session.width := by
  obtain ⟨-, fitted, recorded⟩ := parts_of_calculate_eq_ok succeeded
  rw [recorded]
  exact ⟨fitted, rfl⟩

/-- A key that recalls a register stands for an expression with the value held there. -/
theorem outcome_eq_expand {register : Register} {group : List Token}
    (plain : ∀ token ∈ group, token.isMemory = false)
    (evaluated : evaluate session.unit group = .ok (session.registers.held register))
    (without : WithoutMemoryKeys second) :
    session.outcome second = evaluateWithin session.unit session.width
      (expand (Token.recalls register) group (assemble session.registers second)) := by
  rw [outcome_of_plain without, evaluateWithin, evaluateWithin,
    evaluate_expand plain evaluated (fun _ => isMemory_of_mem_assemble without)
      fun _ => settle_of_recalls]

/-- After a calculation, the answer key stands for this calculation in parentheses, with the
registers as they were before it; and so does the memory key if the calculation stored its
result. -/
theorem outcome_after_calculate (session : Session) (without : WithoutMemoryKeys first)
    (without' : WithoutMemoryKeys second) :
    (∀ calculation next, session.calculate first = (.ok calculation, next) →
      next.outcome second = evaluateWithin session.unit session.width
        (expand (Token.recalls .answer) (assemble session.registers first)
          (assemble next.registers second))) ∧
    (∀ calculation next,
      session.calculate ((Key.memory .store).identifier :: first) = (.ok calculation, next) →
      next.outcome second = evaluateWithin session.unit session.width
        (expand (Token.recalls .memory) (assemble session.registers first)
          (assemble next.registers second))) := by
  have plain : ∀ token ∈ assemble session.registers first, token.isMemory = false :=
    fun _ => isMemory_of_mem_assemble without
  constructor
  · intro calculation next succeeded
    obtain ⟨evaluated, rfl⟩ := of_calculate_eq_ok succeeded
    rw [splitMemoryOperation_of_plain plain] at evaluated
    exact outcome_eq_expand plain evaluated without'
  · intro calculation next succeeded
    obtain ⟨evaluated, rfl⟩ := of_calculate_eq_ok succeeded
    rw [assemble_memory_cons] at evaluated ⊢
    exact outcome_eq_expand plain evaluated without'

/-- The divisor of 1 ÷ (Ans − RCL) is not zero after 2 + 1, and zero if its result was stored. -/
theorem outcome_after_sum :
    (Session.mk ⟨⟨5, 0⟩, ⟨2, 0⟩⟩ .degrees 24).calculate ["ANS", "+", "#1"] =
        (.ok ⟨⟨3, 0⟩, ['3', '.', '0'], none, []⟩, ⟨⟨⟨5, 0⟩, ⟨3, 0⟩⟩, .degrees, 24⟩) ∧
      (Session.mk ⟨⟨5, 0⟩, ⟨3, 0⟩⟩ .degrees 24).outcome ["#1", "/", "(", "ANS", "-", "RCL", ")"] =
        evaluateWithin .degrees 24 [.mark (.digit 1), .multiplicative .divide, .opening,
          .opening, .constant (.answer ⟨2, 0⟩), .additive .plus, .mark (.digit 1), .closing,
          .additive .minus, .constant (.recalled ⟨5, 0⟩), .closing] ∧
      (Session.mk ⟨⟨5, 0⟩, ⟨2, 0⟩⟩ .degrees 24).calculate ["STO", "ANS", "+", "#1"] =
        (.ok ⟨⟨3, 0⟩, ['3', '.', '0'], some .store, []⟩, ⟨⟨⟨3, 0⟩, ⟨3, 0⟩⟩, .degrees, 24⟩) ∧
      (Session.mk ⟨⟨3, 0⟩, ⟨3, 0⟩⟩ .degrees 24).outcome ["#1", "/", "(", "ANS", "-", "RCL", ")"] =
        evaluateWithin .degrees 24 [.mark (.digit 1), .multiplicative .divide, .opening,
          .constant (.answer ⟨3, 0⟩), .additive .minus,
          .opening, .constant (.answer ⟨2, 0⟩), .additive .plus, .mark (.digit 1), .closing,
          .closing] := by
  have without : WithoutMemoryKeys ["ANS", "+", "#1"] := by
    intro operation
    cases operation <;> decide +kernel
  have without' : WithoutMemoryKeys ["#1", "/", "(", "ANS", "-", "RCL", ")"] := by
    intro operation
    cases operation <;> decide +kernel
  have summed : (Session.mk ⟨⟨5, 0⟩, ⟨2, 0⟩⟩ .degrees 24).calculate ["ANS", "+", "#1"] =
      (.ok ⟨⟨3, 0⟩, ['3', '.', '0'], none, []⟩, ⟨⟨⟨5, 0⟩, ⟨3, 0⟩⟩, .degrees, 24⟩) := by
    with_unfolding_all rfl
  have stored : (Session.mk ⟨⟨5, 0⟩, ⟨2, 0⟩⟩ .degrees 24).calculate ["STO", "ANS", "+", "#1"] =
      (.ok ⟨⟨3, 0⟩, ['3', '.', '0'], some .store, []⟩, ⟨⟨⟨3, 0⟩, ⟨3, 0⟩⟩, .degrees, 24⟩) := by
    with_unfolding_all rfl
  have chained := outcome_after_calculate ⟨⟨⟨5, 0⟩, ⟨2, 0⟩⟩, .degrees, 24⟩ without without'
  exact ⟨summed, chained.1 _ _ summed, stored, chained.2 _ _ stored⟩

end Session

end ScientificCalculator
