import Mathlib.Data.List.Forall2
import Mathlib.Data.List.TakeWhile
import ScientificCalculator.Proofs.Chaining
import ScientificCalculator.Proofs.Grammar.Acceptance

/-!
The keys of a sign. Where no operand ends, the key that adds or subtracts does what the key of a
unary sign does, with one exception: after the exponent key of a typed number it still belongs to
that number. Groups that no continuation tells apart are replaced by each other.
-/

namespace ScientificCalculator

variable {unit : AngleUnit}

section Lists
variable {α : Type} {p : α → Bool}

theorem takeWhile_append_cons {list : List α} {a : α}
    (stops : (∃ b ∈ list, p b = false) ∨ p a = false) (rest : List α) :
    (list ++ a :: rest).takeWhile p = list.takeWhile p ∧
      (list ++ a :: rest).dropWhile p = list.dropWhile p ++ a :: rest := by
  induction list with
  | nil =>
    have last := stops.resolve_left (by simp)
    simp [last]
  | cons b list ih =>
    by_cases passes : p b = true
    · have beyond : (∃ c ∈ list, p c = false) ∨ p a = false := by
        simpa [passes] using stops
      simp [passes, ih beyond]
    · simp [passes]

end Lists

section Folding

/-- What an exponent that is being typed may still take in. -/
def InExponent (run : List Token) : Prop :=
  ∀ token ∈ run, token = .dual .exponent ∨ token.isAdditive = true

/-- The tokens end with an exponent that is still being typed. -/
def OpenExponent (tokens : List Token) : Prop :=
  ∃ m run, .mark m :: .dual .exponent :: run <:+ tokens ∧ InExponent run

/-- The same with a mark before the tokens if `afterMark` says so. -/
def OpenAfter (afterMark : Bool) (tokens : List Token) : Prop :=
  (afterMark = true ∧ ∃ run, tokens = .dual .exponent :: run ∧ InExponent run) ∨
    OpenExponent tokens

theorem OpenExponent.of_suffix {tokens tokens' : List Token} (opened : OpenExponent tokens)
    (suffix : tokens <:+ tokens') : OpenExponent tokens' := by
  obtain ⟨m, run, last, inside⟩ := opened
  exact ⟨m, run, last.trans suffix, inside⟩

theorem openAfter_of_additive {run : List Token}
    (additive : ∀ token ∈ run, token.isAdditive = true) :
    OpenAfter true (.dual .exponent :: run) :=
  .inl ⟨rfl, run, rfl, fun token member => .inr (additive token member)⟩

theorem OpenAfter.of_dropWhile {rest : List Token}
    (opened : OpenAfter true (rest.dropWhile Token.isAdditive)) :
    OpenAfter true (.dual .exponent :: rest) := by
  rcases opened with ⟨-, run, same, inside⟩ | opened
  · refine .inl ⟨rfl, rest, rfl, ?_⟩
    rw [← List.takeWhile_append_dropWhile (p := Token.isAdditive) (l := rest), same]
    exact List.forall_mem_append.2 ⟨fun token member => .inr (List.mem_takeWhile_imp member),
      List.forall_mem_cons.2 ⟨.inl rfl, inside⟩⟩
  · exact .inr (opened.of_suffix ((List.dropWhile_suffix _).trans (List.suffix_cons _ _)))

theorem OpenAfter.cons {token : Token} {rest : List Token} (opened : OpenAfter token.isMark rest)
    (afterMark : Bool) : OpenAfter afterMark (token :: rest) := by
  rcases opened with ⟨marked, run, rfl, inside⟩ | opened
  · cases token with
    | mark m => exact .inr ⟨m, run, List.suffix_refl _, inside⟩
    | _ => cases marked
  · exact .inr (opened.of_suffix (List.suffix_cons _ _))

/-- A token that an exponent does not take in is passed over, and what follows it is folded by
itself. -/
theorem foldExponents_append_cons {token : Token} (plain : token.isMark = false)
    (other : token ≠ .dual .exponent) {afterMark : Bool} {before : List Token}
    (closed : token.isAdditive = true → ¬ OpenAfter afterMark before) (rest : List Token) :
    foldExponents afterMark (before ++ token :: rest) =
      foldExponents afterMark before ++ token :: foldExponents false rest := by
  fun_induction foldExponents afterMark before with
  | case1 afterMark =>
    rw [List.nil_append, foldExponents, if_neg fun folds => other folds.2, plain]
    rfl
  | case2 afterMark first before folds ih =>
    obtain ⟨rfl, rfl⟩ := folds
    have later := ih fun additive opened => closed additive opened.of_dropWhile
    have stops : (∃ b ∈ before, b.isAdditive = false) ∨ token.isAdditive = false := by
      by_contra neither
      simp only [not_or, not_exists, not_and, Bool.not_eq_false] at neither
      exact closed neither.2 (openAfter_of_additive neither.1)
    obtain ⟨taken, dropped⟩ := takeWhile_append_cons stops rest
    rw [List.cons_append, foldExponents, if_pos ⟨rfl, rfl⟩, taken, dropped, later,
      List.append_assoc]
  | case3 afterMark first before stays ih =>
    have later := ih fun additive opened => closed additive (opened.cons afterMark)
    rw [List.cons_append, foldExponents, if_neg stays, later, List.cons_append]

theorem getLast?_foldExponents {afterMark : Bool} {tokens : List Token}
    (closed : ¬ OpenAfter afterMark tokens) :
    (foldExponents afterMark tokens).getLast? = tokens.getLast? := by
  fun_induction foldExponents afterMark tokens with
  | case1 afterMark => rfl
  | case2 afterMark first rest folds ih =>
    obtain ⟨rfl, rfl⟩ := folds
    have later := ih fun opened => closed opened.of_dropWhile
    have remains : rest.dropWhile Token.isAdditive ≠ [] := fun none =>
      closed (openAfter_of_additive (List.dropWhile_eq_nil_iff.1 none))
    obtain ⟨last, found⟩ := Option.isSome_iff_exists.1 (List.getLast?_isSome.2 remains)
    have whole : rest.getLast? = some last := by
      rw [← List.takeWhile_append_dropWhile (p := Token.isAdditive) (l := rest),
        List.getLast?_append, found]
      rfl
    rw [List.getLast?_append, later, found, List.getLast?_cons, whole]
    rfl
  | case3 afterMark first rest stays ih =>
    have later := ih fun opened => closed (opened.cons afterMark)
    rw [List.getLast?_cons, later, List.getLast?_cons]

end Folding

/-- A number, a constant, a trailing function or a group ends here. -/
def Token.closesOperand : Token → Bool
  | mark _ => true
  | constant _ => true
  | value _ => true
  | trailing _ => true
  | closing => true
  | _ => false

/-- A sign after these tokens has no operand to its left and belongs to no typed exponent. -/
structure TakesUnary (tokens : List Token) : Prop where
  no_operand : ∀ token ∈ tokens.getLast?, token.closesOperand = false
  no_exponent : ¬ OpenExponent tokens

section Reading
open Grammar

theorem readNumerals_append_cons {token : Token} (plain : token.isMark = false) (marks : List Mark)
    (before rest : List Token) : readNumerals marks (before ++ token :: rest) = (do
      let first ← readNumerals marks before
      let others ← readNumerals [] rest
      return first ++ token.settle :: others) := by
  induction before generalizing marks with
  | nil => exact readNumerals_cons plain marks rest
  | cons first before ih =>
    cases known : first.isMark with
    | true =>
      cases first with
      | mark m => exact ih (marks ++ [m])
      | _ => cases known
    | false =>
      rw [List.cons_append, readNumerals_cons known, readNumerals_cons known, ih]
      simp

theorem readSigns_congr {tokens tokens' : List Token}
    (same : ∀ afterOperand, readSigns afterOperand tokens = readSigns afterOperand tokens')
    (before : List Token) (afterOperand : Bool) :
    readSigns afterOperand (before ++ tokens) = readSigns afterOperand (before ++ tokens') := by
  induction before generalizing afterOperand with
  | nil => exact same afterOperand
  | cons token before ih =>
    cases token with
    | additive s => exact congrArg (List.cons _) (ih _)
    | _ => exact congrArg (List.cons _) (ih _)

/-- The sign after a token that ends no operand is unary. -/
theorem readSigns_after {last : Token} (leads : last.closesOperand = false) (s : Sign)
    (rest : List Token) (afterOperand : Bool) :
    readSigns afterOperand (last :: .additive s :: rest) =
      readSigns afterOperand (last :: .unary (.sign s) :: rest) := by
  cases last <;> first | rfl | cases leads

theorem settle_of_leads {token : Token} (leads : token.closesOperand = false) :
    token.settle = token ∧ token.isMark = false := by
  cases token <;> first | exact ⟨rfl, rfl⟩ | cases leads

theorem read_sign {tokens : List Token}
    (leads : ∀ token ∈ tokens.getLast?, token.closesOperand = false) (s : Sign)
    (rest : List Token) :
    readSigns false <$> readNumerals [] (tokens ++ .additive s :: rest) =
      readSigns false <$> readNumerals [] (tokens ++ .unary (.sign s) :: rest) := by
  have next (token : Token) (known : token.isMark = false) (same : token.settle = token) :
      readNumerals [] (token :: rest) = (token :: ·) <$> readNumerals [] rest := by
    rw [readNumerals_cons known, same]
    cases readNumerals [] rest <;> rfl
  have sum := next (.additive s) rfl rfl
  have unary := next (.unary (.sign s)) rfl rfl
  rcases List.eq_nil_or_concat tokens with rfl | ⟨front, last, rfl⟩
  · rw [List.nil_append, List.nil_append, sum, unary]
    cases readNumerals [] rest <;> rfl
  · obtain ⟨settled, plain⟩ := settle_of_leads (leads last (by simp))
    rw [List.concat_eq_append, List.append_assoc, List.append_assoc, List.singleton_append,
      List.singleton_append, readNumerals_append_cons plain, readNumerals_append_cons plain, sum,
      unary, settled]
    cases readNumerals [] front with
    | error e => rfl
    | ok first =>
      cases readNumerals [] rest with
      | error e => rfl
      | ok others =>
        exact congrArg Except.ok
          (readSigns_congr (readSigns_after (leads last (by simp)) s others) first false)

theorem reduce_congr {tokens tokens' : List Token}
    (same : readSigns false <$> readNumerals [] (foldExponents false tokens) =
      readSigns false <$> readNumerals [] (foldExponents false tokens')) :
    reduce unit tokens = reduce unit tokens' := by
  rw [reduce, reduce]
  generalize readNumerals [] (foldExponents false tokens) = first at same ⊢
  generalize readNumerals [] (foldExponents false tokens') = second at same ⊢
  cases first with
  | error e =>
    cases second with
    | error e' =>
      cases same
      rfl
    | ok settled' => cases same
  | ok settled =>
    cases second with
    | error e' => cases same
    | ok settled' =>
      have signs : readSigns false settled = readSigns false settled' := Except.ok.inj same
      show (Reduction.applyTrailing none (readSigns false settled) >>= _) = _
      rw [signs]
      rfl

/-- In a group, the sign that adds or subtracts and the unary one are the same. -/
theorem reduce_sign {group : List Token} (takes : TakesUnary group) (s : Sign) (rest : List Token) :
    reduce unit (group ++ .additive s :: rest) =
      reduce unit (group ++ .unary (.sign s) :: rest) := by
  have closed : ¬ OpenAfter false group := fun opened =>
    takes.no_exponent (opened.resolve_left (by simp))
  have last : ∀ token ∈ (foldExponents false group).getLast?, token.closesOperand = false := by
    rw [getLast?_foldExponents closed]
    exact takes.no_operand
  apply reduce_congr
  have sum := @foldExponents_append_cons (.additive s) rfl nofun false group (fun _ => closed) rest
  have unary := @foldExponents_append_cons (.unary (.sign s)) rfl nofun false group nofun rest
  rw [sum, unary]
  exact read_sign last s _

end Reading

section Groups

/-- Groups that no continuation tells apart. -/
structure Alike (unit : AngleUnit) (group group' : List Token) : Prop where
  empty : group = [] ↔ group' = []
  reduce : ∀ rest, reduce unit (group ++ rest) = reduce unit (group' ++ rest)

theorem Alike.refl (group : List Token) : Alike unit group group := ⟨Iff.rfl, fun _ => rfl⟩

theorem Alike.append {group group' : List Token} (alike : Alike unit group group')
    (rest : List Token) : Alike unit (group ++ rest) (group' ++ rest) where
  empty := by rw [List.append_eq_nil_iff, List.append_eq_nil_iff, alike.empty]
  reduce after := by rw [List.append_assoc, List.append_assoc, alike.reduce]

theorem evaluateGroups_alike {outer outer' : List (List Token)}
    (around : List.Forall₂ (Alike unit) outer outer') {group group' : List Token}
    (alike : Alike unit group group') (tokens : List Token) :
    evaluateGroups unit outer group tokens = evaluateGroups unit outer' group' tokens := by
  induction tokens generalizing outer outer' group group' with
  | nil =>
    have same := alike.reduce []
    rw [List.append_nil, List.append_nil] at same
    cases around with
    | nil => exact same
    | cons => rfl
  | cons token tokens ih =>
    cases token with
    | opening => exact ih (.cons alike around) (.refl [])
    | closing =>
      have same := alike.reduce []
      rw [List.append_nil, List.append_nil] at same
      cases around with
      | nil => rfl
      | cons enclosing others =>
        rw [evaluateGroups, evaluateGroups, same]
        simp only [alike.empty]
        split
        · rfl
        · exact bind_congr fun x => ih others (enclosing.append [.value x])
    | _ => exact ih around (alike.append [_])

/-- What stands before a closed group does not matter after it. -/
theorem OpenExponent.of_append {before rest : List Token} {token : Token}
    (outside : token ≠ .dual .exponent ∧ token.isAdditive = false ∧ token.isMark = false)
    (opened : OpenExponent (before ++ token :: rest)) : OpenExponent rest := by
  obtain ⟨m, run, last, inside⟩ := opened
  rcases List.suffix_or_suffix_of_suffix last (List.suffix_append before (token :: rest)) with
    within | beyond
  · rcases List.suffix_cons_iff.1 within with same | within
    · obtain ⟨rfl, -⟩ := List.cons.inj same
      cases outside.2.2
    · exact ⟨m, run, within, inside⟩
  · obtain rfl | rfl | member : token = .mark m ∨ token = .dual .exponent ∨ token ∈ run := by
      simpa using beyond.mem List.mem_cons_self
    · cases outside.2.2
    · exact absurd rfl outside.1
    · rcases inside token member with same | additive
      · exact absurd same outside.1
      · rw [outside.2.1] at additive
        cases additive

theorem TakesUnary.of_append {before rest : List Token} {token : Token}
    (takes : TakesUnary (before ++ token :: rest)) : TakesUnary rest where
  no_operand last found := takes.no_operand last (by
    rw [Option.mem_def] at found
    rw [List.getLast?_append, List.getLast?_cons, found]
    rfl)
  no_exponent opened := takes.no_exponent (opened.of_suffix
    ((List.suffix_cons _ _).trans (List.suffix_append _ _)))

/-- After a closed group, this group may be replaced by its value. -/
theorem TakesUnary.of_closing {before rest : List Token}
    (takes : TakesUnary (before ++ .closing :: rest)) (enclosing : List Token) (x : Decimal) :
    TakesUnary (enclosing ++ [.value x] ++ rest) where
  no_operand last found := by
    rw [Option.mem_def, List.getLast?_append] at found
    cases inner : rest.getLast? with
    | none =>
      have closed := takes.no_operand .closing (by
        rw [Option.mem_def, List.getLast?_append, List.getLast?_cons, inner]
        rfl)
      cases closed
    | some token =>
      rw [inner] at found
      exact takes.of_append.no_operand last (inner.trans found)
  no_exponent opened := by
    rw [List.append_assoc, List.singleton_append] at opened
    exact takes.of_append.no_exponent
      (@OpenExponent.of_append enclosing rest (.value x) ⟨nofun, rfl, rfl⟩ opened)

theorem TakesUnary.after_memory {tokens : List Token} (takes : TakesUnary tokens) :
    TakesUnary (splitMemoryOperation tokens).2 := by
  cases tokens with
  | nil => exact takes
  | cons first rest =>
    cases first with
    | memory operation => exact @of_append [] rest (.memory operation) takes
    | _ => exact takes

/-- Wherever no operand ends, the sign that adds or subtracts and the unary one are the same. -/
theorem evaluateGroups_sign {before group : List Token} (takes : TakesUnary (group ++ before))
    (s : Sign) (after : List Token) (outer : List (List Token)) :
    evaluateGroups unit outer group (before ++ .additive s :: after) =
      evaluateGroups unit outer group (before ++ .unary (.sign s) :: after) := by
  induction before generalizing group outer with
  | nil =>
    rw [List.append_nil] at takes
    have alike : Alike unit (group ++ [.additive s]) (group ++ [.unary (.sign s)]) := by
      refine ⟨by simp, fun rest => ?_⟩
      rw [List.append_assoc, List.append_assoc]
      exact reduce_sign takes s rest
    exact evaluateGroups_alike (List.forall₂_same.2 fun group _ => .refl group) alike after
  | cons token before ih =>
    cases token with
    | opening =>
      have inside : TakesUnary ([] ++ before) := takes.of_append
      exact ih inside (group :: outer)
    | closing =>
      cases outer with
      | nil => rfl
      | cons enclosing others =>
        rw [List.cons_append, List.cons_append, evaluateGroups, evaluateGroups]
        split
        · rfl
        · exact bind_congr fun x => ih (takes.of_closing enclosing x) others
    | _ =>
      rw [← List.singleton_append, ← List.append_assoc] at takes
      exact ih takes outer

theorem evaluate_sign {before : List Token} (takes : TakesUnary before) (s : Sign)
    (after : List Token) :
    evaluate unit (before ++ .additive s :: after) =
      evaluate unit (before ++ .unary (.sign s) :: after) := by
  simp only [evaluate, splitMemoryOperation_append before (.additive s) rfl,
    splitMemoryOperation_append before (.unary (.sign s)) rfl]
  have start := takes.after_memory
  generalize (splitMemoryOperation before).2 = tokens at start ⊢
  have same : evaluateGroups unit [] [] (tokens ++ .additive s :: after) =
      evaluateGroups unit [] [] (tokens ++ .unary (.sign s) :: after) :=
    @evaluateGroups_sign unit tokens [] start s after []
  simp [Token.isMemory, List.count_append, same]

end Groups

section Keys
open Decimal

/-- A sign key after such a key adds or subtracts. -/
def Key.closesOperand : Key → Bool
  | mark _ => true
  | pi => true
  | answer => true
  | recalled => true
  | trailing _ => true
  | closing => true
  | _ => false

/-- The keys end with an exponent key directly after a mark, and with nothing but exponent keys and
keys that add or subtract behind it. -/
def ContinuesExponent (keys : List Key) : Prop :=
  ∃ m run, .mark m :: .dual .exponent :: run <:+ keys ∧
    ∀ key ∈ run, key = .dual .exponent ∨ ∃ s, key = .additive s

theorem closesOperand_token (registers : Registers) (key : Key) :
    (key.token registers).closesOperand = key.closesOperand := by
  cases key <;> rfl

/-- An exponent that is open among tokens is open among their keys. -/
theorem continuesExponent_of_openExponent {registers : Registers} {keys : List Key}
    (opened : OpenExponent (keys.map (Key.token registers))) : ContinuesExponent keys := by
  obtain ⟨m, run, ⟨front, parts⟩, inside⟩ := opened
  obtain ⟨before, last, rfl, -, parts⟩ := List.map_eq_append_iff.1 parts.symm
  obtain ⟨first, others, rfl, marked, parts⟩ := List.map_eq_cons_iff.1 parts
  obtain ⟨second, others, rfl, exponent, rfl⟩ := List.map_eq_cons_iff.1 parts
  have known : first = .mark m ∧ second = .dual .exponent := by
    constructor
    · cases first <;> simp_all [Key.token]
    · cases second <;> simp_all [Key.token]
  obtain ⟨rfl, rfl⟩ := known
  refine ⟨m, others, List.suffix_append _ _, fun key member => ?_⟩
  have allowed := inside _ (List.mem_map_of_mem member)
  cases key with
  | additive s => exact .inr ⟨s, rfl⟩
  | dual operator =>
    left
    simpa [Key.token, Token.isAdditive] using allowed
  | _ => simp [Key.token, Token.isAdditive] at allowed

/-- A key that adds or subtracts may be replaced by the key of the unary sign wherever no operand
ends and no typed exponent goes on. -/
theorem evaluate_sign_key (unit : AngleUnit) (registers : Registers) {before : List Key}
    (no_operand : ∀ key ∈ before.getLast?, key.closesOperand = false)
    (no_exponent : ¬ ContinuesExponent before) (s : Sign) (after : List Key) :
    evaluate unit (assemble registers ((before ++ .additive s :: after).map Key.identifier)) =
      evaluate unit (assemble registers ((before ++ .sign s :: after).map Key.identifier)) := by
  have takes : TakesUnary (before.map (Key.token registers)) := by
    constructor
    · intro token last
      rw [Option.mem_def, List.getLast?_map, Option.map_eq_some_iff] at last
      obtain ⟨key, found, rfl⟩ := last
      rw [closesOperand_token]
      exact no_operand key found
    · exact fun opened => no_exponent (continuesExponent_of_openExponent opened)
  rw [assemble_identifiers, assemble_identifiers, List.map_append, List.map_append]
  exact evaluate_sign takes s _

/-- A minus sign behind an opening parenthesis, with a difference after the group. -/
theorem evaluate_sign_key_in_group :
    evaluate .degrees (assemble ⟨zero, zero⟩ ["#6", "*", "(", "-", "#3", ")", "-", "#1"]) =
      evaluate .degrees (assemble ⟨zero, zero⟩ ["#6", "*", "(", "u-", "#3", ")", "-", "#1"]) := by
  refine @evaluate_sign_key .degrees ⟨zero, zero⟩
    [.mark (.digit 6), .multiplicative .times, .opening] (by decide) ?_ .minus
    [.mark (.digit 3), .closing, .additive .minus, .mark (.digit 1)]
  rintro ⟨m, run, ⟨front, parts⟩, -⟩
  rcases front with _ | ⟨_, _ | ⟨_, _ | ⟨_, front⟩⟩⟩ <;> simp at parts

/-- In a typed exponent, the key of the unary sign ends the number too early. -/
theorem evaluate_sign_key_in_exponent :
    (Key.dual .exponent).closesOperand = false ∧
      evaluate .degrees (assemble ⟨zero, zero⟩ ["#2", "E", "-", "#3"]) = .ok ⟨2, -3⟩ ∧
      evaluate .degrees (assemble ⟨zero, zero⟩ ["#2", "E", "u-", "#3"]) =
        .error (.malformedNumber "2e") :=
  ⟨rfl, by with_unfolding_all rfl, by with_unfolding_all rfl⟩

end Keys

end ScientificCalculator
