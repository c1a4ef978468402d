import ScientificCalculator.Proofs.Failure
import ScientificCalculator.Proofs.Grammar.Reading

/-!
Which lists of tokens are sentences. It only matters whether an operand has just ended: after one,
an operator or a trailing function may come, and before one, a sign or a leading function. No step
of the reduction changes whether a list is accepted, so a list with a value has a sentence.
-/

namespace ScientificCalculator.Grammar

/-- Whether the tokens end with an operand; `operand` says whether one ends just before them. -/
@[simp]
def accepts (operand : Bool) : List Token → Bool
  | [] => operand
  | .value _ :: rest => accepts true rest
  | .constant _ :: rest => accepts true rest
  | .unary _ :: rest => accepts false rest
  | .additive _ :: rest => accepts false rest
  | .dual _ :: rest => operand && accepts false rest
  | .multiplicative _ :: rest => operand && accepts false rest
  | .trailing _ :: rest => operand && accepts true rest
  | _ => false

namespace Sentence

theorem exists_follow (pending : Option Atom) {sentence : Sentence}
    (unsigned : sentence.firstRun.head?.any Lead.isSign = false) :
    ∃ result, follow pending sentence = some result := by
  cases pending with
  | none => exact ⟨sentence, rfl⟩
  | some atom => exact ⟨sentence.joinSum atom unsigned, by simp [follow, unsigned]⟩

theorem exists_read_of_accepts {pending : Option Atom} {tokens : List Token}
    (accepted : accepts pending.isSome tokens = true) :
    ∃ sentence, read pending tokens = some sentence := by
  fun_induction read pending tokens with
  | case1 pending =>
    obtain ⟨atom, rfl⟩ := Option.isSome_iff_exists.1 accepted
    exact ⟨ofAtom atom, rfl⟩
  | case2 pending x rest ih | case3 pending c rest ih =>
    obtain ⟨inner, reading⟩ := ih accepted
    have bare := (tokens_of_read reading).2 rfl
    rw [reading]
    exact exists_follow pending (by rw [bare]; rfl)
  | case4 pending u rest ih =>
    obtain ⟨inner, reading⟩ := ih accepted
    rw [reading]
    exact exists_follow pending rfl
  | case5 pending s rest ih =>
    obtain ⟨inner, reading⟩ := ih accepted
    rw [reading]
    exact ⟨_, rfl⟩
  | case6 pending o rest ih | case7 pending o rest ih =>
    simp only [accepts, Bool.and_eq_true] at accepted
    obtain ⟨atom, rfl⟩ := Option.isSome_iff_exists.1 accepted.1
    obtain ⟨inner, reading⟩ := ih accepted.2
    exact ⟨_, by rw [reading]; rfl⟩
  | case8 pending f rest ih =>
    simp only [accepts, Bool.and_eq_true] at accepted
    obtain ⟨atom, rfl⟩ := Option.isSome_iff_exists.1 accepted.1
    obtain ⟨inner, reading⟩ := ih atom accepted.2
    exact ⟨_, by simp only [reading, Option.bind_some, Option.map_some]; rfl⟩
  | case9 pending tokens =>
    rw [accepts] at accepted
    · cases accepted
    all_goals assumption

end Sentence

theorem accepts_append {first second : List Token}
    (same : ∀ operand, accepts operand first = accepts operand second) (before : List Token)
    (operand : Bool) : accepts operand (before ++ first) = accepts operand (before ++ second) := by
  induction before generalizing operand with
  | nil => exact same operand
  | cons token before ih => cases token <;> simp [ih]

theorem accepts_settle (tokens : List Token) (operand : Bool) :
    accepts operand (tokens.map Token.settle) = accepts operand tokens := by
  induction tokens generalizing operand with
  | nil => rfl
  | cons token rest ih => cases token <;> simp [Token.settle, ih]

theorem accepts_readSigns (tokens : List Token) (operand after : Bool) :
    accepts operand (readSigns after tokens) = accepts operand tokens := by
  fun_induction readSigns after tokens generalizing operand with
  | case1 => rfl
  | case2 after s rest ih => cases after <;> simp [ih]
  | case3 after token rest different ih => cases token <;> simp_all

section Steps
open Reduction

theorem accepts_applyTrailing {before : Option Token} {tokens out : List Token}
    (applied : applyTrailing before tokens = .ok out) (operand : Bool) :
    accepts operand out = accepts operand (before.toList ++ tokens) := by
  fun_induction applyTrailing before tokens generalizing operand out with
  | case1 before =>
    cases applied
    rw [List.append_nil]
  | case2 f rest x ih =>
    obtain ⟨y, _, applied⟩ := bind_eq_ok_iff.1 applied
    rw [ih y applied]
    rfl
  | case3 before f rest different => cases applied
  | case4 before token rest different ih =>
    obtain ⟨others, inner, same⟩ := bind_eq_ok_iff.1 applied
    cases same
    exact accepts_append (ih inner) _ _

theorem accepts_takeOperand {unit : AngleUnit} {tokens others : List Token} {x : Decimal}
    (taken : takeOperand unit tokens = .ok (x, others)) :
    accepts false tokens = accepts true others := by
  fun_induction takeOperand unit tokens generalizing x others with
  | case1 y rest =>
    cases taken
    rfl
  | case2 u rest ih =>
    obtain ⟨⟨y, left⟩, inner, taken⟩ := bind_eq_ok_iff.1 taken
    obtain ⟨z, _, same⟩ := bind_eq_ok_iff.1 taken
    cases same
    exact ih inner
  | case3 tokens _ _ => cases taken

theorem accepts_applyDuals {unit : AngleUnit} {before : Option Token} {tokens out : List Token}
    (applied : applyDuals unit before tokens = .ok out) (operand : Bool) :
    accepts operand out = accepts operand (before.toList ++ tokens) := by
  fun_induction applyDuals unit before tokens generalizing operand out with
  | case1 before =>
    cases applied
    rw [List.append_nil]
  | case2 o rest => cases applied
  | case3 o rest left e taken => cases applied
  | case4 o rest left y others taken ih =>
    obtain ⟨z, joined, applied⟩ := bind_eq_ok_iff.1 applied
    rw [ih z applied]
    cases left with
    | value x =>
      obtain ⟨w, _, same⟩ := bind_eq_ok_iff.1 joined
      cases same
      simpa using (accepts_takeOperand taken).symm
    | _ => cases joined
  | case5 before token rest different ih =>
    obtain ⟨others, inner, same⟩ := bind_eq_ok_iff.1 applied
    cases same
    exact accepts_append (ih inner) _ _

theorem accepts_applyUnary {unit : AngleUnit} {tokens out : List Token}
    (applied : applyUnary unit tokens = .ok out) (operand : Bool) :
    accepts operand out = accepts operand tokens := by
  fun_induction applyUnary unit tokens generalizing operand out with
  | case1 =>
    cases applied
    rfl
  | case2 token =>
    cases applied
    rfl
  | case3 token rest more ih =>
    obtain ⟨reduced, inner, joined⟩ := bind_eq_ok_iff.1 applied
    split at joined
    · obtain ⟨y, _, same⟩ := bind_eq_ok_iff.1 joined
      cases same
      exact ih inner false
    · cases joined
    · cases joined
      exact accepts_append (ih inner) [token] operand

theorem accepts_applyMultiplicative {before : Token} {tokens out : List Token}
    (applied : applyMultiplicative before tokens = .ok out) (operand : Bool) :
    accepts operand out = accepts operand (before :: tokens) := by
  fun_induction applyMultiplicative before tokens generalizing operand out with
  | case1 before =>
    cases applied
    rfl
  | case2 o rest x y ih =>
    obtain ⟨z, _, applied⟩ := bind_eq_ok_iff.1 applied
    rw [ih z applied]
    simp
  | case3 before o next rest different => cases applied
  | case4 before token rest different ih =>
    obtain ⟨others, inner, same⟩ := bind_eq_ok_iff.1 applied
    cases same
    exact accepts_append (ih inner) [_] _

theorem accepts_applyAdditive {before : Token} {tokens out : List Token}
    (applied : applyAdditive before tokens = .ok out) (operand : Bool) :
    accepts operand out = accepts operand (before :: tokens) := by
  fun_induction applyAdditive before tokens generalizing operand out with
  | case1 before =>
    cases applied
    rfl
  | case2 s x y others ih =>
    rw [ih applied]
    simp
  | case3 before o rest different => cases applied
  | case4 before token rest different ih =>
    obtain ⟨others, inner, same⟩ := bind_eq_ok_iff.1 applied
    cases same
    exact accepts_append (ih inner) [_] _

theorem accepts_fromFirst {step : Token → List Token → Except Error (List Token)}
    (preserves : ∀ {before tokens out}, step before tokens = .ok out →
      ∀ operand, accepts operand out = accepts operand (before :: tokens))
    {tokens out : List Token} (applied : fromFirst step tokens = .ok out) (operand : Bool) :
    accepts operand out = accepts operand tokens := by
  cases tokens with
  | nil =>
    cases applied
    rfl
  | cons first rest => exact preserves applied operand

theorem eq_map_value_of_mapM {tokens : List Token} {values : List Decimal}
    (found : tokens.mapM value? = some values) : tokens = values.map .value := by
  induction tokens generalizing values with
  | nil =>
    cases found
    rfl
  | cons token rest ih =>
    simp only [List.mapM_cons, Option.bind_eq_bind, Option.bind_eq_some_iff] at found
    obtain ⟨x, head, others, tail, same⟩ := found
    cases same
    cases token with
    | value y =>
      cases head
      rw [ih tail, List.map_cons]
    | _ => cases head

theorem accepts_values (values : List Decimal) :
    accepts true (values.map .value) = true := by
  induction values with
  | nil => rfl
  | cons x values ih => exact ih

theorem accepts_of_product {tokens : List Token} {x : Decimal}
    (multiplied : product tokens = .ok x) : accepts false tokens = true := by
  unfold product at multiplied
  split at multiplied
  · cases multiplied
  · cases multiplied
  · rename_i first others found
    rw [eq_map_value_of_mapM found]
    exact accepts_values others

end Steps

section Marks

theorem foldExponents_unmarked_append {tokens : List Token}
    (unmarked : ∀ token ∈ tokens, token.isMark = false) (rest : List Token) :
    foldExponents false (tokens ++ rest) = tokens ++ foldExponents false rest := by
  induction tokens with
  | nil => rfl
  | cons token tokens ih =>
    rw [List.cons_append, foldExponents, unmarked token List.mem_cons_self,
      ih fun other member => unmarked other (List.mem_cons_of_mem _ member)]
    simp

theorem foldExponents_of_unmarked {tokens : List Token}
    (unmarked : ∀ token ∈ tokens, token.isMark = false) : foldExponents false tokens = tokens := by
  have whole := foldExponents_unmarked_append unmarked []
  rwa [List.append_nil, foldExponents, List.append_nil] at whole

/-- A token other than a mark ends the numeral before it. -/
theorem readNumerals_cons {token : Token} (plain : token.isMark = false) (marks : List Mark)
    (rest : List Token) : readNumerals marks (token :: rest) = (do
      let numeral ← closeNumeral marks
      let others ← readNumerals [] rest
      return numeral ++ token.settle :: others) := by
  cases token with
  | mark m => cases plain
  | _ => rfl

theorem readNumerals_unmarked_append {tokens : List Token}
    (unmarked : ∀ token ∈ tokens, token.isMark = false) (rest : List Token) :
    readNumerals [] (tokens ++ rest) = (tokens.map Token.settle ++ ·) <$> readNumerals [] rest := by
  induction tokens with
  | nil => exact (id_map _).symm
  | cons token tokens ih =>
    rw [List.cons_append, readNumerals_cons (unmarked token List.mem_cons_self),
      ih fun other member => unmarked other (List.mem_cons_of_mem _ member)]
    cases readNumerals [] rest <;> rfl

theorem readNumerals_of_unmarked {tokens : List Token}
    (unmarked : ∀ token ∈ tokens, token.isMark = false) :
    readNumerals [] tokens = .ok (tokens.map Token.settle) := by
  have whole := readNumerals_unmarked_append unmarked []
  rw [List.append_nil] at whole
  rw [whole]
  exact congrArg Except.ok (List.append_nil _)

end Marks

/-- Tokens that have a value are accepted. -/
theorem accepts_of_reduce {unit : AngleUnit} {tokens : List Token} {x : Decimal}
    (unmarked : ∀ token ∈ tokens, token.isMark = false)
    (reduced : reduce unit tokens = .ok x) : accepts false tokens = true := by
  rw [reduce, foldExponents_of_unmarked unmarked, readNumerals_of_unmarked unmarked] at reduced
  obtain ⟨settled, same, reduced⟩ := bind_eq_ok_iff.1 reduced
  cases same
  obtain ⟨trailed, trailing, reduced⟩ := bind_eq_ok_iff.1 reduced
  obtain ⟨bound, duals, reduced⟩ := bind_eq_ok_iff.1 reduced
  obtain ⟨led, unary, reduced⟩ := bind_eq_ok_iff.1 reduced
  obtain ⟨multiplied, factors, reduced⟩ := bind_eq_ok_iff.1 reduced
  obtain ⟨added, terms, reduced⟩ := bind_eq_ok_iff.1 reduced
  calc accepts false tokens
    _ = accepts false (readSigns false (tokens.map Token.settle)) := by
      rw [accepts_readSigns, accepts_settle]
    _ = accepts false trailed := (accepts_applyTrailing trailing false).symm
    _ = accepts false bound := (accepts_applyDuals duals false).symm
    _ = accepts false led := (accepts_applyUnary unary false).symm
    _ = accepts false multiplied :=
      (accepts_fromFirst accepts_applyMultiplicative factors false).symm
    _ = accepts false added := (accepts_fromFirst accepts_applyAdditive terms false).symm
    _ = true := accepts_of_product reduced

end ScientificCalculator.Grammar
