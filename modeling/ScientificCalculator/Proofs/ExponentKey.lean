import ScientificCalculator.Proofs.Decimal.Shift
import ScientificCalculator.Proofs.Grammar.Correctness
import ScientificCalculator.Proofs.Squares

/-!
The two meanings of the exponent key. Directly after a typed number it continues this number, and
after anything else it multiplies by a power of ten. Both shift the number by the same places, since
a power of ten passes through the rounding of the digits before it.
-/

namespace ScientificCalculator

variable {unit : AngleUnit} {marks : List Mark}

/-- Digits, with at most one point among them. -/
structure PlainNumeral (marks : List Mark) : Prop where
  plain : ∀ mark ∈ marks, mark = .point ∨ ∃ value, mark = .digit value
  one_point : marks.count .point ≤ 1
  some_digit : ∃ value, .digit value ∈ marks

/-- The number that is typed, before it is rounded. -/
def typedNumber (marks : List Mark) : ℚ := (Decimal.Spelling.ofText (marks.map Mark.char)).number

section Spelled
open Decimal

theorem digits_map_char (all : ∀ mark ∈ marks, ∃ value, mark = Mark.digit value) :
    Digits (marks.map Mark.char) := by
  have figures : ∀ value : Fin 10, (Mark.digit value).char.isDigit = true := by decide
  intro c member
  obtain ⟨mark, typed, rfl⟩ := List.mem_map.1 member
  obtain ⟨value, rfl⟩ := all mark typed
  exact figures value

/-- A typed number is spelled without a sign and without an exponent. -/
theorem PlainNumeral.exists_spelling (numeral : PlainNumeral marks) :
    ∃ spelling : Spelling, spelling.Valid ∧ spelling.exponent = none ∧
      spelling.text = marks.map Mark.char := by
  obtain ⟨plain, one_point, value, typed⟩ := numeral
  have digit_of_not_mem {part : List Mark} (among : part ⊆ marks) (absent : .point ∉ part) :
      ∀ mark ∈ part, ∃ value, mark = Mark.digit value := fun mark member =>
    (plain mark (among member)).resolve_left fun same => absent (same ▸ member)
  by_cases point : .point ∈ marks
  · obtain ⟨before, after, rfl⟩ := List.append_of_mem point
    rw [List.count_append, List.count_cons_self] at one_point
    have whole := digits_map_char (digit_of_not_mem (List.subset_append_left _ _)
      (List.count_eq_zero.1 (by omega : before.count .point = 0)))
    have fraction := digits_map_char (digit_of_not_mem
      (fun _ member => List.mem_append_right _ (List.mem_cons_of_mem _ member))
      (List.count_eq_zero.1 (by omega : after.count .point = 0)))
    refine ⟨⟨false, before.map Mark.char, some (after.map Mark.char), none⟩,
      ⟨whole, ?_, ?_, nofun⟩, rfl, ?_⟩
    · rintro part ⟨⟩
      exact fraction
    · rcases List.mem_append.1 typed with inside | inside
      · exact .inl (List.ne_nil_of_mem (List.mem_map_of_mem inside))
      · have later := (List.mem_cons.1 inside).resolve_left nofun
        exact .inr ⟨_, rfl, List.ne_nil_of_mem (List.mem_map_of_mem later)⟩
    · rw [List.map_append, List.map_cons]
      exact List.append_nil _
  · have whole := digits_map_char (digit_of_not_mem (List.Subset.refl _) point)
    refine ⟨⟨false, marks.map Mark.char, none, none⟩, ⟨whole, nofun, ?_, nofun⟩, rfl, ?_⟩
    · exact .inl (List.ne_nil_of_mem (List.mem_map_of_mem typed))
    · exact (List.append_nil _).trans (List.append_nil _)

end Spelled

section Operand
open Decimal Grammar

/-- Of a run of signs, an odd number of minus signs negates the operand. -/
theorem eval_signs (signs : List Sign) (y : Decimal) :
    ((signs.map Lead.sign).foldr (fun lead operand => Tree.unary (.leading lead.operation) operand)
      (.leaf y)).eval unit = .ok (if Odd (signs.count .minus) then -y else y) := by
  induction signs with
  | nil => rfl
  | cons sign signs ih =>
    rw [List.map_cons, List.foldr_cons, Tree.eval, ih]
    cases sign with
    | plus =>
      rw [List.count_cons_of_ne (by decide : Sign.plus ≠ .minus)]
      rfl
    | minus =>
      rw [List.count_cons_self]
      by_cases odd : Odd (signs.count .minus)
      · rw [if_pos odd, if_neg (by simpa [Nat.odd_add_one] using odd)]
        exact congrArg Except.ok (double_neg y)
      · rw [if_neg odd, if_pos (by simpa [Nat.odd_add_one] using odd)]
        rfl

theorem reduce_of_eval (sentence : Sentence) {tokens : List Token} (same : sentence.tokens = tokens)
    (unmarked : ∀ token ∈ tokens, token.isMark = false) {x : Decimal}
    (evaluated : sentence.tree.eval unit = .ok x) : reduce unit tokens = .ok x := by
  subst same
  have result : Runs unit sentence.tree (sentence.tree.HasValue unit) (sentence.tree.value unit)
      (reduce unit sentence.tokens) := reduce_sentence sentence unmarked
  generalize reduce unit sentence.tokens = whole at result
  cases result with
  | ok known => rw [Tree.value_of_eval evaluated]
  | error failed => exact absurd failed (Tree.not_fails_of_eval evaluated _)

theorem reduce_value (x : Decimal) : reduce unit [.value x] = .ok x :=
  reduce_of_eval (Sentence.ofAtom (.value x)) rfl (List.forall_mem_singleton.2 rfl) rfl

/-- As an operator, the exponent key takes the signs after it into its operand and shifts. -/
theorem reduce_exponent {y : Decimal} {n : Int} (held : y.Held) (value : y.toRat = n)
    (bounded : n.natAbs ≤ maxOrder) (x : Decimal) (signs : List Sign) :
    reduce unit (.value x :: .dual .exponent :: (signs.map .additive ++ [.value y])) =
      .ok (x.shift (if Odd (signs.count .minus) then -n else n)) := by
  have unmarked : ∀ token ∈ Token.value x :: .dual .exponent ::
      (signs.map .additive ++ [.value y]), token.isMark = false := by
    simp only [List.forall_mem_cons, List.forall_mem_append, List.forall_mem_map]
    exact ⟨rfl, rfl, fun _ _ => rfl, rfl, nofun⟩
  have applied : x.timesTenPower (if Odd (signs.count .minus) then -y else y) =
      .ok (x.shift (if Odd (signs.count .minus) then -n else n)) := by
    split_ifs
    · have opposite : (-y).toRat = ((-n : Int) : ℚ) := by rw [toRat_neg, value, Int.cast_neg]
      exact timesTenPower_of_toRat_eq held.neg opposite (by rwa [Int.natAbs_neg])
    · exact timesTenPower_of_toRat_eq held value bounded
  refine reduce_of_eval ⟨⟨⟨⟨[], ⟨⟨.value x, []⟩,
    [(.exponent, ⟨signs.map .sign, ⟨.value y, []⟩⟩)]⟩⟩, []⟩, []⟩, []⟩ ?_ unmarked ?_
  · simp [Sentence.tokens, Sentence.text, Sum.text, Term.text, Tight.text, Chain.text,
      Prefixed.text, Primary.text, Atom.token, Lead.token, Function.comp_def]
  · show (do
      let operand ← ((signs.map Lead.sign).foldr _ (Tree.leaf y)).eval unit
      x.timesTenPower operand) = _
    rw [eval_signs]
    exact applied

end Operand

section Marks
open Grammar

theorem foldExponents_marks {afterMark : Bool} (known : afterMark = true ∨ marks ≠ [])
    (rest : List Token) : foldExponents afterMark (marks.map .mark ++ rest) =
      marks.map .mark ++ foldExponents true rest := by
  induction marks generalizing afterMark with
  | nil =>
    rw [known.resolve_right (not_not.2 rfl)]
    rfl
  | cons mark marks ih =>
    rw [List.map_cons, List.cons_append, foldExponents, if_neg (by simp)]
    exact congrArg _ (ih (.inl rfl))

theorem foldExponents_of_marks {afterMark : Bool} (known : afterMark = true ∨ marks ≠ []) :
    foldExponents afterMark (marks.map .mark) = marks.map .mark := by
  have whole := foldExponents_marks known []
  rwa [List.append_nil, foldExponents, List.append_nil] at whole

theorem exponentMarks_additive (signs : List Sign) :
    Token.exponentMarks (signs.map .additive) =
      (Mark.exponent :: if Odd (signs.count .minus) then [Mark.minus] else []).map .mark := by
  have count : (signs.map Token.additive).count (.additive .minus) = signs.count .minus :=
    List.count_map_of_injective _ _ (fun _ _ => Token.additive.inj) _
  rw [Token.exponentMarks, count]
  simp only [Nat.odd_iff]
  split <;> rfl

theorem readNumerals_marks (before : List Mark) :
    readNumerals before (marks.map .mark) = closeNumeral (before ++ marks) := by
  induction marks generalizing before with
  | nil => rw [List.append_nil]; rfl
  | cons mark marks ih =>
    rw [List.map_cons, readNumerals, ih, List.append_assoc, List.singleton_append]

/-- A typed number at the end of an expression stands for its value. -/
theorem reduce_of_folded (before : List Token) {tokens : List Token} {x : Decimal}
    (folded : foldExponents false tokens = before ++ marks.map .mark)
    (unmarked : ∀ token ∈ before, token.isMark = false) (nonempty : marks ≠ [])
    (read : Decimal.parse (marks.map Mark.char) = .ok x) :
    reduce unit tokens = reduce unit (before ++ [.value x]) := by
  have unmarked' : ∀ token ∈ before ++ [.value x], token.isMark = false :=
    List.forall_mem_append.2 ⟨unmarked, List.forall_mem_singleton.2 rfl⟩
  have numeral : readNumerals [] (marks.map .mark) = .ok [.value x] := by
    rw [readNumerals_marks, List.nil_append, closeNumeral, if_neg nonempty, read]
    rfl
  have settled : readNumerals [] (before ++ marks.map .mark) =
      readNumerals [] (before ++ [.value x]) := by
    rw [readNumerals_unmarked_append unmarked, numeral, readNumerals_unmarked_append unmarked]
    rfl
  rw [reduce, reduce, folded, settled, foldExponents_of_unmarked unmarked']

end Marks

section Groups

/-- Tokens without parentheses and memory operations. -/
def PlainTokens (tokens : List Token) : Prop :=
  ∀ token ∈ tokens, (token ≠ .opening ∧ token ≠ .closing) ∧ token.isMemory = false

theorem PlainTokens.count {tokens : List Token} (plain : PlainTokens tokens) :
    tokens.count .opening = 0 ∧ tokens.count .closing = 0 :=
  ⟨List.count_eq_zero.2 fun member => (plain _ member).1.1 rfl,
    List.count_eq_zero.2 fun member => (plain _ member).1.2 rfl⟩

/-- A group at the head of an expression is reduced first. -/
theorem evaluate_group_first {group after : List Token} (nonempty : group ≠ [])
    (plain : PlainTokens group) (plain' : PlainTokens after) :
    evaluate unit (.opening :: (group ++ .closing :: after)) = (do
      let x ← reduce unit group
      reduce unit (.value x :: after)) := by
  have without : ∀ token ∈ Token.opening :: (group ++ .closing :: after), token.isMemory = false :=
    List.forall_mem_cons.2 ⟨rfl, List.forall_mem_append.2
      ⟨fun token member => (plain token member).2,
        List.forall_mem_cons.2 ⟨rfl, fun token member => (plain' token member).2⟩⟩⟩
  have unmixed : (Token.opening :: (group ++ .closing :: after)).any Token.isMemory = false :=
    List.any_eq_false.2 fun token member => by simp [without token member]
  have balanced : (Token.opening :: (group ++ .closing :: after)).count .opening =
      (Token.opening :: (group ++ .closing :: after)).count .closing := by
    simp [List.count_append, plain.count, plain'.count]
  have step := @evaluateGroups_innermost unit [] group nofun
    (fun token member => (plain token member).1) [] [] after
  have rest (x : Decimal) : evaluateGroups unit [] [] (.value x :: after) =
      reduce unit (.value x :: after) := evaluateGroups_of_plain (List.forall_mem_cons.2
    ⟨⟨nofun, nofun⟩, fun token member => (plain' token member).1⟩)
  rw [List.nil_append, if_neg nonempty] at step
  simp only [evaluate, splitMemoryOperation_of_plain without, unmixed, balanced, step, ne_eq,
    not_true_eq_false, Bool.false_eq_true, if_false, List.nil_append, rest]

end Groups

section Keys
open Decimal Grammar
variable {registers : Registers} {signs : List Sign} {digits : List (Fin 10)}

/-- The exponent key, signs and digits. -/
def exponentTokens (signs : List Sign) (digits : List (Fin 10)) : List Token :=
  .dual .exponent :: (signs.map .additive ++ (digits.map Mark.digit).map .mark)

/-- The digits of an exponent as they are typed. -/
def sizeText (digits : List (Fin 10)) : List Char := (digits.map Mark.digit).map Mark.char

theorem digits_sizeText (digits : List (Fin 10)) : Digits (sizeText digits) := by
  apply digits_map_char
  intro mark member
  obtain ⟨value, -, rfl⟩ := List.mem_map.1 member
  exact ⟨value, rfl⟩

/-- After a typed number, the exponent key and the signs after it turn into marks. -/
theorem foldExponents_exponent (nonempty : marks ≠ []) (nonempty' : digits ≠ []) :
    foldExponents false (marks.map .mark ++ exponentTokens signs digits) =
      (marks ++ (Mark.exponent :: if Odd (signs.count .minus) then [Mark.minus] else []) ++
        digits.map Mark.digit).map .mark := by
  have additive : ∀ token ∈ signs.map Token.additive, token.isAdditive = true :=
    List.forall_mem_map.2 fun _ _ => rfl
  have stops : ((digits.map Mark.digit).map Token.mark).takeWhile Token.isAdditive = [] ∧
      ((digits.map Mark.digit).map Token.mark).dropWhile Token.isAdditive =
        (digits.map Mark.digit).map .mark := by
    obtain ⟨first, others, rfl⟩ := List.exists_cons_of_ne_nil nonempty'
    exact ⟨rfl, rfl⟩
  rw [foldExponents_marks (.inr nonempty), exponentTokens, foldExponents, if_pos ⟨rfl, rfl⟩,
    List.takeWhile_append_of_pos additive, List.dropWhile_append_of_pos additive, stops.1, stops.2,
    List.append_nil, exponentMarks_additive, foldExponents_of_marks (.inl rfl)]
  simp only [List.map_append, List.append_assoc]

theorem plain_marks (marks : List Mark) : PlainTokens (marks.map .mark) :=
  List.forall_mem_map.2 fun _ _ => ⟨⟨nofun, nofun⟩, rfl⟩

theorem plain_exponentTokens (signs : List Sign) (digits : List (Fin 10)) :
    PlainTokens (exponentTokens signs digits) :=
  List.forall_mem_cons.2 ⟨⟨⟨nofun, nofun⟩, rfl⟩, List.forall_mem_append.2
    ⟨List.forall_mem_map.2 fun _ _ => ⟨⟨nofun, nofun⟩, rfl⟩, plain_marks _⟩⟩

/-- Directly after a typed number, an exponent is read together with it. -/
theorem evaluate_continued (nonempty : marks ≠ []) (nonempty' : digits ≠ []) {z : Decimal}
    (read : parse (marks.map Mark.char ++ Spelling.exponentText
      (some (decide (Odd (signs.count .minus)), sizeText digits))) = .ok z) :
    evaluate unit (marks.map .mark ++ exponentTokens signs digits) = .ok z := by
  have plain : PlainTokens (marks.map .mark ++ exponentTokens signs digits) :=
    List.forall_mem_append.2 ⟨plain_marks marks, plain_exponentTokens signs digits⟩
  have text : (marks ++ (Mark.exponent :: if Odd (signs.count .minus) then [Mark.minus] else []) ++
      digits.map Mark.digit).map Mark.char = marks.map Mark.char ++ Spelling.exponentText
        (some (decide (Odd (signs.count .minus)), sizeText digits)) := by
    rw [List.append_assoc, List.map_append, List.map_append, List.map_cons]
    split_ifs with odd <;> simp [Spelling.exponentText, Display.Numeral.minus, odd, sizeText,
      Mark.char]
  have reduced : reduce unit (marks.map .mark ++ exponentTokens signs digits) =
      reduce unit [.value z] :=
    reduce_of_folded [] (foldExponents_exponent nonempty nonempty') (List.forall_mem_nil _)
      (by simp) (text ▸ read)
  rw [evaluate_of_plain (fun token member => (plain token member).1)
    fun token member => (plain token member).2, reduced, reduce_value]

/-- After a group, an exponent scales the value of the group. -/
theorem evaluate_scaled (nonempty : marks ≠ []) (nonempty' : digits ≠ []) {x y : Decimal} {n : Int}
    (read : parse (marks.map Mark.char) = .ok x) (read' : parse (sizeText digits) = .ok y)
    (held : y.Held) (value : y.toRat = n) (bounded : n.natAbs ≤ maxOrder) :
    evaluate unit (.opening :: (marks.map .mark ++ .closing :: exponentTokens signs digits)) =
      .ok (x.shift (if Odd (signs.count .minus) then -n else n)) := by
  have group : reduce unit (marks.map .mark) = reduce unit [.value x] :=
    reduce_of_folded [] (foldExponents_of_marks (.inr nonempty)) (List.forall_mem_nil _) nonempty
      read
  have typed : digits.map Mark.digit ≠ [] := by simpa using nonempty'
  have unmarked : ∀ token ∈ Token.value x :: .dual .exponent :: signs.map .additive,
      token.isMark = false :=
    List.forall_mem_cons.2 ⟨rfl, List.forall_mem_cons.2 ⟨rfl, List.forall_mem_map.2 fun _ _ => rfl⟩⟩
  have folded := foldExponents_unmarked_append unmarked ((digits.map Mark.digit).map .mark)
  rw [foldExponents_of_marks (.inr typed)] at folded
  have scaled : reduce unit (.value x :: exponentTokens signs digits) = _ :=
    reduce_of_folded _ folded unmarked typed read'
  rw [evaluate_group_first (by simpa using nonempty) (plain_marks marks)
    (plain_exponentTokens signs digits), group, reduce_value]
  exact scaled.trans (reduce_exponent held value bounded x signs)

/-- The keys of an exponent: the exponent key itself, sign keys and digit keys. -/
def exponentKeys (signs : List Sign) (digits : List (Fin 10)) : List Key :=
  .dual .exponent :: (signs.map .additive ++ (digits.map Mark.digit).map .mark)

theorem assemble_exponentKeys (before : List Key) :
    assemble registers ((before ++ exponentKeys signs digits).map Key.identifier) =
      before.map (Key.token registers) ++ exponentTokens signs digits := by
  rw [assemble_identifiers, List.map_append]
  simp only [exponentKeys, exponentTokens, List.map_cons, List.map_append, List.map_map]
  rfl

/-- Typed directly after a number, or as an operator after the number in parentheses, an exponent
shifts this number, rounded once, by its places; an odd number of minus keys negates them. The number
has as many digits as a power of ten up to `greatestPower` can shorten to those that are kept. -/
theorem exponent_meanings_agree (registers : Registers) (unit : AngleUnit) {numeral : List Mark}
    (typed : PlainNumeral numeral)
    (short : numeral.length ≤ precision + greatestPower) (signs : List Sign)
    {digits : List (Fin 10)} (nonempty : digits ≠ [])
    (bounded : digitsValue (sizeText digits) ≤ 10 ^ 15) :
    ∃ z : Decimal, z.Canonical ∧
      evaluate unit (assemble registers
        ((numeral.map Key.mark ++ exponentKeys signs digits).map Key.identifier)) = .ok z ∧
      evaluate unit (assemble registers
        (([Key.opening] ++ numeral.map Key.mark ++ [Key.closing] ++
          exponentKeys signs digits).map Key.identifier)) = .ok z ∧
      z.toRat = roundSignificant (typedNumber numeral) * 10 ^
        (if Odd (signs.count .minus) then -(digitsValue (sizeText digits) : Int)
          else digitsValue (sizeText digits)) := by
  obtain ⟨spelling, valid, bare, text⟩ := typed.exists_spelling
  obtain ⟨y, read', held, value⟩ := parse_digits (by simpa [sizeText] using nonempty)
    (digits_sizeText digits) bounded
  have marked : numeral ≠ [] := by
    obtain ⟨figure, member⟩ := typed.some_digit
    exact List.ne_nil_of_mem member
  have number : typedNumber numeral = spelling.number := by
    rw [typedNumber, ← text, Spelling.ofText_text valid]
  have figures : (spelling.figures : Int) + 2 * maxOrder ≤ greatestExponent := by
    have length := spelling.figures_le
    rw [text, List.length_map] at length
    exact Spelling.far_from_greatestExponent (length.trans short)
  set part := (decide (Odd (signs.count .minus)), sizeText digits) with exponent
  have places : (if Odd (signs.count .minus) then -(digitsValue (sizeText digits) : Int)
      else digitsValue (sizeText digits)) = Spelling.places part := by
    simp [Spelling.places, withSign, exponent]
  have size : part.2 ≠ [] ∧ Digits part.2 :=
    ⟨by simpa [exponent, sizeText] using nonempty, digits_sizeText digits⟩
  have read := Spelling.parse_of_bare bare valid
  have continued := Spelling.parse_withExponent bare valid figures size bounded
  rw [text] at read continued
  have scaled := @evaluate_scaled unit numeral signs digits marked nonempty _ _
    (digitsValue (sizeText digits)) read read' held value bounded
  refine ⟨spelling.literal.value.shift (Spelling.places part),
    canonical_shift (canonical_ofParts _ _) _, ?_, ?_, ?_⟩
  · rw [assemble_exponentKeys, List.map_map]
    exact evaluate_continued marked nonempty continued
  · rw [assemble_exponentKeys, ← places, ← scaled]
    simp [Key.token, Function.comp_def]
  · rw [places, number]
    exact Spelling.toRat_shift bare valid figures size bounded

/-- One and a half, with three minus keys among the signs of its exponent. -/
theorem exponent_meanings_agree_three_minus_keys :
    ∃ z : Decimal, z.Canonical ∧
      evaluate .degrees (assemble ⟨zero, zero⟩
        ["#1", "#.", "#5", "E", "-", "+", "-", "-", "#0", "#2"]) = .ok z ∧
      evaluate .degrees (assemble ⟨zero, zero⟩
        ["(", "#1", "#.", "#5", ")", "E", "-", "+", "-", "-", "#0", "#2"]) = .ok z ∧
      z.toRat = roundSignificant (3 / 2) / 100 := by
  have size : digitsValue (sizeText [0, 2]) = 2 := rfl
  obtain ⟨z, canonical, continued, scaled, value⟩ := @exponent_meanings_agree ⟨zero, zero⟩ .degrees
    [.digit 1, .point, .digit 5] ⟨by decide, by decide, 1, by decide⟩ (by decide)
    [.minus, .plus, .minus, .minus] [0, 2] (by decide) (by decide)
  have number : typedNumber [.digit 1, .point, .digit 5] = 3 / 2 := by
    have parts : Spelling.ofText ['1', '.', '5'] = ⟨false, ['1'], some ['5'], none⟩ := rfl
    have whole : digitsValue ['1'] = 1 := rfl
    have fraction : digitsValue ['5'] = 5 := rfl
    show (Spelling.ofText ['1', '.', '5']).number = _
    norm_num [parts, Spelling.number, Spelling.significand, Spelling.power, whole, fraction]
  have odd : Odd ([.minus, .plus, .minus, .minus].count Sign.minus) := by decide
  refine ⟨z, canonical, continued, scaled, value.trans ?_⟩
  rw [number, if_pos odd, size, div_eq_mul_inv]
  rfl

end Keys

end ScientificCalculator
