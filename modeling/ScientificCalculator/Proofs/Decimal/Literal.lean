import ScientificCalculator.Proofs.Decimal.Scaled
import ScientificCalculator.Proofs.Decimal.Spelling

/-!
The grammar of typed numbers. The parts that a text is cut into join to this text again, so a text
has the form of a number only if it is the text of its own parts; the number that the parts denote
is then rounded once.
-/

namespace ScientificCalculator

section DigitTexts

theorem digitsValue_append (first second : List Char) :
    digitsValue (first ++ second) =
      tenTo second.length * digitsValue first + digitsValue second := by
  rw [digitsValue, Nat.ofDigitChars_append, Nat.ofDigitChars_eq_ofDigitChars_zero]
  rfl

theorem digitsValue_lt {digits : List Char} (all : Digits digits) :
    digitsValue digits < tenTo digits.length := by
  induction digits with
  | nil => decide
  | cons first rest ih =>
    have shorter := ih fun c member => all c (List.mem_cons_of_mem _ member)
    have figure : digitsValue [first] ≤ 9 := by
      have ascii := all first List.mem_cons_self
      rw [Char.isDigit, Bool.and_eq_true, decide_eq_true_eq, decide_eq_true_eq] at ascii
      have last : first.toNat ≤ '9'.toNat := ascii.2
      show 10 * 0 + (first.toNat - '0'.toNat) ≤ 9
      have nine : '9'.toNat = '0'.toNat + 9 := rfl
      omega
    have joined := digitsValue_append [first] rest
    rw [List.singleton_append] at joined
    have product := Nat.mul_le_mul_left (tenTo rest.length) figure
    rw [joined, List.length_cons, tenTo_succ]
    omega

end DigitTexts

namespace Decimal

open Display.Numeral (minus fractionText takeMinus_append not_mem_unsigned exponentMark_not_mem
  cutAt_fractionText)

/-- A text is joined again from the parts that it is cut into. -/
theorem join_cutAt (separator : Char) (text : List Char) :
    (cutAt separator text).1 ++ ((cutAt separator text).2.map (separator :: ·)).getD [] = text := by
  have parts := List.takeWhile_append_dropWhile (p := (· ≠ separator)) (l := text)
  rw [cutAt]
  split
  next none => exact List.append_nil text
  next found rest some =>
    have separates : found = separator := by
      have nonempty : text.dropWhile (· ≠ separator) ≠ [] := by
        rw [some]
        exact List.cons_ne_nil _ _
      have stops := List.head_dropWhile_not (· ≠ separator) nonempty
      simpa only [some, List.head_cons, decide_eq_false_iff_not, not_not] using stops
    rw [some, separates] at parts
    exact parts

theorem join_takeMinus (text : List Char) :
    minus (takeMinus text).1 ++ (takeMinus text).2 = text := by
  unfold takeMinus
  split <;> rfl

theorem natAbs_withSign (negative : Bool) (n : Nat) : (withSign negative n).natAbs = n := by
  cases negative with
  | false => exact Int.natAbs_natCast n
  | true => exact (Int.natAbs_neg _).trans (Int.natAbs_natCast n)

namespace Spelling
variable {spelling : Spelling} {text : List Char}

/-- The form `[-]digits[.digits][e[-]digits]`, where the digits around the point may be missing, but
not all of them. -/
structure Valid (spelling : Spelling) : Prop where
  whole : Digits spelling.whole
  fraction : ∀ digits ∈ spelling.fraction, Digits digits
  some_digit : spelling.whole ≠ [] ∨ ∃ digits ∈ spelling.fraction, digits ≠ []
  exponent : ∀ part ∈ spelling.exponent, part.2 ≠ [] ∧ Digits part.2

/-- The power of ten after the letter `e`, zero if there is none. -/
def power (spelling : Spelling) : Int :=
  (spelling.exponent.map fun part => withSign part.1 (digitsValue part.2)).getD 0

/-- The number without its sign and without its power of ten. -/
def significand (spelling : Spelling) : ℚ :=
  digitsValue spelling.whole +
    (spelling.fraction.map fun digits => (digitsValue digits : ℚ) / 10 ^ digits.length).getD 0

/-- The number that is spelled out. -/
def number (spelling : Spelling) : ℚ :=
  (if spelling.negative then -1 else 1) * spelling.significand * 10 ^ spelling.power

/-- The parts of a text, which need not have the form of a number. -/
def ofText (text : List Char) : Spelling :=
  let (body, exponent) := cutAt 'e' text
  let (negative, unsigned) := takeMinus body
  let (whole, fraction) := cutAt '.' unsigned
  ⟨negative, whole, fraction, exponent.map takeMinus⟩

theorem literal_ofText (text : List Char) : (ofText text).literal = Literal.split text := rfl

theorem fractionText_eq (fraction : Option (List Char)) :
    fractionText fraction = (fraction.map ('.' :: ·)).getD [] := by
  cases fraction <;> rfl

theorem exponentText_takeMinus (exponent : Option (List Char)) :
    exponentText (exponent.map takeMinus) = (exponent.map ('e' :: ·)).getD [] := by
  cases exponent with
  | none => rfl
  | some size => exact congrArg ('e' :: ·) (join_takeMinus size)

theorem text_ofText (text : List Char) : (ofText text).text = text := by
  simp only [ofText, Spelling.text, fractionText_eq, exponentText_takeMinus, join_cutAt,
    join_takeMinus]

/-- A spelling is read off its own text. -/
theorem ofText_text (valid : spelling.Valid) : ofText spelling.text = spelling := by
  have unsigned := not_mem_unsigned valid.whole valid.fraction (c := '-') (by decide) (by decide)
  obtain ⟨body, power⟩ := cutAt_exponentText
    (exponentMark_not_mem valid.whole valid.fraction spelling.negative)
    fun part found => (valid.exponent part found).2
  simp only [ofText, Spelling.text, body, power, takeMinus_append spelling.negative unsigned,
    cutAt_fractionText valid.whole]

theorem wellFormed_literal_iff : spelling.literal.WellFormed ↔ spelling.Valid := by
  obtain ⟨negative, whole, fraction, exponent⟩ := spelling
  constructor
  · rintro wellFormed
    refine ⟨wellFormed.2.1, digits_fraction wellFormed, ?_, ?_⟩
    · rcases fraction with _ | digits
      · exact .inl (wellFormed.1.resolve_right (not_not.2 rfl))
      · exact wellFormed.1.imp_right fun nonempty => ⟨digits, rfl, nonempty⟩
    · rintro ⟨sign, size⟩ found
      obtain rfl := Option.mem_def.1 found
      exact wellFormed.2.2.2
  · rintro ⟨digits, digits', nonempty, size⟩
    refine ⟨nonempty.imp_right ?_, digits, ?_, ?_⟩
    · rintro ⟨part, found, some_digit⟩
      obtain rfl := Option.mem_def.1 found
      exact some_digit
    · rcases fraction with _ | part
      · exact fun c member => absurd member List.not_mem_nil
      · exact digits' part rfl
    · rcases exponent with _ | part
      · trivial
      · exact size part rfl

theorem typedExponent_literal (spelling : Spelling) :
    spelling.literal.typedExponent = spelling.power := by
  obtain ⟨negative, whole, fraction, exponent⟩ := spelling
  cases exponent <;> rfl

theorem exponentSize_literal (spelling : Spelling) :
    spelling.literal.exponentSize = spelling.power.natAbs := by
  obtain ⟨negative, whole, fraction, _ | ⟨sign, digits⟩⟩ := spelling
  · rfl
  · exact (natAbs_withSign sign (digitsValue digits)).symm

theorem significand_eq (spelling : Spelling) :
    spelling.significand = digitsValue (spelling.whole ++ spelling.fraction.getD []) *
      10 ^ (-(spelling.fraction.getD []).length : Int) := by
  obtain ⟨negative, whole, fraction, exponent⟩ := spelling
  have power (digits : List Char) : (10 : ℚ) ^ digits.length ≠ 0 := pow_ne_zero _ (by norm_num)
  cases fraction with
  | none => simp [significand]
  | some digits =>
    show (digitsValue whole : ℚ) + digitsValue digits / 10 ^ digits.length =
      digitsValue (whole ++ digits) * 10 ^ (-digits.length : Int)
    rw [digitsValue_append, Nat.cast_add, Nat.cast_mul, natCast_tenTo, zpow_neg, zpow_natCast,
      ← div_eq_mul_inv, add_div, mul_div_cancel_left₀ _ (power digits)]

theorem number_eq_value (spelling : Spelling) : spelling.number = spelling.value := by
  have signed (n : Nat) : ((withSign spelling.negative n : Int) : ℚ) =
      (if spelling.negative then -1 else 1) * n := by
    unfold withSign
    split_ifs <;> push_cast <;> ring
  rw [number, value, significand_eq, typedExponent_literal, Literal.mantissa, sub_eq_add_neg,
    zpow_add₀ (by norm_num)]
  simp only [literal, signed]
  ring

/-- A text has the form of a number exactly if the parts that it is cut into have this form. -/
theorem exists_valid_iff :
    (∃ spelling : Spelling, spelling.Valid ∧ spelling.text = text) ↔
      (Literal.split text).WellFormed := by
  constructor
  · rintro ⟨spelling, valid, rfl⟩
    have wellFormed := wellFormed_literal_iff.2 valid
    rwa [split_text wellFormed]
  · intro wellFormed
    rw [← literal_ofText] at wellFormed
    exact ⟨ofText text, wellFormed_literal_iff.1 wellFormed, text_ofText text⟩

/-- The number of digits before the exponent. -/
def figures (spelling : Spelling) : Nat :=
  spelling.whole.length + (spelling.fraction.getD []).length

theorem figures_le (spelling : Spelling) : spelling.figures ≤ spelling.text.length := by
  obtain ⟨negative, whole, fraction, exponent⟩ := spelling
  have after : (fraction.getD []).length ≤ (fractionText fraction).length := by
    cases fraction with
    | none => exact Nat.le_refl _
    | some digits => exact Nat.le_succ _
  simp only [figures, text, List.length_append]
  omega

theorem natAbs_mantissa (spelling : Spelling) : spelling.literal.mantissa.natAbs =
    digitsValue (spelling.whole ++ spelling.fraction.getD []) :=
  natAbs_withSign _ _

/-- As many digits as a power of ten can drop leave the exponents far from the end of their range. -/
theorem far_from_greatestExponent {count : Nat} (short : count ≤ precision + greatestPower) :
    (count : Int) + 2 * maxOrder ≤ greatestExponent := by
  have longest : ((precision + greatestPower : Nat) : Int) + 2 * maxOrder ≤ greatestExponent := by
    decide
  omega

/-- The exponents of a typed number stay away from the ends of their range. -/
theorem exponent_bounds (valid : spelling.Valid) (typed : spelling.power.natAbs ≤ maxOrder)
    (short : (spelling.figures : Int) + 2 * maxOrder ≤ greatestExponent) :
    leastExponent ≤ spelling.power - (spelling.fraction.getD []).length ∧
      spelling.power - (spelling.fraction.getD []).length +
        digitCount spelling.literal.mantissa.natAbs + precision ≤ greatestExponent := by
  have wellFormed := wellFormed_literal_iff.2 valid
  have digits : Digits (spelling.whole ++ spelling.fraction.getD []) :=
    wellFormed.2.1.append wellFormed.2.2.1
  have below := (digitsValue_lt digits).trans_le (tenTo_le_tenTo (Nat.le_succ _))
  have count := digitCount_le (Nat.succ_pos _) below
  have bound : (maxOrder : Int) = 10 ^ 15 := rfl
  have least : leastExponent = -greatestExponent - 1 := rfl
  have places : precision = 60 := rfl
  rw [List.length_append] at count
  rw [figures] at short
  rw [natAbs_mantissa]
  omega

theorem value_literal (spelling : Spelling) : spelling.literal.value =
    ofParts spelling.literal.mantissa (spelling.power - (spelling.fraction.getD []).length) := by
  rw [Literal.value, typedExponent_literal]
  rfl

theorem number_eq (spelling : Spelling) : spelling.number =
    spelling.literal.mantissa * 10 ^ (spelling.power - (spelling.fraction.getD []).length) := by
  rw [number_eq_value, value, typedExponent_literal]
  rfl

/-- Away from the ends of the exponent range, a typed number is rounded once. -/
theorem toRat_value (valid : spelling.Valid) (typed : spelling.power.natAbs ≤ maxOrder)
    (short : (spelling.figures : Int) + 2 * maxOrder ≤ greatestExponent) :
    spelling.literal.value.toRat = roundSignificant spelling.number := by
  obtain ⟨least, most⟩ := exponent_bounds valid typed short
  rw [value_literal, number_eq, toRat_ofParts least most]

end Spelling

/-- A text that has the form of a number is read as this number, rounded once, unless its exponent
is too large. Any other text is malformed, whatever its exponent. The value is stated for all digits
before the exponent that a power of ten up to `greatestPower` can shorten to those that are kept. -/
theorem parse_grammar (text : List Char) :
    (∀ spelling : Spelling, spelling.Valid → spelling.text = text →
      (spelling.power.natAbs ≤ 10 ^ 15 → ∃ x, parse text = .ok x ∧ x.Canonical ∧
        (spelling.figures ≤ precision + greatestPower →
          x.toRat = roundSignificant spelling.number)) ∧
      (10 ^ 15 < spelling.power.natAbs → parse text = .error (.domain .exponentTooLarge))) ∧
    ((∀ spelling : Spelling, spelling.Valid → spelling.text ≠ text) →
      parse text = .error (.malformedNumber (String.ofList text))) := by
  constructor
  · rintro spelling valid rfl
    have wellFormed := Spelling.wellFormed_literal_iff.2 valid
    have size := spelling.exponentSize_literal
    constructor
    · intro bounded
      exact ⟨_, Spelling.parse_text_spelling wellFormed (size.le.trans bounded),
        canonical_ofParts _ _, fun short =>
          Spelling.toRat_value valid bounded (Spelling.far_from_greatestExponent short)⟩
    · intro large
      simp only [parse, Spelling.split_text wellFormed]
      rw [if_neg (not_not.2 wellFormed), if_pos (size.symm ▸ large)]
  · intro other
    have malformed : ¬ (Literal.split text).WellFormed := fun wellFormed => by
      obtain ⟨spelling, valid, same⟩ := Spelling.exists_valid_iff.2 wellFormed
      exact other spelling valid same
    simp only [parse]
    rw [if_pos malformed]

/-- A number with zeros at both ends, an exponent that is too large, and an exponent of an
exponent. -/
theorem parse_grammar_samples :
    (∃ x, parse "-007.50e-3".toList = .ok x ∧ x.toRat = roundSignificant (-7.5 / 1000)) ∧
    parse "1e1000000000000001".toList = .error (.domain .exponentTooLarge) ∧
    parse "1e2e3".toList = .error (.malformedNumber "1e2e3") := by
  refine ⟨?_, ?_, ?_⟩
  · obtain ⟨x, read, -, value⟩ := ((parse_grammar "-007.50e-3".toList).1
      ⟨true, ['0', '0', '7'], some ['5', '0'], some (true, ['3'])⟩
      (Spelling.wellFormed_literal_iff.1 (by decide)) rfl).1 (by decide)
    have whole : digitsValue ['0', '0', '7'] = 7 := rfl
    have fraction : digitsValue ['5', '0'] = 50 := rfl
    have size : digitsValue ['3'] = 3 := rfl
    refine ⟨x, read, (value (by decide)).trans ?_⟩
    norm_num [Spelling.number, Spelling.significand, Spelling.power, withSign, whole, fraction,
      size]
  · exact ((parse_grammar "1e1000000000000001".toList).1
      ⟨false, ['1'], none, some (false, "1000000000000001".toList)⟩
      (Spelling.wellFormed_literal_iff.1 (by decide)) rfl).2 (by decide)
  · exact (parse_grammar "1e2e3".toList).2 fun spelling valid same =>
      absurd (Spelling.exists_valid_iff.1 ⟨spelling, valid, same⟩) (by decide)

end Decimal

end ScientificCalculator
