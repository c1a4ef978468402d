import Mathlib.Data.List.TakeWhile
import ScientificCalculator.Decimal.Literal
import ScientificCalculator.Proofs.Decimal.Value

/-!
The number that a displayed text denotes. A text is read by cutting it at the letter `e`, at the
minus sign and at the point; the text of a well-formed numeral is read back as this numeral, so a
text has one value.
-/

namespace ScientificCalculator

section DigitTexts

theorem decimalDigits_ne_nil (n : Nat) : decimalDigits n ≠ [] := by
  have pos := digitCount_pos n
  rw [← length_decimalDigits] at pos
  exact List.ne_nil_of_length_pos pos

theorem Digits.append {first second : List Char} (before : Digits first) (after : Digits second) :
    Digits (first ++ second) := List.forall_mem_append.2 ⟨before, after⟩

theorem Digits.replicate_zero (n : Nat) : Digits (List.replicate n '0') := by
  intro c member
  rw [List.eq_of_mem_replicate member]
  decide

theorem Digits.not_mem {digits : List Char} (all : Digits digits) {c : Char}
    (other : c.isDigit = false) : c ∉ digits := by
  intro member
  rw [all c member] at other
  cases other

theorem ofDigitChars_replicate_zero (n value : Nat) :
    Nat.ofDigitChars 10 (List.replicate n '0') value = value * tenTo n := by
  induction n generalizing value with
  | zero => exact (Nat.mul_one value).symm
  | succ n ih =>
    rw [List.replicate_succ, Nat.ofDigitChars_cons, ih, tenTo_succ]
    show (10 * value + 0) * tenTo n = _
    ring

theorem digitsValue_append_zeros (digits : List Char) (n : Nat) :
    digitsValue (digits ++ List.replicate n '0') = digitsValue digits * tenTo n := by
  rw [digitsValue, Nat.ofDigitChars_append, ofDigitChars_replicate_zero, digitsValue]

theorem digitsValue_zeros_append (digits : List Char) (n : Nat) :
    digitsValue (List.replicate n '0' ++ digits) = digitsValue digits := by
  rw [digitsValue, Nat.ofDigitChars_append, ofDigitChars_replicate_zero, Nat.zero_mul, digitsValue]

end DigitTexts

namespace Decimal

theorem cutAt_of_not_mem {separator : Char} {text : List Char} (absent : separator ∉ text) :
    cutAt separator text = (text, none) := by
  have all : ∀ c ∈ text, decide (c ≠ separator) = true := fun c member =>
    decide_eq_true fun same => absent (same ▸ member)
  rw [cutAt, List.dropWhile_eq_nil_iff.2 all]

theorem cutAt_append {separator : Char} {before : List Char} (absent : separator ∉ before)
    (after : List Char) : cutAt separator (before ++ separator :: after) = (before, some after) := by
  have all : ∀ c ∈ before, decide (c ≠ separator) = true := fun c member =>
    decide_eq_true fun same => absent (same ▸ member)
  rw [cutAt, List.dropWhile_append_of_pos all, List.takeWhile_append_of_pos all,
    List.dropWhile_cons_of_neg (by simp), List.takeWhile_cons_of_neg (by simp), List.append_nil]

end Decimal

namespace Display
open Decimal

/-- A written number: a sign, digits, digits after a point, and an exponent with its sign. -/
structure Numeral where
  negative : Bool
  whole : List Char
  fraction : Option (List Char)
  exponent : Option (Bool × List Char)

namespace Numeral

/-- There are digits before the point, after a point and in an exponent, and nothing but digits. -/
structure WellFormed (numeral : Numeral) : Prop where
  whole : numeral.whole ≠ [] ∧ Digits numeral.whole
  fraction : ∀ digits ∈ numeral.fraction, digits ≠ [] ∧ Digits digits
  exponent : ∀ part ∈ numeral.exponent, part.2 ≠ [] ∧ Digits part.2

def minus (negative : Bool) : List Char := if negative then ['-'] else []

def fractionText : Option (List Char) → List Char
  | none => []
  | some digits => '.' :: digits

def exponentText : Option (Bool × List Char) → List Char
  | none => []
  | some (negative, digits) => 'e' :: (if negative then '-' else '+') :: digits

def text (numeral : Numeral) : List Char :=
  minus numeral.negative ++ numeral.whole ++ fractionText numeral.fraction ++
    exponentText numeral.exponent

def power (numeral : Numeral) : Int :=
  match numeral.exponent with
  | none => 0
  | some (negative, digits) => withSign negative (digitsValue digits)

def value (numeral : Numeral) : ℚ :=
  (withSign numeral.negative (digitsValue (numeral.whole ++ numeral.fraction.getD [])) : Int) *
    10 ^ (numeral.power - (numeral.fraction.getD []).length)

/-- The sign of an exponent, and its digits. -/
def takeSign : List Char → Bool × List Char
  | '-' :: digits => (true, digits)
  | '+' :: digits => (false, digits)
  | digits => (false, digits)

def read (text : List Char) : Numeral :=
  let (body, exponent) := cutAt 'e' text
  let (negative, unsigned) := takeMinus body
  let (whole, fraction) := cutAt '.' unsigned
  ⟨negative, whole, fraction, exponent.map takeSign⟩

theorem cutAt_fractionText {whole : List Char} (digits : Digits whole)
    (fraction : Option (List Char)) :
    cutAt '.' (whole ++ fractionText fraction) = (whole, fraction) := by
  have absent : '.' ∉ whole := digits.not_mem (by decide)
  cases fraction with
  | none => rw [fractionText, List.append_nil, cutAt_of_not_mem absent]
  | some after => rw [fractionText, cutAt_append absent]

theorem cutAt_exponentText {body : List Char} (absent : 'e' ∉ body)
    (exponent : Option (Bool × List Char)) :
    (cutAt 'e' (body ++ exponentText exponent)).1 = body ∧
      (cutAt 'e' (body ++ exponentText exponent)).2.map takeSign = exponent := by
  rcases exponent with _ | ⟨negative, digits⟩
  · rw [exponentText, List.append_nil, cutAt_of_not_mem absent]
    exact ⟨rfl, rfl⟩
  · rw [exponentText, cutAt_append absent]
    cases negative <;> exact ⟨rfl, rfl⟩

theorem takeMinus_append (negative : Bool) {unsigned : List Char} (plain : '-' ∉ unsigned) :
    takeMinus (minus negative ++ unsigned) = (negative, unsigned) := by
  cases negative with
  | true => rfl
  | false =>
    show takeMinus unsigned = _
    unfold takeMinus
    split
    · exact absurd List.mem_cons_self plain
    · rfl

/-- Before an exponent there are only digits and a point, but for the sign. -/
theorem not_mem_unsigned {whole : List Char} {fraction : Option (List Char)}
    (digits : Digits whole) (digits' : ∀ part ∈ fraction, Digits part) {c : Char}
    (other : c.isDigit = false) (notPoint : c ≠ '.') : c ∉ whole ++ fractionText fraction := by
  rw [List.mem_append, not_or]
  refine ⟨digits.not_mem other, ?_⟩
  cases fraction with
  | none => exact List.not_mem_nil
  | some part =>
    rw [fractionText, List.mem_cons, not_or]
    exact ⟨notPoint, (digits' part rfl).not_mem other⟩

theorem exponentMark_not_mem {whole : List Char} {fraction : Option (List Char)}
    (digits : Digits whole) (digits' : ∀ part ∈ fraction, Digits part) (negative : Bool) :
    'e' ∉ minus negative ++ (whole ++ fractionText fraction) := by
  rw [List.mem_append, not_or]
  refine ⟨?_, not_mem_unsigned digits digits' (by decide) (by decide)⟩
  cases negative <;> decide

/-- The text of a numeral is read as this numeral. -/
theorem read_text {numeral : Numeral} (wellFormed : numeral.WellFormed) :
    read numeral.text = numeral := by
  obtain ⟨negative, whole, fraction, exponent⟩ := numeral
  have digits : Digits whole := wellFormed.whole.2
  have digits' : ∀ part ∈ fraction, Digits part := fun part found =>
    (wellFormed.fraction part found).2
  have unsigned := not_mem_unsigned digits digits' (c := '-') (by decide) (by decide)
  obtain ⟨body, power⟩ :=
    cutAt_exponentText (exponentMark_not_mem digits digits' negative) exponent
  simp only [read, text, List.append_assoc _ whole, body, power, takeMinus_append negative unsigned,
    cutAt_fractionText digits]

end Numeral

/-- A text of the form `[-]digits[.digits][e(+|-)digits]`. -/
def Written (text : List Char) : Prop := ∃ numeral : Numeral, numeral.WellFormed ∧ numeral.text = text

/-- The number that a text denotes. -/
def numberOf (text : List Char) : ℚ := (Numeral.read text).value

theorem numberOf_text {numeral : Numeral} (wellFormed : numeral.WellFormed) :
    numberOf numeral.text = numeral.value := by
  rw [numberOf, Numeral.read_text wellFormed]

/-- A text without a sign, and the number that it denotes. -/
def Denotes (text : List Char) (q : ℚ) : Prop :=
  ∃ numeral : Numeral, numeral.WellFormed ∧ numeral.negative = false ∧ numeral.text = text ∧
    numeral.value = q

namespace Denotes
variable {text : List Char} {q : ℚ}

theorem written (denotes : Denotes text q) : Written text := by
  obtain ⟨numeral, wellFormed, -, same, -⟩ := denotes
  exact ⟨numeral, wellFormed, same⟩

theorem numberOf_eq (denotes : Denotes text q) : numberOf text = q := by
  obtain ⟨numeral, wellFormed, -, rfl, rfl⟩ := denotes
  exact numberOf_text wellFormed

/-- A text without a sign begins with a digit. -/
theorem head (denotes : Denotes text q) : text ≠ [] ∧ text.head? ≠ some '-' := by
  obtain ⟨numeral, wellFormed, unsigned, rfl, -⟩ := denotes
  obtain ⟨nonempty, digits⟩ := wellFormed.whole
  rw [Numeral.text, unsigned]
  cases whole : numeral.whole with
  | nil => exact absurd whole nonempty
  | cons first rest =>
    rw [whole] at digits
    refine ⟨List.cons_ne_nil _ _, fun minus => ?_⟩
    obtain rfl := Option.some.inj minus
    exact digits.not_mem (by decide) List.mem_cons_self

/-- With a minus sign the text denotes the opposite number. -/
theorem minus (denotes : Denotes text q) :
    Written ('-' :: text) ∧ numberOf ('-' :: text) = -q := by
  obtain ⟨numeral, wellFormed, unsigned, rfl, rfl⟩ := denotes
  have opposite : ({ numeral with negative := true } : Numeral).WellFormed :=
    ⟨wellFormed.whole, wellFormed.fraction, wellFormed.exponent⟩
  have text : ({ numeral with negative := true } : Numeral).text = '-' :: numeral.text := by
    rw [Numeral.text, Numeral.text, unsigned]
    rfl
  refine ⟨⟨_, opposite, text⟩, ?_⟩
  rw [← text, numberOf_text opposite, Numeral.value, Numeral.value, unsigned]
  show ((-(_ : Int) : Int) : ℚ) * _ = -(((_ : Int) : ℚ) * _)
  rw [Int.cast_neg, neg_mul]
  rfl

end Denotes

end Display

end ScientificCalculator
