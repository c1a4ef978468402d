import ScientificCalculator.Proofs.Decimal.Arithmetic
import ScientificCalculator.Proofs.Display.Numeral

/-!
How a typed number is spelled: an optional minus sign, digits, a point with digits after it, and an
exponent with an optional minus sign. A spelling is cut into its own parts again, so it is read as
the decimal nearest to the number that its parts denote.
-/

namespace ScientificCalculator.Decimal

open Display.Numeral (minus fractionText takeMinus_append not_mem_unsigned exponentMark_not_mem
  cutAt_fractionText)

/-- A point may stand without digits before it, or without digits after it. -/
structure Spelling where
  negative : Bool
  whole : List Char
  fraction : Option (List Char)
  exponent : Option (Bool × List Char)

namespace Spelling
variable {spelling : Spelling} {x : Decimal}

def exponentText : Option (Bool × List Char) → List Char
  | none => []
  | some (negative, digits) => 'e' :: (minus negative ++ digits)

def text (spelling : Spelling) : List Char :=
  minus spelling.negative ++ (spelling.whole ++ fractionText spelling.fraction) ++
    exponentText spelling.exponent

def literal (spelling : Spelling) : Literal :=
  ⟨spelling.negative, spelling.whole, spelling.fraction.getD [], spelling.exponent⟩

/-- The number before it is rounded. -/
def value (spelling : Spelling) : ℚ :=
  spelling.literal.mantissa *
    10 ^ (spelling.literal.typedExponent - spelling.literal.fraction.length)

theorem digits_fraction (wellFormed : spelling.literal.WellFormed) :
    ∀ part ∈ spelling.fraction, Digits part := by
  rintro part found
  have digits : Digits (spelling.fraction.getD []) := wellFormed.2.2.1
  rwa [Option.mem_def.1 found] at digits

theorem cutAt_exponentText {body : List Char} (absent : 'e' ∉ body)
    {exponent : Option (Bool × List Char)} (digits : ∀ part ∈ exponent, Digits part.2) :
    (cutAt 'e' (body ++ exponentText exponent)).1 = body ∧
      (cutAt 'e' (body ++ exponentText exponent)).2.map takeMinus = exponent := by
  rcases exponent with _ | ⟨negative, size⟩
  · rw [exponentText, List.append_nil, cutAt_of_not_mem absent]
    exact ⟨rfl, rfl⟩
  · have plain : '-' ∉ size := (digits (negative, size) rfl).not_mem (by decide)
    rw [exponentText, cutAt_append absent, Option.map_some, takeMinus_append negative plain]
    exact ⟨rfl, rfl⟩

theorem digits_exponent (wellFormed : spelling.literal.WellFormed) :
    ∀ part ∈ spelling.exponent, Digits part.2 := by
  rintro ⟨negative, size⟩ found
  obtain ⟨_, whole, fraction, exponent⟩ := spelling
  obtain rfl := Option.mem_def.1 found
  exact wellFormed.2.2.2.2

theorem split_text (wellFormed : spelling.literal.WellFormed) :
    Literal.split spelling.text = spelling.literal := by
  have digits : Digits spelling.whole := wellFormed.2.1
  have digits' := digits_fraction wellFormed
  have unsigned := not_mem_unsigned digits digits' (c := '-') (by decide) (by decide)
  obtain ⟨body, power⟩ := cutAt_exponentText
    (exponentMark_not_mem digits digits' spelling.negative) (digits_exponent wellFormed)
  simp only [Literal.split, text, body, power, takeMinus_append spelling.negative unsigned,
    cutAt_fractionText digits, literal]

theorem parse_text_spelling (wellFormed : spelling.literal.WellFormed)
    (bounded : spelling.literal.exponentSize ≤ maxOrder) :
    parse spelling.text = .ok spelling.literal.value := by
  simp only [parse, split_text wellFormed]
  rw [if_neg (not_not.2 wellFormed), if_neg (not_lt.2 bounded)]

/-- What denotes a decimal is read as this decimal. -/
theorem parse_text_of_value (wellFormed : spelling.literal.WellFormed)
    (bounded : spelling.literal.exponentSize ≤ maxOrder) (held : x.Held)
    (same : spelling.value = x.toRat) : parse spelling.text = .ok x := by
  have rounded : x.toRat = roundSignificant spelling.value := by
    rw [same, roundSignificant_toRat held.canonical]
  rw [parse_text_spelling wellFormed bounded, Literal.value, ofParts_eq_of_toRat_eq held rounded]

end Spelling

end ScientificCalculator.Decimal
