import ScientificCalculator.Proofs.Display.Search

/-!
The characters of the display. The text of any number is made of digits, points, exponent letters
and signs. Another minus sign takes the place of the usual one in the text and changes nothing else,
neither the rest of the text nor whether there is one.
-/

namespace ScientificCalculator

namespace Display
open Decimal

/-- A text in the characters of which numbers are written. -/
def Glyphs (text : List Char) : Prop :=
  ∀ c ∈ text, c.isDigit = true ∨ c ∈ ['.', 'e', '+', '-']

namespace Glyphs
variable {first second : List Char}

theorem of_digits (digits : Digits first) : Glyphs first := fun c member => .inl (digits c member)

theorem append (before : Glyphs first) (after : Glyphs second) : Glyphs (first ++ second) :=
  List.forall_mem_append.2 ⟨before, after⟩

theorem cons {c : Char} (sign : c ∈ ['.', 'e', '+', '-']) (after : Glyphs first) :
    Glyphs (c :: first) := List.forall_mem_cons.2 ⟨.inr sign, after⟩

theorem subset (all : Glyphs second) (part : first ⊆ second) : Glyphs first :=
  fun c member => all c (part member)

end Glyphs

section Written
variable {x : Decimal} {width count : Nat} {text : List Char}

theorem dropFinalZeros_subset (digits : List Char) : dropFinalZeros digits ⊆ digits :=
  fun _ member => List.mem_reverse.1
    ((List.dropWhile_sublist _).subset (List.mem_reverse.1 member))

theorem dropPointZero_subset (text : List Char) : dropPointZero text ⊆ text := by
  unfold dropPointZero
  split
  · rename_i rest same
    intro c member
    have more : c ∈ text.reverse := same ▸ List.mem_cons_of_mem _ (List.mem_cons_of_mem _
      (List.mem_reverse.1 member))
    exact List.mem_reverse.1 more
  · exact List.Subset.refl _

theorem digits_leadingDigits (x : Decimal) (count : Nat) : Digits (x.leadingDigits count).1 := by
  unfold leadingDigits
  simp only
  split
  · exact .replicate_zero _
  · split
    · exact digits_decimalDigits _
    · exact (digits_decimalDigits _).append (.replicate_zero _)

theorem glyphs_exponentMark (exponent : Int) : Glyphs (exponentMark exponent) := by
  unfold exponentMark
  split
  · exact nofun
  · have digits := Glyphs.of_digits (digits_decimalDigits exponent.natAbs)
    split
    · exact (digits.cons (by decide)).cons (by decide)
    · exact (digits.cons (by decide)).cons (by decide)

theorem glyphs_withPoint {digits : List Char} (all : Digits digits) (whole : Nat) :
    Glyphs (withPoint digits whole) := by
  have before : Digits (digits.take whole) := fun c member => all c (List.mem_of_mem_take member)
  have after : Digits (dropFinalZeros (digits.drop whole)) := fun c member =>
    all c (List.mem_of_mem_drop (dropFinalZeros_subset _ member))
  refine (Glyphs.of_digits before).append (Glyphs.cons (by decide) (.of_digits ?_))
  split
  · exact .replicate_zero 1
  · exact after

theorem glyphs_mantissa_render (layout : Layout) (x : Decimal) (count : Nat) :
    Glyphs (render layout x count).mantissa := by
  have digits := digits_leadingDigits x count
  have zero : Digits ['0'] := .replicate_zero 1
  unfold render
  split
  · exact (Glyphs.of_digits zero).append ((Glyphs.of_digits zero).cons (by decide))
  · simp only
    split
    · split
      · exact glyphs_withPoint ((Digits.replicate_zero _).append digits) 1
      · exact glyphs_withPoint digits _
    · exact glyphs_withPoint digits 1

theorem glyphs_of_texts {layout : Layout} (written : (render layout x count).Texts text) :
    Glyphs text := by
  have mantissa := glyphs_mantissa_render layout x count
  have mark := glyphs_exponentMark (render layout x count).exponent
  rcases written with rfl | rfl
  · exact mantissa.append mark
  · exact (mantissa.subset (dropPointZero_subset _)).append mark

theorem glyphs_of_fitMagnitude (found : fitMagnitude x width = some text) : Glyphs text := by
  obtain ⟨n, -, -, written | ⟨-, written⟩⟩ := candidate_max_of_fitMagnitude found
  · exact glyphs_of_texts written
  · exact glyphs_of_texts written

end Written

/-- The text with another minus sign. -/
def replaceMinus (minus : Char) (text : List Char) : List Char :=
  text.map fun c => if c = '-' then minus else c

theorem length_replaceMinus (minus : Char) (text : List Char) :
    (replaceMinus minus text).length = text.length := List.length_map _

theorem replaceMinus_self (text : List Char) : replaceMinus '-' text = text := by
  have each (c : Char) : (if c = '-' then '-' else c) = c := by
    split
    · exact Eq.symm ‹_›
    · rfl
  simp only [replaceMinus, each, List.map_id']

/-- A letter that no number is written with is not in the text, whatever its minus sign. -/
theorem Glyphs.not_mem_replaceMinus {minus c : Char} {text : List Char} (glyphs : Glyphs text)
    (other : ¬ (c.isDigit = true ∨ c ∈ ['.', 'e', '+', '-'])) (notMinus : c ≠ minus) :
    c ∉ replaceMinus minus text := by
  intro member
  obtain ⟨c', source, image⟩ := List.mem_map.1 member
  split at image
  · exact notMinus image.symm
  · exact other (image ▸ glyphs c' source)

variable {x : Decimal} {width : Nat} {text : List Char}

theorem fit_eq (x : Decimal) (width : Nat) :
    fit x width = match fitMagnitude x.abs (magnitudeWidth x width) with
      | some body => .ok (if x.IsNegative then '-' :: body else body)
      | none => .error (.doesNotFit width) := by
  rw [fit, withMinus]
  cases fitMagnitude x.abs (magnitudeWidth x width) with
  | none => rfl
  | some body =>
    simp only
    rw [← replaceMinus, replaceMinus_self]

/-- The text with another minus sign is the usual text with that sign instead. -/
theorem withMinus_eq_map_fit (minus : Char) (x : Decimal) (width : Nat) :
    withMinus minus x width = (fit x width).map (replaceMinus minus) := by
  rw [fit_eq, withMinus]
  cases fitMagnitude x.abs (magnitudeWidth x width) with
  | none => rfl
  | some body =>
    simp only [Except.map]
    split
    · rw [replaceMinus, List.map_cons, if_pos rfl]
    · rfl

/-- A shown text is that of the magnitude, after a minus sign if the number is negative. -/
theorem fit_cases (shown : fit x width = .ok text) :
    x.mantissa < 0 ∧ (∃ body, fitMagnitude x.abs (width - 1) = some body ∧ text = '-' :: body) ∨
      0 ≤ x.mantissa ∧ fitMagnitude x.abs width = some text := by
  rw [fit_eq, magnitudeWidth] at shown
  by_cases negative : x.IsNegative
  · simp only [if_pos negative] at shown
    split at shown
    · rename_i body found
      exact .inl ⟨negative, body, found, (Except.ok.inj shown).symm⟩
    · cases shown
  · simp only [if_neg negative] at shown
    split at shown
    · rename_i body found
      exact .inr ⟨Int.not_lt.1 negative, Except.ok.inj shown ▸ found⟩
    · cases shown

theorem length_of_fit (pos : 0 < width) (shown : fit x width = .ok text) : text.length ≤ width := by
  rcases fit_cases shown with ⟨-, body, found, rfl⟩ | ⟨-, found⟩
  · have short := length_of_fitMagnitude found
    rw [List.length_cons]
    omega
  · exact length_of_fitMagnitude found

theorem glyphs_of_fit (shown : fit x width = .ok text) : Glyphs text := by
  rcases fit_cases shown with ⟨-, body, found, rfl⟩ | ⟨-, found⟩
  · exact (glyphs_of_fitMagnitude found).cons (by decide)
  · exact glyphs_of_fitMagnitude found

end Display

end ScientificCalculator
