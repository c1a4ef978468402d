import ScientificCalculator.Display.Fitting
import ScientificCalculator.Proofs.Decimal.Figures
import ScientificCalculator.Proofs.Display.Numeral

/-!
What is written of a rounded number. Its digits are placed around the point, with zeros where digits
are missing and an exponent where the point is moved; whatever the place of the point, the text
denotes the rounded number, and its length follows from the number of digits and the first place.
-/

namespace ScientificCalculator

section Ends

theorem digitChar_ne_zero {n : Nat} (pos : 0 < n) (below : n < 10) : Nat.digitChar n ≠ '0' := by
  have all : ∀ m < 10, 0 < m → Nat.digitChar m ≠ '0' := by decide
  exact all n below pos

theorem getLast?_decimalDigits {n : Nat} (last : ¬ 10 ∣ n) :
    (decimalDigits n).getLast? ≠ some '0' := by
  rw [decimalDigits, Nat.toDigits_eq_if (by decide)]
  split
  · rename_i small
    simpa using digitChar_ne_zero (by omega) small
  · rw [List.getLast?_concat]
    simpa using digitChar_ne_zero (by omega) (Nat.mod_lt n (by decide))

theorem head?_decimalDigits {n : Nat} (pos : 0 < n) : (decimalDigits n).head? ≠ some '0' := by
  induction n using Nat.strongRecOn with
  | ind n ih =>
    rw [decimalDigits, Nat.toDigits_eq_if (by decide)]
    split
    · rename_i small
      simpa using digitChar_ne_zero pos small
    · have first := ih (n / 10) (Nat.div_lt_self pos (by decide)) (by omega)
      show (decimalDigits (n / 10) ++ _).head? ≠ _
      rwa [List.head?_append_of_ne_nil _ (decimalDigits_ne_nil (n / 10))]

end Ends

namespace Display

/-- Digits with the point after the first `whole` of them, and an exponent. -/
structure Placed where
  digits : List Char
  whole : Nat
  exponent : Int
  areDigits : Digits digits
  last : digits.getLast? ≠ some '0'
  whole_pos : 0 < whole

namespace Placed
variable (placed : Placed)

def wholeDigits : List Char :=
  placed.digits.take placed.whole ++ List.replicate (placed.whole - placed.digits.length) '0'

def fractionDigits : List Char := placed.digits.drop placed.whole

def shownFraction : List Char :=
  if placed.fractionDigits = [] then ['0'] else placed.fractionDigits

def rendering : Rendering := ⟨placed.wholeDigits ++ '.' :: placed.shownFraction, placed.exponent⟩

theorem fractionDigits_eq_nil_iff : placed.fractionDigits = [] ↔ placed.digits.length ≤ placed.whole :=
  List.drop_eq_nil_iff

theorem length_wholeDigits : placed.wholeDigits.length = placed.whole := by
  rw [wholeDigits, List.length_append, List.length_take, List.length_replicate]
  omega

theorem digits_wholeDigits : Digits placed.wholeDigits :=
  Digits.append (fun c member => placed.areDigits c (List.mem_of_mem_take member))
    (.replicate_zero _)

theorem digits_fractionDigits : Digits placed.fractionDigits :=
  fun c member => placed.areDigits c (List.mem_of_mem_drop member)

theorem getLast?_fractionDigits : placed.fractionDigits.getLast? ≠ some '0' := by
  rw [fractionDigits, List.getLast?_drop]
  split
  · exact nofun
  · exact placed.last

end Placed

theorem dropFinalZeros_append_zeros {digits : List Char} (last : digits.getLast? ≠ some '0')
    (zeros : Nat) : dropFinalZeros (digits ++ List.replicate zeros '0') = digits := by
  have all : ∀ c ∈ List.replicate zeros '0', decide (c = '0') = true := fun c member =>
    decide_eq_true (List.eq_of_mem_replicate member)
  rw [dropFinalZeros, List.reverse_append, List.reverse_replicate, List.dropWhile_append_of_pos all]
  cases reversed : digits.reverse with
  | nil => rw [List.dropWhile_nil, ← reversed, List.reverse_reverse]
  | cons c rest =>
    have nonzero : c ≠ '0' := by
      rintro rfl
      rw [← List.head?_reverse, reversed] at last
      exact last rfl
    rw [List.dropWhile_cons_of_neg (by simpa using nonzero), ← reversed, List.reverse_reverse]

/-- Zeros after the digits do not change what is written, as long as there are enough of them. -/
theorem withPoint_append_zeros (placed : Placed) {zeros : Nat}
    (enough : placed.whole ≤ placed.digits.length + zeros) :
    withPoint (placed.digits ++ List.replicate zeros '0') placed.whole =
      placed.rendering.mantissa := by
  have whole : (placed.digits ++ List.replicate zeros '0').take placed.whole =
      placed.wholeDigits := by
    rw [List.take_append, List.take_replicate, Placed.wholeDigits]
    congr 2
    omega
  have fraction : dropFinalZeros ((placed.digits ++ List.replicate zeros '0').drop placed.whole) =
      placed.fractionDigits := by
    rw [List.drop_append, List.drop_replicate]
    exact dropFinalZeros_append_zeros placed.getLast?_fractionDigits _
  rw [withPoint, whole, fraction]
  rfl

theorem dropPointZero_of_last {text : List Char} (last : text.getLast? ≠ some '0') :
    dropPointZero text = text := by
  rw [← List.head?_reverse] at last
  unfold dropPointZero
  split
  · rename_i same
    rw [same] at last
    exact absurd rfl last
  · rfl

theorem dropPointZero_append (text : List Char) : dropPointZero (text ++ ['.', '0']) = text := by
  have reversed : (text ++ ['.', '0']).reverse = '0' :: '.' :: text.reverse := by simp
  rw [dropPointZero, reversed]
  exact List.reverse_reverse text

theorem dropPointZero_of_not_mem {text : List Char} (plain : '.' ∉ text) :
    dropPointZero text = text := by
  unfold dropPointZero
  split
  · rename_i same
    have member : '.' ∈ text.reverse := by
      rw [same]
      exact List.mem_cons_of_mem _ List.mem_cons_self
    exact absurd (List.mem_reverse.1 member) plain
  · rfl

theorem takeWhile_append_exponentMark {mantissa : List Char} (plain : 'e' ∉ mantissa)
    (exponent : Int) : (mantissa ++ exponentMark exponent).takeWhile (· ≠ 'e') = mantissa := by
  have all : ∀ c ∈ mantissa, decide (c ≠ 'e') = true := fun c member =>
    decide_eq_true fun same => plain (same ▸ member)
  rw [List.takeWhile_append_of_pos all, exponentMark]
  split
  · rw [List.takeWhile_nil, List.append_nil]
  · rw [List.takeWhile_cons_of_neg (by decide), List.append_nil]

namespace Placed
variable (placed : Placed)

theorem shortened_rendering : placed.rendering.shortened =
    ⟨placed.wholeDigits ++ Numeral.fractionText
      (if placed.fractionDigits = [] then none else some placed.fractionDigits),
      placed.exponent⟩ := by
  rw [Rendering.shortened, rendering, shownFraction]
  by_cases whole : placed.fractionDigits = []
  · rw [if_pos whole, if_pos whole, Numeral.fractionText, List.append_nil, dropPointZero_append]
  · have last : (placed.wholeDigits ++ '.' :: placed.fractionDigits).getLast? ≠ some '0' := by
      rw [List.getLast?_append_of_ne_nil _ (List.cons_ne_nil _ _), List.getLast?_cons_of_ne_nil whole]
      exact placed.getLast?_fractionDigits
    rw [if_neg whole, if_neg whole, dropPointZero_of_last last]
    rfl

/-- The numeral with this fraction. -/
def numeral (fraction : Option (List Char)) : Numeral :=
  ⟨false, placed.wholeDigits, fraction,
    if placed.exponent = 0 then none
    else some (decide (placed.exponent < 0), decimalDigits placed.exponent.natAbs)⟩

theorem exponentMark_eq (exponent : Int) : exponentMark exponent = Numeral.exponentText
    (if exponent = 0 then none
      else some (decide (exponent < 0), decimalDigits exponent.natAbs)) := by
  rw [exponentMark]
  split
  · rfl
  · rw [Numeral.exponentText]
    by_cases negative : exponent < 0
    · rw [if_neg (by omega), if_pos (by simpa using negative)]
    · rw [if_pos (by omega), if_neg (by simpa using negative)]

theorem text_rendering :
    placed.rendering.text = (placed.numeral (some placed.shownFraction)).text := by
  rw [Rendering.text, exponentMark_eq]
  rfl

theorem text_shortened : placed.rendering.shortened.text = (placed.numeral
    (if placed.fractionDigits = [] then none else some placed.fractionDigits)).text := by
  rw [shortened_rendering, Rendering.text, exponentMark_eq]
  rfl

theorem wellFormed_numeral {fraction : Option (List Char)}
    (after : ∀ digits ∈ fraction, digits ≠ [] ∧ Digits digits) :
    (placed.numeral fraction).WellFormed where
  whole := by
    refine ⟨List.ne_nil_of_length_pos ?_, placed.digits_wholeDigits⟩
    rw [numeral, length_wholeDigits]
    exact placed.whole_pos
  fraction := after
  exponent := by
    intro part member
    rw [numeral] at member
    split at member
    · cases member
    · cases member
      exact ⟨decimalDigits_ne_nil _, digits_decimalDigits _⟩

theorem power_numeral (fraction : Option (List Char)) :
    (placed.numeral fraction).power = placed.exponent := by
  rw [Numeral.power, numeral]
  by_cases none : placed.exponent = 0
  · simp only [none, ↓reduceIte]
  · simp only [if_neg none, digitsValue_decimalDigits, Decimal.withSign]
    by_cases negative : placed.exponent < 0
    · rw [if_pos (by simpa using negative)]
      omega
    · rw [if_neg (by simpa using negative)]
      omega

/-- The number that the digits stand for. -/
def value : ℚ :=
  digitsValue placed.digits * 10 ^ ((placed.whole : Int) - placed.digits.length + placed.exponent)

/-- All digits of the text without a zero that ends it. -/
theorem wholeDigits_append_fractionDigits : placed.wholeDigits ++ placed.fractionDigits =
    placed.digits ++ List.replicate (placed.whole - placed.digits.length) '0' := by
  rw [wholeDigits, fractionDigits]
  rcases Nat.le_total placed.digits.length placed.whole with short | long
  · rw [List.drop_eq_nil_of_le short, List.take_of_length_le short, List.append_nil]
  · rw [Nat.sub_eq_zero_of_le long, List.replicate_zero, List.append_nil, List.append_nil,
      List.take_append_drop]

theorem digitsValue_wholeDigits_append :
    digitsValue (placed.wholeDigits ++ placed.fractionDigits) * 10 ^
      (placed.exponent - placed.fractionDigits.length) = placed.value := by
  have length : placed.fractionDigits.length = placed.digits.length - placed.whole :=
    List.length_drop
  have places : (placed.whole : Int) - placed.digits.length + placed.exponent =
      (placed.whole - placed.digits.length : Nat) +
        (placed.exponent - placed.fractionDigits.length) := by
    rw [length]
    omega
  rw [wholeDigits_append_fractionDigits, digitsValue_append_zeros, value, Nat.cast_mul,
    natCast_tenTo, mul_assoc, ← ten_zpow_eq_mul _ places]

theorem value_numeral (fraction : Option (List Char)) : (placed.numeral fraction).value =
    digitsValue (placed.wholeDigits ++ fraction.getD []) *
      10 ^ (placed.exponent - (fraction.getD []).length) := by
  rw [Numeral.value, power_numeral]
  rfl

theorem value_numeral_shown : (placed.numeral (some placed.shownFraction)).value =
    placed.value := by
  rw [value_numeral, ← digitsValue_wholeDigits_append, Option.getD_some, shownFraction]
  split
  · rename_i whole
    have places : placed.exponent = (1 : Nat) + (placed.exponent - (1 : Nat)) := by omega
    have zero : digitsValue (placed.wholeDigits ++ ['0']) =
        digitsValue placed.wholeDigits * tenTo 1 := digitsValue_append_zeros _ 1
    rw [whole, zero, List.append_nil, List.length_singleton, List.length_nil, Nat.cast_zero,
      sub_zero, Nat.cast_mul, natCast_tenTo, mul_assoc, ← ten_zpow_eq_mul 1 places]
  · rfl

theorem value_numeral_short : (placed.numeral
    (if placed.fractionDigits = [] then none else some placed.fractionDigits)).value =
      placed.value := by
  rw [value_numeral, ← digitsValue_wholeDigits_append]
  split
  · rename_i whole
    rw [whole, Option.getD_none]
  · rfl

theorem denotes_rendering : Denotes placed.rendering.text placed.value := by
  refine ⟨_, placed.wellFormed_numeral ?_, rfl, placed.text_rendering.symm,
    placed.value_numeral_shown⟩
  intro digits member
  obtain rfl := Option.mem_some.1 member
  rw [shownFraction]
  split
  · exact ⟨List.cons_ne_nil _ _, .replicate_zero 1⟩
  · exact ⟨‹_›, placed.digits_fractionDigits⟩

theorem denotes_shortened : Denotes placed.rendering.shortened.text placed.value := by
  refine ⟨_, placed.wellFormed_numeral ?_, rfl, placed.text_shortened.symm,
    placed.value_numeral_short⟩
  intro digits member
  split at member
  · cases member
  · obtain rfl := Option.mem_some.1 member
    exact ⟨‹_›, placed.digits_fractionDigits⟩

theorem length_rendering : placed.rendering.text.length =
    placed.whole + 1 + max 1 (placed.digits.length - placed.whole) +
      (exponentMark placed.exponent).length := by
  have fraction : placed.shownFraction.length = max 1 (placed.digits.length - placed.whole) := by
    rw [shownFraction]
    split
    · rename_i whole
      rw [fractionDigits_eq_nil_iff] at whole
      rw [List.length_singleton]
      omega
    · rename_i more
      rw [fractionDigits_eq_nil_iff] at more
      rw [fractionDigits, List.length_drop]
      omega
  rw [Rendering.text, List.length_append]
  show (placed.wholeDigits ++ '.' :: placed.shownFraction).length +
    (exponentMark placed.exponent).length = _
  rw [List.length_append, List.length_cons, length_wholeDigits, fraction]
  omega

theorem shortened_of_lt (long : placed.whole < placed.digits.length) :
    placed.rendering.shortened = placed.rendering := by
  have more : placed.fractionDigits ≠ [] := fun none => by
    have short := placed.fractionDigits_eq_nil_iff.1 none
    omega
  rw [shortened_rendering, if_neg more, rendering, shownFraction, if_neg more]
  rfl

theorem length_shortened : placed.rendering.shortened.text.length =
    (if placed.digits.length ≤ placed.whole then placed.whole else placed.digits.length + 1) +
      (exponentMark placed.exponent).length := by
  split
  · rename_i short
    rw [shortened_rendering, if_pos (placed.fractionDigits_eq_nil_iff.2 short), Rendering.text,
      Numeral.fractionText, List.append_nil, List.length_append, length_wholeDigits]
  · rename_i long
    rw [placed.shortened_of_lt (by omega), length_rendering]
    omega

theorem filter_mantissa_shortened : placed.rendering.shortened.mantissa.filter (· ≠ '.') =
    placed.wholeDigits ++ placed.fractionDigits := by
  have kept {digits : List Char} (all : Digits digits) : digits.filter (· ≠ '.') = digits :=
    List.filter_eq_self.2 fun c member => decide_eq_true (by
      rintro rfl
      exact all.not_mem (by decide) member)
  rw [shortened_rendering, List.filter_append, kept placed.digits_wholeDigits]
  split
  · rename_i whole
    rw [whole]
    rfl
  · rw [Numeral.fractionText, List.filter_cons_of_neg (by decide), kept placed.digits_fractionDigits]

theorem shortened_shortened : placed.rendering.shortened.shortened = placed.rendering.shortened := by
  rcases Nat.lt_or_ge placed.whole placed.digits.length with long | short
  · rw [placed.shortened_of_lt long, placed.shortened_of_lt long]
  · have plain : '.' ∉ placed.wholeDigits := placed.digits_wholeDigits.not_mem (by decide)
    rw [shortened_rendering, if_pos (placed.fractionDigits_eq_nil_iff.2 short), Rendering.shortened,
      Numeral.fractionText, List.append_nil, dropPointZero_of_not_mem plain]

theorem not_mem_mantissa : 'e' ∉ placed.rendering.mantissa ∧
    'e' ∉ placed.rendering.shortened.mantissa := by
  have whole : 'e' ∉ placed.wholeDigits := placed.digits_wholeDigits.not_mem (by decide)
  have fraction : 'e' ∉ placed.fractionDigits := placed.digits_fractionDigits.not_mem (by decide)
  rw [shortened_rendering, rendering, shownFraction]
  split
  · exact ⟨by simp [whole], by simp [whole, Numeral.fractionText]⟩
  · exact ⟨by simp [whole, fraction], by simp [whole, fraction, Numeral.fractionText]⟩

/-- Shortening a text does not change which of its digits count. -/
theorem significantFigures_text :
    significantFigures placed.rendering.text =
        ((placed.wholeDigits ++ placed.fractionDigits).dropWhile (· = '0')).length ∧
      significantFigures placed.rendering.shortened.text =
        ((placed.wholeDigits ++ placed.fractionDigits).dropWhile (· = '0')).length := by
  obtain ⟨full, short⟩ := placed.not_mem_mantissa
  have first : dropPointZero placed.rendering.mantissa = placed.rendering.shortened.mantissa := rfl
  have second : dropPointZero placed.rendering.shortened.mantissa =
      placed.rendering.shortened.mantissa := congrArg Rendering.mantissa placed.shortened_shortened
  rw [significantFigures, significantFigures, Rendering.text, Rendering.text,
    takeWhile_append_exponentMark full, takeWhile_append_exponentMark short, first, second,
    filter_mantissa_shortened]
  exact ⟨rfl, rfl⟩

end Placed

namespace Placed
variable (y : Decimal) (last : ¬ (10 : Int) ∣ y.mantissa)

/-- The digits of a mantissa that does not end in zero, with the point after the first of them. -/
def scientific : Placed where
  digits := decimalDigits y.mantissa.natAbs
  whole := 1
  exponent := y.firstPlace
  areDigits := digits_decimalDigits _
  last := getLast?_decimalDigits fun ten => last (Int.natCast_dvd.2 ten)
  whole_pos := Nat.one_pos

/-- The digits of a mantissa in their places, without an exponent. -/
def positional : Placed where
  digits := List.replicate (-y.firstPlace).toNat '0' ++ decimalDigits y.mantissa.natAbs
  whole := y.firstPlace.toNat + 1
  exponent := 0
  areDigits := Digits.append (.replicate_zero _) (digits_decimalDigits _)
  last := by
    rw [List.getLast?_append_of_ne_nil _ (decimalDigits_ne_nil _)]
    exact getLast?_decimalDigits fun ten => last (Int.natCast_dvd.2 ten)
  whole_pos := Nat.succ_pos _

theorem length_scientific : (scientific y last).digits.length = y.figures := length_decimalDigits _

theorem value_scientific : (scientific y last).value = |y.toRat| := by
  have places : ((scientific y last).whole : Int) - (scientific y last).digits.length +
      (scientific y last).exponent = y.exponent := by
    have first := Decimal.firstPlace_eq y
    rw [length_scientific]
    show ((1 : Nat) : Int) - y.figures + y.firstPlace = _
    omega
  have digits : digitsValue (scientific y last).digits = y.mantissa.natAbs :=
    digitsValue_decimalDigits _
  rw [value, places, digits, Decimal.abs_toRat]

theorem length_positional :
    (positional y last).digits.length = (-y.firstPlace).toNat + y.figures := by
  rw [positional, List.length_append, List.length_replicate, length_decimalDigits]
  rfl

theorem value_positional : (positional y last).value = |y.toRat| := by
  have places : ((positional y last).whole : Int) - (positional y last).digits.length +
      (positional y last).exponent = y.exponent := by
    have first := Decimal.firstPlace_eq y
    rw [length_positional]
    show ((y.firstPlace.toNat + 1 : Nat) : Int) - ((-y.firstPlace).toNat + y.figures : Nat) + 0 = _
    omega
  have digits : digitsValue (positional y last).digits = y.mantissa.natAbs := by
    rw [positional, digitsValue_zeros_append, digitsValue_decimalDigits]
  rw [value, places, digits, Decimal.abs_toRat]

end Placed

end Display

end ScientificCalculator
