import ScientificCalculator.Decimal.Arithmetic
import ScientificCalculator.Display.Rendering
import ScientificCalculator.Error

/-!
The text of a number within a width. Of each layout the writing with the most digits that fits is
taken. From one on the positional writing is preferred; below one, the writing with more significant
figures. The sign of a negative number takes one character of the width. No text is longer than the
width it was made for.
-/

namespace ScientificCalculator.Display

/-- The text, or the text without a final point and zero, if it has at most `width` characters. -/
def Rendering.fitted (rendering : Rendering) (width : Nat) : Option (List Char) :=
  if rendering.text.length ≤ width then some rendering.text
  else if rendering.shortened.text.length ≤ width then some rendering.shortened.text
  else none

theorem length_of_fitted {rendering : Rendering} {width : Nat} {text : List Char}
    (fits : rendering.fitted width = some text) : text.length ≤ width := by
  unfold Rendering.fitted at fits
  split at fits
  · rename_i short
    cases fits
    exact short
  · split at fits
    · rename_i short
      cases fits
      exact short
    · cases fits

/-- The scientific writing with at most this many digits that fits. A final point and zero are left
out only when a single digit is left. -/
def scientificFrom (x : Decimal) (width : Nat) : Nat → Option (List Char)
  | 0 => (render .scientific x 0).fitted width
  | count + 1 =>
    let rendering := render .scientific x (count + 1)
    if rendering.text.length ≤ width then some rendering.text
    else scientificFrom x width count

/-- The positional writing with at most this many digits that fits. The search ends at the first
number of digits for which the writing needs an exponent. -/
def positionalFrom (x : Decimal) (width : Nat) : Nat → Option (List Char)
  | 0 =>
    let rendering := render .automatic x 0
    if rendering.exponent = 0 then rendering.fitted width else none
  | count + 1 =>
    let rendering := render .automatic x (count + 1)
    if rendering.exponent = 0 then
      match rendering.fitted width with
      | some text => some text
      | none => positionalFrom x width count
    else none

def fitScientific (x : Decimal) (width : Nat) : Option (List Char) := scientificFrom x width width

def fitPositional (x : Decimal) (width : Nat) : Option (List Char) := positionalFrom x width width

theorem length_of_scientificFrom {x : Decimal} {width count : Nat} {text : List Char}
    (fits : scientificFrom x width count = some text) : text.length ≤ width := by
  induction count with
  | zero => exact length_of_fitted fits
  | succ count ih =>
    rw [scientificFrom] at fits
    split at fits
    · rename_i short
      cases fits
      exact short
    · exact ih fits

theorem length_of_positionalFrom {x : Decimal} {width count : Nat} {text : List Char}
    (fits : positionalFrom x width count = some text) : text.length ≤ width := by
  induction count with
  | zero =>
    rw [positionalFrom] at fits
    split at fits
    · exact length_of_fitted fits
    · cases fits
  | succ count ih =>
    rw [positionalFrom] at fits
    split at fits
    · split at fits
      · rename_i found
        cases fits
        exact length_of_fitted found
      · exact ih fits
    · cases fits

/-- The positional writing, unless the scientific one has more significant figures. -/
def moreFigures (positional scientific : Option (List Char)) : Option (List Char) :=
  match positional, scientific with
  | none, scientific => scientific
  | positional, none => positional
  | some positional, some scientific =>
    if significantFigures positional < significantFigures scientific then some scientific
    else some positional

def fitMagnitude (x : Decimal) (width : Nat) : Option (List Char) :=
  if Decimal.one ≤ x then (fitPositional x width).or (fitScientific x width)
  else moreFigures (fitPositional x width) (fitScientific x width)

theorem moreFigures_eq (positional scientific : Option (List Char)) :
    moreFigures positional scientific = positional ∨
      moreFigures positional scientific = scientific := by
  cases positional with
  | none => exact .inr rfl
  | some p =>
    cases scientific with
    | none => exact .inl rfl
    | some s =>
      rw [moreFigures]
      split
      · exact .inr rfl
      · exact .inl rfl

theorem length_of_fitMagnitude {x : Decimal} {width : Nat} {text : List Char}
    (fits : fitMagnitude x width = some text) : text.length ≤ width := by
  unfold fitMagnitude at fits
  split at fits
  · rcases Option.or_eq_some_iff.1 fits with positional | ⟨_, scientific⟩
    · exact length_of_positionalFrom positional
    · exact length_of_scientificFrom scientific
  · rcases moreFigures_eq (fitPositional x width) (fitScientific x width) with same | same
    · exact length_of_positionalFrom (same ▸ fits)
    · exact length_of_scientificFrom (same ▸ fits)

def magnitude (x : Decimal) (width : Nat) : Except Error (List Char) :=
  match fitMagnitude x width with
  | some text => .ok text
  | none => .error (.doesNotFit width)

def magnitudeWidth (x : Decimal) (width : Nat) : Nat := if x.IsNegative then width - 1 else width

/-- The text of a number within a width, with a minus sign of one's own choice. -/
def withMinus (minus : Char) (x : Decimal) (width : Nat) : Except Error (List Char) :=
  match fitMagnitude x.abs (magnitudeWidth x width) with
  | some text =>
    let body := text.map fun c => if c = '-' then minus else c
    .ok (if x.IsNegative then minus :: body else body)
  | none => .error (.doesNotFit width)

def fit (x : Decimal) (width : Nat) : Except Error (List Char) := withMinus '-' x width

end ScientificCalculator.Display
