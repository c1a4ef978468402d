import ScientificCalculator.Display.Fitting
import ScientificCalculator.Proofs.Display.Writing

/-!
The searches for a text within a width. What they find is a writing with some number of digits, and
a writing with more digits was passed over only where it does not fit, not even shortened. A search
for an exponent may pass over a shortened text, but then fewer digits give the same number.
-/

namespace ScientificCalculator

namespace Display
open Decimal
variable {x : Decimal} {width count n : Nat} {text : List Char}

/-- The text of a writing, with or without a final point and zero. -/
def Rendering.Texts (rendering : Rendering) (text : List Char) : Prop :=
  text = rendering.text ∨ text = rendering.shortened.text

theorem texts_of_fitted {rendering : Rendering} (fits : rendering.fitted width = some text) :
    rendering.Texts text := by
  unfold Rendering.fitted at fits
  split at fits
  · exact .inl (Option.some.inj fits).symm
  · split at fits
    · exact .inr (Option.some.inj fits).symm
    · cases fits

theorem fitted_eq_none_iff {rendering : Rendering} :
    rendering.fitted width = none ↔ width < rendering.shortened.text.length := by
  have shorter := length_shortened_le rendering
  unfold Rendering.fitted
  split
  · rename_i full
    exact ⟨nofun, fun long => by omega⟩
  · split
    · rename_i short
      exact ⟨nofun, fun long => by omega⟩
    · rename_i long
      exact ⟨fun _ => by omega, fun _ => rfl⟩

theorem length_shortened_le_of_texts {rendering : Rendering} (written : rendering.Texts text) :
    rendering.shortened.text.length ≤ text.length := by
  rcases written with rfl | rfl
  · exact length_shortened_le rendering
  · exact Nat.le_refl _

/-- A text for `width` characters: with some number of digits up to the width, with an exponent or
where the automatic layout needs none. -/
def Candidate (x : Decimal) (width : Nat) (text : List Char) : Prop :=
  ∃ count, 0 < count ∧ count ≤ width ∧
    ((render .scientific x count).Texts text ∨
      (render .automatic x count).exponent = 0 ∧ (render .automatic x count).Texts text)

/-- The positional writings with more than `count` digits, up to `most`, do not fit. -/
def PassedOver (x : Decimal) (width most count : Nat) : Prop :=
  ∀ n, count < n → n ≤ most → (render .automatic x n).exponent = 0 ∧
    width < (render .automatic x n).shortened.text.length

theorem passedOver_self (x : Decimal) (width most : Nat) : PassedOver x width most most :=
  fun n more le => by omega

theorem PassedOver.next (above : PassedOver x width count n)
    (positional : (render .automatic x (count + 1)).exponent = 0)
    (tooLong : (render .automatic x (count + 1)).fitted width = none) :
    PassedOver x width (count + 1) n := by
  intro m more most
  rcases Nat.lt_or_eq_of_le most with earlier | rfl
  · exact above m more (by omega)
  · exact ⟨positional, fitted_eq_none_iff.1 tooLong⟩

section Found

theorem scientificFrom_found (found : scientificFrom x width count = some text) :
    ∃ n, 0 < n ∧ n ≤ max count 1 ∧ (render .scientific x n).Texts text := by
  induction count with
  | zero =>
    rw [scientificFrom, render_no_digits] at found
    exact ⟨1, Nat.one_pos, Nat.le_refl _, texts_of_fitted found⟩
  | succ count ih =>
    rw [scientificFrom] at found
    split at found
    · exact ⟨count + 1, Nat.succ_pos _, Nat.le_max_left _ _, .inl (Option.some.inj found).symm⟩
    · obtain ⟨n, few, le, written⟩ := ih found
      exact ⟨n, few, by omega, written⟩

theorem positionalFrom_found (found : positionalFrom x width count = some text) :
    ∃ n, 0 < n ∧ n ≤ max count 1 ∧ (render .automatic x n).exponent = 0 ∧
      (render .automatic x n).Texts text ∧ PassedOver x width count n := by
  induction count with
  | zero =>
    rw [positionalFrom] at found
    split at found
    · rename_i positional
      exact ⟨1, Nat.one_pos, Nat.le_refl _, positional, texts_of_fitted found,
        fun m more le => by omega⟩
    · cases found
  | succ count ih =>
    rw [positionalFrom] at found
    split at found
    · rename_i positional
      split at found
      · rename_i fitting
        exact ⟨count + 1, Nat.succ_pos _, Nat.le_max_left _ _, positional,
          texts_of_fitted (fitting.trans found), passedOver_self x width (count + 1)⟩
      · rename_i tooLong
        obtain ⟨n, few, le, fixed, written, above⟩ := ih found
        exact ⟨n, few, by omega, fixed, written, above.next positional tooLong⟩
    · cases found

/-- Without a positional text, the writings do not fit down to one that needs an exponent. -/
theorem positionalFrom_none (none : positionalFrom x width count = none) :
    ∃ n ≤ count, (n = 0 ∨ (render .automatic x n).exponent ≠ 0) ∧ PassedOver x width count n := by
  induction count with
  | zero => exact ⟨0, Nat.le_refl _, .inl rfl, passedOver_self x width 0⟩
  | succ count ih =>
    rw [positionalFrom] at none
    split at none
    · rename_i positional
      split at none
      · cases none
      · rename_i tooLong
        obtain ⟨n, le, ends, above⟩ := ih none
        exact ⟨n, by omega, ends, above.next positional tooLong⟩
    · rename_i exponential
      exact ⟨count + 1, Nat.le_refl _, .inr exponential, passedOver_self x width (count + 1)⟩

end Found

theorem denotes_of_texts (nonzero : x.mantissa ≠ 0) (few : 0 < n)
    (unlimited : x.leadingOrder = x.firstPlace) {layout : Layout}
    (written : (render layout x n).Texts text) : Denotes text (x.rounded n).toRat := by
  rcases written with rfl | rfl
  · exact (denotes_render_of_nonzero nonzero few unlimited layout).1
  · exact (denotes_render_of_nonzero nonzero few unlimited layout).2

theorem Candidate.denotes (unlimited : x.leadingOrder = x.firstPlace)
    (candidate : Candidate x width text) :
    ∃ n, 0 < n ∧ n ≤ width ∧ Denotes text (roundTo n |x.toRat|) := by
  obtain ⟨n, few, le, written⟩ := candidate
  refine ⟨n, few, le, ?_⟩
  rcases written with (rfl | rfl) | ⟨-, rfl | rfl⟩
  · exact (denotes_render few unlimited _).1
  · exact (denotes_render few unlimited _).2
  · exact (denotes_render few unlimited _).1
  · exact (denotes_render few unlimited _).2

/-- A text that is found is a candidate, but for the single digit that is tried without any width. -/
theorem candidate_max_of_fitMagnitude (found : fitMagnitude x width = some text) :
    Candidate x (max width 1) text := by
  have scientific (found : fitScientific x width = some text) : Candidate x (max width 1) text := by
    obtain ⟨n, few, le, written⟩ := scientificFrom_found found
    exact ⟨n, few, le, .inl written⟩
  have positional (found : fitPositional x width = some text) : Candidate x (max width 1) text := by
    obtain ⟨n, few, le, fixed, written, -⟩ := positionalFrom_found found
    exact ⟨n, few, le, .inr ⟨fixed, written⟩⟩
  unfold fitMagnitude at found
  split at found
  · rcases Option.or_eq_some_iff.1 found with first | ⟨-, second⟩
    · exact positional first
    · exact scientific second
  · rcases moreFigures_eq (fitPositional x width) (fitScientific x width) with same | same
    · exact positional (same ▸ found)
    · exact scientific (same ▸ found)

/-- A text that is found is a candidate. -/
theorem candidate_of_fitMagnitude (unlimited : x.leadingOrder = x.firstPlace)
    (found : fitMagnitude x width = some text) : Candidate x width text := by
  have candidate := candidate_max_of_fitMagnitude found
  obtain ⟨n, few, le, denotes⟩ := candidate.denotes unlimited
  have length := length_of_fitMagnitude found
  have nonempty := List.length_pos_of_ne_nil denotes.head.1
  rwa [show max width 1 = width by omega] at candidate

/-- Where a scientific text fits, one is found with as many digits, or with fewer for the same
number. -/
theorem scientificFrom_of_fits (canonical : x.Canonical) (nonzero : x.mantissa ≠ 0)
    (unlimited : x.leadingOrder = x.firstPlace) (few : 0 < n) (le : n ≤ count)
    (fits : (render .scientific x n).shortened.text.length ≤ width) :
    ∃ m text, scientificFrom x width count = some text ∧ 0 < m ∧
      (render .scientific x m).Texts text ∧ (n ≤ m ∨ x.rounded m = x.rounded n) := by
  induction count generalizing n with
  | zero => omega
  | succ count ih =>
    rw [scientificFrom]
    split
    · exact ⟨count + 1, _, rfl, Nat.succ_pos _, .inl rfl, .inl le⟩
    · rename_i tooLong
      rcases Nat.lt_or_eq_of_le le with earlier | rfl
      · exact ih few (by omega) fits
      · -- the text fits only without its final zero, so a single figure is left
        have one : (x.rounded (count + 1)).figures ≤ 1 := by
          by_contra many
          rw [shortened_scientific nonzero few unlimited (by omega)] at fits
          exact tooLong fits
        rcases Nat.eq_zero_or_pos count with rfl | more
        · -- a single digit is the end of the search, where the text may be shortened
          cases last : (render .scientific x 1).fitted width with
          | none => exact absurd fits (Nat.not_le.2 (fitted_eq_none_iff.1 last))
          | some text => exact ⟨1, text, last, Nat.one_pos, texts_of_fitted last, .inl (Nat.le_refl _)⟩
        · have same : x.rounded count = x.rounded (count + 1) :=
            rounded_coarse canonical nonzero (Nat.le_add_right count 1) more (by omega)
          rw [← render_scientific_congr nonzero few unlimited more same] at fits
          obtain ⟨m, text, found, pos, written, nearest⟩ := ih more (Nat.le_refl _) fits
          refine ⟨m, text, found, pos, written, ?_⟩
          rcases nearest with atLeast | equal
          · rcases Nat.lt_or_eq_of_le atLeast with further | rfl
            · exact .inl further
            · exact .inr same
          · exact .inr (equal.trans same)

end Display

end ScientificCalculator
