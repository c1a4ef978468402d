import ScientificCalculator.Proofs.Display.Faithful

/-!
The nearest text. Of all texts that fit into a width, the one that is taken denotes a number at least
as near as any other. From one on, a positional text that does not fit has digits after the point,
and then no text with an exponent and as many digits fits; below one, the text with more figures is
the nearer one.
-/

namespace ScientificCalculator

namespace Display
open Decimal
variable {x : Decimal} {width n m : Nat} {text : List Char}

/-- How far the number rounded to `count` figures is from its magnitude. -/
def roundingError (x : Decimal) (count : Nat) : ℚ := |(x.rounded count).toRat - (|x.toRat|)|

theorem roundingError_anti (nonzero : x.mantissa ≠ 0) (le : n ≤ m) :
    roundingError x m ≤ roundingError x n := abs_toRat_rounded_sub_anti nonzero le

theorem roundingError_of_nearest (nonzero : x.mantissa ≠ 0)
    (nearest : n ≤ m ∨ x.rounded m = x.rounded n) : roundingError x m ≤ roundingError x n := by
  rcases nearest with more | same
  · exact roundingError_anti nonzero more
  · rw [roundingError, roundingError, same]

theorem rounded_figures (canonical : x.Canonical) (nonzero : x.mantissa ≠ 0) (few : 0 < n) :
    x.rounded (x.rounded n).figures = x.rounded n :=
  rounded_coarse canonical nonzero (figures_rounded_le nonzero few) (digitCount_pos _) (Nat.le_refl _)

/-- Of two rounded numbers the one with more figures is nearer, whatever they were rounded to. -/
theorem roundingError_le_of_figures (canonical : x.Canonical) (nonzero : x.mantissa ≠ 0)
    (few : 0 < n) (few' : 0 < m) (le : (x.rounded n).figures ≤ (x.rounded m).figures) :
    roundingError x m ≤ roundingError x n := by
  have nearer := roundingError_anti nonzero le
  rwa [roundingError, roundingError, rounded_figures canonical nonzero few,
    rounded_figures canonical nonzero few'] at nearer

/-- A text with `count` digits fits. -/
def Fits (x : Decimal) (width count : Nat) : Prop :=
  (render .scientific x count).shortened.text.length ≤ width ∨
    (render .automatic x count).exponent = 0 ∧
      (render .automatic x count).shortened.text.length ≤ width

/-- The text that is taken is at least as near as the number rounded to `count` figures. -/
def Answered (x : Decimal) (width count : Nat) : Prop :=
  ∃ m text, fitMagnitude x width = some text ∧ Denotes text (x.rounded m).toRat ∧
    roundingError x m ≤ roundingError x count

theorem Answered.trans (answered : Answered x width n)
    (nearer : roundingError x n ≤ roundingError x m) : Answered x width m := by
  obtain ⟨k, text, found, denotes, near⟩ := answered
  exact ⟨k, text, found, denotes, near.trans nearer⟩

section Positive
variable (canonical : x.Canonical) (positive : 0 < x.mantissa)
  (unlimited : x.leadingOrder = x.firstPlace)
include canonical positive unlimited

section FromOne
variable (place : 0 ≤ x.firstPlace)
include place

omit canonical in
/-- The integer part alone has no more digits than were asked for, so a positional text that does not
fit has a fraction, and an exponent makes it no shorter. -/
theorem scientific_tooLong (few : 0 < n) (le : n ≤ width)
    (positional : (render .automatic x n).exponent = 0)
    (long : width < (render .automatic x n).shortened.text.length) :
    width < (render .scientific x n).shortened.text.length := by
  have nonzero := positive.ne'
  have natural := place.trans (firstPlace_le_rounded nonzero few)
  have bounds : (x.rounded n).firstPlace < n := by
    have layout := (exponent_automatic_eq_zero_iff nonzero few unlimited).1 positional
    have inside := of_decide_eq_true layout
    omega
  rw [length_positional nonzero few unlimited positional] at long
  rw [length_scientific nonzero few unlimited]
  split at long
  · omega
  · rw [if_neg (by omega)]
    omega

omit canonical in
/-- Where more digits need an exponent, fewer do. -/
theorem exponential_of_le (canonical : x.Canonical) (few : 0 < n) (le : n ≤ m)
    (exponential : (render .automatic x m).exponent ≠ 0) :
    (render .automatic x n).exponent ≠ 0 := by
  have nonzero := positive.ne'
  have more : 0 < m := by omega
  have order := firstPlace_rounded_anti canonical nonzero le few
  have natural := place.trans (firstPlace_le_rounded nonzero more)
  rw [Ne, exponent_automatic_eq_zero_iff nonzero more unlimited, Layout.positional,
    decide_eq_true_iff] at exponential
  rw [Ne, exponent_automatic_eq_zero_iff nonzero few unlimited, Layout.positional,
    decide_eq_true_iff]
  omega

theorem answered_from_one (few : 0 < n) (le : n ≤ width) (fits : Fits x width n) :
    Answered x width n := by
  have nonzero := positive.ne'
  have taken : fitMagnitude x width = (fitPositional x width).or (fitScientific x width) :=
    if_pos ((one_le_iff canonical positive).2 place)
  -- the positional search passes over more digits only where no text with them fits at all
  have passedOver (m : Nat) (above : PassedOver x width width m) : n ≤ m := by
    by_contra more
    obtain ⟨positional, long⟩ := above n (by omega) le
    rcases fits with scientific | ⟨-, short⟩
    · have long' := scientific_tooLong positive unlimited place few le positional long
      omega
    · omega
  cases found : fitPositional x width with
  | some text =>
    obtain ⟨m, more, -, -, written, above⟩ := positionalFrom_found found
    exact ⟨m, text, by rw [taken, found]; rfl, denotes_of_texts nonzero more unlimited written,
      roundingError_anti nonzero (passedOver m above)⟩
  | none =>
    obtain ⟨m, -, ends, above⟩ := positionalFrom_none found
    have atMost := passedOver m above
    have exponential : (render .automatic x n).exponent ≠ 0 := by
      rcases ends with zero | exponential
      · omega
      · exact exponential_of_le positive unlimited place canonical few atMost exponential
    have short := fits.resolve_right fun both => exponential both.1
    obtain ⟨k, text, other, pos, written, nearest⟩ :=
      scientificFrom_of_fits canonical nonzero unlimited few le short
    exact ⟨k, text, by rw [taken, found]; exact other,
      denotes_of_texts nonzero pos unlimited written, roundingError_of_nearest nonzero nearest⟩

end FromOne

section BelowOne
variable (place : x.firstPlace < 0)
include place

omit unlimited in
theorem fitMagnitude_below_one (width : Nat) : fitMagnitude x width =
    moreFigures (fitPositional x width) (fitScientific x width) :=
  if_neg fun least => absurd ((one_le_iff canonical positive).1 least) (not_le.2 place)

omit canonical unlimited in
theorem firstPlace_rounded_nonpos (few : 0 < n) : (x.rounded n).firstPlace ≤ 0 := by
  rcases firstPlace_rounded positive.ne' few with ⟨same, -⟩ | ⟨next, -, -⟩ <;> omega

omit canonical place in
theorem significantFigures_of_scientific (few : 0 < n)
    (written : (render .scientific x n).Texts text) :
    significantFigures text = (x.rounded n).figures := by
  rcases written with rfl | rfl
  · exact (significantFigures_scientific positive.ne' few unlimited).1
  · exact (significantFigures_scientific positive.ne' few unlimited).2

omit canonical in
theorem significantFigures_of_positional (few : 0 < n)
    (positional : (render .automatic x n).exponent = 0)
    (written : (render .automatic x n).Texts text) :
    significantFigures text = (x.rounded n).figures := by
  have fraction := firstPlace_rounded_nonpos positive place few
  rcases written with rfl | rfl
  · exact (significantFigures_positional positive.ne' few unlimited positional fraction).1
  · exact (significantFigures_positional positive.ne' few unlimited positional fraction).2

/-- The text with more significant figures is taken, and it is the nearer one. -/
theorem answered_of_both {p s : List Char} (few : 0 < n) (few' : 0 < m)
    (positional : (render .automatic x n).exponent = 0)
    (first : fitPositional x width = some p) (written : (render .automatic x n).Texts p)
    (second : fitScientific x width = some s) (written' : (render .scientific x m).Texts s) :
    Answered x width n ∧ Answered x width m := by
  have nonzero := positive.ne'
  have taken := fitMagnitude_below_one canonical positive place width
  rw [first, second, moreFigures,
    significantFigures_of_positional positive unlimited place few positional written,
    significantFigures_of_scientific positive unlimited few' written'] at taken
  split at taken
  · rename_i more
    have answered : Answered x width m :=
      ⟨m, s, taken, denotes_of_texts nonzero few' unlimited written', le_refl _⟩
    exact ⟨answered.trans (roundingError_le_of_figures canonical nonzero few few' more.le), answered⟩
  · rename_i atMost
    have answered : Answered x width n :=
      ⟨n, p, taken, denotes_of_texts nonzero few unlimited written, le_refl _⟩
    exact ⟨answered,
      answered.trans (roundingError_le_of_figures canonical nonzero few' few (not_lt.1 atMost))⟩

theorem answered_of_positional (few : 0 < n) (positional : (render .automatic x n).exponent = 0)
    (found : fitPositional x width = some text) (written : (render .automatic x n).Texts text) :
    Answered x width n := by
  cases other : fitScientific x width with
  | some s =>
    obtain ⟨m, few', -, written'⟩ := scientificFrom_found other
    exact (answered_of_both canonical positive unlimited place few few' positional found written
      other written').1
  | none =>
    have taken := fitMagnitude_below_one canonical positive place width
    rw [found, other] at taken
    exact ⟨n, text, taken, denotes_of_texts positive.ne' few unlimited written, le_refl _⟩

theorem answered_of_scientific (few : 0 < n) (found : fitScientific x width = some text)
    (written : (render .scientific x n).Texts text) : Answered x width n := by
  cases other : fitPositional x width with
  | some p =>
    obtain ⟨m, few', -, positional, written', -⟩ := positionalFrom_found other
    exact (answered_of_both canonical positive unlimited place few' few positional other written'
      found written).2
  | none =>
    have taken := fitMagnitude_below_one canonical positive place width
    rw [found, other] at taken
    exact ⟨n, text, taken, denotes_of_texts positive.ne' few unlimited written, le_refl _⟩

theorem answered_of_scientific_fits (few : 0 < n) (le : n ≤ width)
    (fits : (render .scientific x n).shortened.text.length ≤ width) : Answered x width n := by
  obtain ⟨m, text, found, pos, written, nearest⟩ :=
    scientificFrom_of_fits canonical positive.ne' unlimited few le fits
  exact (answered_of_scientific canonical positive unlimited place pos found written).trans
    (roundingError_of_nearest positive.ne' nearest)

omit canonical in
/-- More digits can only need an exponent where fewer do not if these are a carry, a single figure
at the fourth place or further behind, which an exponent makes shorter. -/
theorem scientific_fits_of_carry (few : 0 < n) (le : n ≤ m)
    (positional : (render .automatic x n).exponent = 0)
    (exponential : (render .automatic x m).exponent ≠ 0)
    (fits : (render .automatic x n).shortened.text.length ≤ width) :
    (render .scientific x n).shortened.text.length ≤ width := by
  have nonzero := positive.ne'
  have more : 0 < m := by omega
  have layout := (exponent_automatic_eq_zero_iff nonzero few unlimited).1 positional
  have inside := of_decide_eq_true layout
  have nonpos := firstPlace_rounded_nonpos positive place more
  rw [Ne, exponent_automatic_eq_zero_iff nonzero more unlimited, Layout.positional,
    decide_eq_true_iff] at exponential
  have behind : (x.rounded m).firstPlace ≤ -5 := by omega
  have reached := firstPlace_le_rounded nonzero more
  have carry : (x.rounded n).firstPlace = x.firstPlace + 1 ∧ (x.rounded n).figures = 1 := by
    rcases firstPlace_rounded nonzero few with ⟨same, -⟩ | ⟨next, -, one⟩
    · rcases firstPlace_rounded nonzero more with ⟨same', -⟩ | ⟨next', -, -⟩ <;> omega
    · exact ⟨next, one⟩
  have marked : (x.rounded n).firstPlace ≠ 0 := by omega
  have mark := digitCount_lt (n := (x.rounded n).firstPlace.natAbs) (by omega)
  rw [length_positional nonzero few unlimited positional, carry.2, if_neg (by omega)] at fits
  rw [length_scientific nonzero few unlimited, carry.2, if_pos (Nat.le_refl 1),
    length_exponentMark marked]
  omega

theorem answered_below_one (few : 0 < n) (le : n ≤ width) (fits : Fits x width n) :
    Answered x width n := by
  have nonzero := positive.ne'
  rcases fits with scientific | ⟨positional, short⟩
  · exact answered_of_scientific_fits canonical positive unlimited place few le scientific
  · -- here an exponent may still fit with more digits than the positional text that is found
    have passedOver (m : Nat) (above : PassedOver x width width m) : n ≤ m := by
      by_contra more
      have long := (above n (by omega) le).2
      omega
    cases found : fitPositional x width with
    | some text =>
      obtain ⟨m, more, -, fixed, written, above⟩ := positionalFrom_found found
      exact (answered_of_positional canonical positive unlimited place more fixed found
        written).trans (roundingError_anti nonzero (passedOver m above))
    | none =>
      obtain ⟨m, -, ends, above⟩ := positionalFrom_none found
      have atMost := passedOver m above
      have exponential := ends.resolve_left (by omega)
      exact answered_of_scientific_fits canonical positive unlimited place few le
        (scientific_fits_of_carry positive unlimited place few atMost positional exponential short)

end BelowOne

theorem answered_of_fits (few : 0 < n) (le : n ≤ width) (fits : Fits x width n) :
    Answered x width n := by
  rcases lt_or_ge x.firstPlace 0 with below | from_one
  · exact answered_below_one canonical positive unlimited below few le fits
  · exact answered_from_one canonical positive unlimited from_one few le fits

end Positive

theorem fitPositional_zero (zero : x.mantissa = 0) (pos : 0 < width) :
    ∃ text, fitPositional x width = some text := by
  obtain ⟨count, rfl⟩ : ∃ count, width = count + 1 := ⟨width - 1, by omega⟩
  rw [fitPositional, positionalFrom, render_zero zero]
  cases found : (⟨['0', '.', '0'], 0⟩ : Rendering).fitted (count + 1) with
  | some text => exact ⟨text, rfl⟩
  | none =>
    have long := fitted_eq_none_iff.1 found
    have one : (⟨['0', '.', '0'], 0⟩ : Rendering).shortened.text.length = 1 := by decide
    omega

theorem fitMagnitude_zero (zero : x.mantissa = 0) (pos : 0 < width) :
    ∃ text, fitMagnitude x width = some text := by
  obtain ⟨text, found⟩ := fitPositional_zero zero pos
  rw [fitMagnitude, found]
  split
  · exact ⟨text, rfl⟩
  · cases fitScientific x width with
    | none => exact ⟨text, rfl⟩
    | some other =>
      rw [moreFigures]
      split
      · exact ⟨other, rfl⟩
      · exact ⟨text, rfl⟩

/-- If any candidate fits, a text is taken that is at least as near. -/
theorem nearest_of_candidate (canonical : x.Canonical) (natural : 0 ≤ x.mantissa)
    (unlimited : x.leadingOrder = x.firstPlace) {other : List Char}
    (candidate : Candidate x width other) (short : other.length ≤ width) :
    ∃ text, fitMagnitude x width = some text ∧
      |numberOf text - x.toRat| ≤ |numberOf other - x.toRat| := by
  rcases Int.lt_or_eq_of_le natural with positive | zero
  · have nonzero := positive.ne'
    have magnitude : |x.toRat| = x.toRat :=
      abs_of_pos (mul_pos (Int.cast_pos.2 positive) (ten_zpow_pos _))
    obtain ⟨n, few, le, written⟩ := candidate
    have fits : Fits x width n := by
      rcases written with scientific | ⟨positional, texts⟩
      · exact .inl ((length_shortened_le_of_texts scientific).trans short)
      · exact .inr ⟨positional, (length_shortened_le_of_texts texts).trans short⟩
    have value : numberOf other = (x.rounded n).toRat := by
      rcases written with scientific | ⟨-, texts⟩
      · exact (denotes_of_texts nonzero few unlimited scientific).numberOf_eq
      · exact (denotes_of_texts nonzero few unlimited texts).numberOf_eq
    obtain ⟨m, text, found, denotes, near⟩ :=
      answered_of_fits canonical positive unlimited few le fits
    rw [roundingError, roundingError, magnitude, ← denotes.numberOf_eq, ← value] at near
    exact ⟨text, found, near⟩
  · have vanishes {text : List Char} (candidate : Candidate x width text) : numberOf text = 0 := by
      obtain ⟨n, -, -, denotes⟩ := candidate.denotes unlimited
      rw [denotes.numberOf_eq, toRat_eq_zero_iff.2 zero.symm, abs_zero, roundTo_zero]
    obtain ⟨n, few, le, -⟩ := candidate.denotes unlimited
    obtain ⟨text, found⟩ := fitMagnitude_zero zero.symm (Nat.lt_of_lt_of_le few le)
    refine ⟨text, found, ?_⟩
    rw [vanishes (candidate_of_fitMagnitude unlimited found), vanishes candidate]

theorem Candidate.widen {wider : Nat} (candidate : Candidate x width text) (le : width ≤ wider) :
    Candidate x wider text := by
  obtain ⟨n, few, fits, written⟩ := candidate
  exact ⟨n, few, fits.trans le, written⟩

theorem magnitude_eq_ok_iff : magnitude x width = .ok text ↔ fitMagnitude x width = some text := by
  rw [magnitude]
  cases fitMagnitude x width with
  | none => exact ⟨nofun, nofun⟩
  | some found => exact ⟨fun same => congrArg some (Except.ok.inj same),
      fun same => congrArg Except.ok (Option.some.inj same)⟩

theorem magnitude_eq_error_iff :
    magnitude x width = .error (.doesNotFit width) ↔ fitMagnitude x width = none := by
  rw [magnitude]
  cases fitMagnitude x width with
  | none => exact ⟨fun _ => rfl, fun _ => rfl⟩
  | some found => exact ⟨nofun, nofun⟩

/-- A magnitude is not shown only where no candidate fits. Otherwise a candidate is shown that fits
and denotes a number at least as near as every other one that fits, so that a greater width shows a
number at least as near. -/
theorem magnitude_nearest (held : x.Held) (natural : 0 ≤ x.toRat)
    (below : x.firstPlace < greatestExponent) (width : Nat) :
    (magnitude x width = .error (.doesNotFit width) ↔
      ∀ text, Candidate x width text → width < text.length) ∧
    (∀ text, magnitude x width = .ok text →
      Candidate x width text ∧ text.length ≤ width ∧
      (∀ other, Candidate x width other → other.length ≤ width →
        |numberOf text - x.toRat| ≤ |numberOf other - x.toRat|) ∧
      ∀ wider, width ≤ wider → ∃ other, magnitude x wider = .ok other ∧
        |numberOf other - x.toRat| ≤ |numberOf text - x.toRat|) := by
  have unlimited := leadingOrder_eq held below.le
  have mantissa : 0 ≤ x.mantissa := not_lt.1 fun negative =>
    absurd (toRat_neg_iff.2 negative) (not_lt.2 natural)
  simp only [magnitude_eq_ok_iff, magnitude_eq_error_iff]
  refine ⟨⟨fun none text candidate => ?_, fun tooLong => ?_⟩, fun text found => ?_⟩
  · by_contra short
    obtain ⟨text, found, -⟩ :=
      nearest_of_candidate held.canonical mantissa unlimited candidate (not_lt.1 short)
    rw [none] at found
    cases found
  · cases found : fitMagnitude x width with
    | none => rfl
    | some text =>
      have long := tooLong text (candidate_of_fitMagnitude unlimited found)
      exact absurd (length_of_fitMagnitude found) (not_le.2 long)
  · have candidate := candidate_of_fitMagnitude unlimited found
    have length := length_of_fitMagnitude found
    refine ⟨candidate, length, fun other fitting short => ?_, fun wider le => ?_⟩
    · obtain ⟨text', found', nearest⟩ :=
        nearest_of_candidate held.canonical mantissa unlimited fitting short
      rw [found] at found'
      obtain rfl := Option.some.inj found'
      exact nearest
    · exact nearest_of_candidate held.canonical mantissa unlimited (candidate.widen le)
        (length.trans le)

/-- An exponent leaves room for four figures, one more than the place of the first digit does. -/
theorem magnitude_small_fraction :
    magnitude ⟨123456, -9⟩ 8 = .ok "1.235e-4".toList ∧
      Candidate ⟨123456, -9⟩ 8 "1.235e-4".toList ∧
      ∀ other, Candidate ⟨123456, -9⟩ 8 other → other.length ≤ 8 →
        |numberOf "1.235e-4".toList - toRat ⟨123456, -9⟩| ≤
          |numberOf other - toRat ⟨123456, -9⟩| := by
  have held : Held ⟨123456, -9⟩ := ⟨by decide +kernel, by decide, by decide⟩
  have natural : (0 : ℚ) ≤ toRat ⟨123456, -9⟩ := mul_nonneg (by norm_num) (ten_zpow_pos _).le
  have below : firstPlace ⟨123456, -9⟩ < greatestExponent := by decide +kernel
  have shown : magnitude ⟨123456, -9⟩ 8 = .ok "1.235e-4".toList := by with_unfolding_all rfl
  have nearest := (magnitude_nearest held natural below 8).2 _ shown
  exact ⟨shown, nearest.1, nearest.2.2.1⟩

/-- Beyond the greatest exponent a text is not the rounded number, and one with fewer figures may be
nearer: 127 times the power of ten is shown as 1.27 times it, and not as 1.3 times it. -/
theorem magnitude_beyond_greatestExponent : Held ⟨127, greatestExponent⟩ ∧
    0 ≤ toRat ⟨127, greatestExponent⟩ ∧
    ∃ text other, magnitude ⟨127, greatestExponent⟩ 25 = .ok text ∧
      Candidate ⟨127, greatestExponent⟩ 25 other ∧ other.length ≤ 25 ∧
      |numberOf other - toRat ⟨127, greatestExponent⟩| <
        |numberOf text - toRat ⟨127, greatestExponent⟩| := by
  have unit := ten_zpow_pos (greatestExponent - 2)
  have value : toRat ⟨127, greatestExponent⟩ = 12700 * 10 ^ (greatestExponent - 2) := by
    rw [toRat, ten_zpow_eq_mul 2 (by omega : greatestExponent = (2 : Nat) + (greatestExponent - 2))]
    push_cast
    ring
  have shown : numberOf "1.27e+9223372036854775807".toList = 127 * 10 ^ (greatestExponent - 2) :=
    numberOf_greatestExponent ['1'] ['2', '7'] (by decide) (by decide)
  have nearer : numberOf "1.3e+9223372036854775807".toList = 130 * 10 ^ (greatestExponent - 2) := by
    have coarse : numberOf "1.3e+9223372036854775807".toList = 13 * 10 ^ (greatestExponent - 1) :=
      numberOf_greatestExponent ['1'] ['3'] (by decide) (by decide)
    rw [coarse, ten_zpow_eq_mul 1
      (by omega : greatestExponent - 1 = (1 : Nat) + (greatestExponent - 2))]
    ring
  refine ⟨⟨by decide +kernel, by decide, by decide⟩, ?_, "1.27e+9223372036854775807".toList,
    "1.3e+9223372036854775807".toList, by with_unfolding_all rfl,
    ⟨2, by decide, by decide, .inl (.inl (by with_unfolding_all rfl))⟩, by decide, ?_⟩
  · rw [value]
    positivity
  · rw [value, shown, nearer, abs_of_neg (by linarith), abs_of_neg (by linarith)]
    linarith

end Display

end ScientificCalculator
