import ScientificCalculator.Proofs.Function.Angle

/-!
Angles in degrees repeat after a turn, exactly. From a turn on an angle is reduced to its residue,
and an angle from zero to a turn is its own residue; so angles that are whole turns apart are
reduced to the same number, and every circular function gives the same result for them. Only a
negative angle of less than a turn is taken as it is.
-/

namespace ScientificCalculator.Decimal

section Residues
variable {x x' y y' : Decimal}

/-- The residue is what a rounding down to whole turns leaves. -/
theorem Residue.toRat_eq (residue : Residue y x) :
    y.toRat = x.toRat - 360 * ⌊x.toRat / 360⌋ := by
  obtain ⟨turns, value⟩ := residue.turns
  have natural := residue.natural
  have less := residue.less
  have whole : ⌊x.toRat / 360⌋ = turns := by
    rw [Int.floor_eq_iff, le_div_iff₀ (by norm_num), div_lt_iff₀ (by norm_num)]
    constructor <;> linarith
  rw [whole, value]
  ring

/-- Angles that are whole turns apart have one residue, and a canonical form has one value. -/
theorem Residue.unique (first : Residue y x) (second : Residue y' x')
    (apart : ∃ turns : Int, x.toRat - x'.toRat = 360 * turns) : y = y' := by
  obtain ⟨turns, apart⟩ := apart
  apply eq_of_toRat_eq first.held.canonical second.held.canonical
  have shifted : x.toRat / 360 = x'.toRat / 360 + turns := by linarith
  rw [first.toRat_eq, second.toRat_eq, shifted, Int.floor_add_intCast, Int.cast_add]
  linarith

/-- Angles that the reduction takes to their residue. -/
theorem residue_of_periodic (held : x.Held) (periodic : 0 ≤ x.toRat ∨ x.toRat ≤ -360) :
    Residue x.withinTurn x := by
  by_cases inside : x.abs < ofInt 360
  · have small := (abs_lt_fullTurn_iff held).1 inside
    have natural : 0 ≤ x.toRat := by
      rcases periodic with natural | far
      · exact natural
      · linarith [neg_abs_le x.toRat]
    rw [withinTurn_of_lt inside]
    exact ⟨held, natural, (le_abs_self _).trans_lt small, 0, by simp⟩
  · exact residue_withinTurn held inside

end Residues

section Functions
variable {x y : Decimal}

/-- The circular functions in degrees depend on the residue alone. -/
theorem reducedAngle_of_withinTurn_eq (inRange : x.order ≤ greatestAngleOrder)
    (inRange' : y.order ≤ greatestAngleOrder) (same : x.withinTurn = y.withinTurn) :
    reducedAngle .degrees x = reducedAngle .degrees y := by
  rw [reducedAngle_degrees inRange, reducedAngle_degrees inRange', reducedDegrees, reducedDegrees,
    same]

/-- An angle of a turn or more is reduced to its exact residue from zero to a turn. So sine, cosine
and tangent are the same for two angles that are whole turns apart, neither of which is negative and
less than a turn. -/
theorem degrees_periodic (held : x.Held) (held' : y.Held) :
    (360 ≤ |x.toRat| → x.withinTurn.Canonical ∧
      x.withinTurn.toRat = x.toRat - 360 * ⌊x.toRat / 360⌋ ∧
      0 ≤ x.withinTurn.toRat ∧ x.withinTurn.toRat < 360) ∧
    (x.order ≤ 1000 → y.order ≤ 1000 → 0 ≤ x.toRat ∨ x.toRat ≤ -360 →
      0 ≤ y.toRat ∨ y.toRat ≤ -360 → (∃ turns : Int, x.toRat - y.toRat = 360 * turns) →
      sin .degrees x = sin .degrees y ∧ cos .degrees x = cos .degrees y ∧
        tan .degrees x = tan .degrees y) := by
  constructor
  · intro large
    have residue := residue_withinTurn held
      (fun inside => large.not_gt ((abs_lt_fullTurn_iff held).1 inside))
    exact ⟨residue.held.canonical, residue.toRat_eq, residue.natural, residue.less⟩
  · intro inRange inRange' periodic periodic' apart
    have residue := residue_of_periodic held periodic
    have residue' := residue_of_periodic held' periodic'
    have same := reducedAngle_of_withinTurn_eq inRange inRange' (residue.unique residue' apart)
    rw [sin, cos, tan, sin, cos, tan, same]
    exact ⟨rfl, rfl, rfl⟩

/-- The greatest power of ten that is an angle, and a negative multiple of it. -/
theorem degrees_periodic_greatest_power :
    (⟨1, 1000⟩ : Decimal).withinTurn.toRat =
        (⟨1, 1000⟩ : Decimal).toRat - 360 * ⌊(⟨1, 1000⟩ : Decimal).toRat / 360⌋ ∧
      sin .degrees ⟨1, 1000⟩ = sin .degrees ⟨-8, 1000⟩ ∧
      cos .degrees ⟨1, 1000⟩ = cos .degrees ⟨-8, 1000⟩ ∧
      tan .degrees ⟨1, 1000⟩ = tan .degrees ⟨-8, 1000⟩ := by
  have held : Held ⟨1, 1000⟩ := held_of_written (by decide)
  have held' : Held ⟨-8, 1000⟩ := held_of_written (by decide)
  have inRange : order ⟨1, 1000⟩ ≤ 1000 := (order_of_written 0 (by decide)).trans_le (by decide)
  have inRange' : order ⟨-8, 1000⟩ ≤ 1000 := (order_of_written 0 (by decide)).trans_le (by decide)
  obtain ⟨p, least, value⟩ : ∃ p : Int, 1 ≤ p ∧ ∀ m, toRat ⟨m, 1000⟩ = 1000 * m * p := by
    refine ⟨10 ^ 997, one_le_pow₀ (by norm_num), fun m => ?_⟩
    have power : (10 : ℚ) ^ (1000 : Int) = 10 ^ 3 * 10 ^ 997 :=
      (zpow_natCast (10 : ℚ) (3 + 997)).trans (pow_add 10 3 997)
    rw [toRat, power, Int.cast_pow, Int.cast_ofNat]
    generalize (10 : ℚ) ^ 997 = p
    ring
  have least' : (1 : ℚ) ≤ p := by exact_mod_cast least
  have first := value 1
  have second := value (-8)
  push_cast at first second
  have apart : toRat ⟨1, 1000⟩ - toRat ⟨-8, 1000⟩ = 360 * ((25 * p : Int) : ℚ) := by
    push_cast
    linarith
  obtain ⟨residue, periodic⟩ := degrees_periodic held held'
  refine ⟨(residue ?_).2.1, periodic inRange inRange' (.inl ?_) (.inr ?_) ⟨_, apart⟩⟩
  · exact (by linarith : 360 ≤ toRat ⟨1, 1000⟩).trans (le_abs_self _)
  · linarith
  · linarith

end Functions

end ScientificCalculator.Decimal
