import ScientificCalculator.Proofs.FixedPoint.Checked
import ScientificCalculator.Proofs.Function.ArcRange
import ScientificCalculator.Proofs.Function.Logarithm

/-!
What the functions owe to the kernels. A checked function asks before each call of a kernel whether
the argument is in the range that the kernel is meant for, and before each division and each root
whether it is defined; then it calls the checked kernel. For every decimal it returns what the plain
function returns, so none of the checks ever fails.
-/

namespace ScientificCalculator

/-- The greatest integer that does not exceed the quotient, from one truncated toward zero. -/
def floorQuotient? (n d : Int) : Option Int := do
  guard (d ≠ 0)
  let truncated := n.tdiv d
  return if n - truncated * d < 0 then truncated - 1 else truncated

/-- The remainder of a truncated quotient is above minus the divisor, so one step down is enough. -/
theorem floorQuotient?_eq (n : Int) {d : Int} (pos : 0 < d) :
    floorQuotient? n d = some (n / d) := by
  have parts := Int.tmod_add_mul_tdiv n d
  have low := Int.lt_tmod_of_pos n pos
  have high := Int.tmod_lt_of_pos n pos
  rw [floorQuotient?, guard_bind pos.ne']
  generalize n.tdiv d = q at parts ⊢
  generalize n.tmod d = r at parts low high
  obtain rfl : n = r + d * q := parts.symm
  have rest : r + d * q - q * d = r := by ring
  have floor : ∀ y, (r + d * q) / d = y ↔ y * d ≤ r + d * q ∧ r + d * q < y * d + d := fun y =>
    Int.ediv_eq_iff_of_pos pos
  simp only [rest]
  split
  · rename_i negative
    rw [(floor (q - 1)).2 (by constructor <;> linarith)]
    rfl
  · rename_i natural
    rw [(floor q).2 (by constructor <;> linarith)]
    rfl

namespace Decimal
open FixedPoint

variable {x : Decimal} {unit : AngleUnit}

section Logarithms

/-- The logarithm of ten is computed of ten to eighty places. -/
def logarithmTen? : Option Int := do
  let ten ← logarithm? (tenTo 80 * 10) 80
  return ten.tdiv (tenTo logarithmGuard)

theorem logarithmTen?_eq : logarithmTen? = some (logarithmTen workingDigits) := by
  rw [logarithmTen?, logarithm?_eq (Nat.le_mul_of_pos_right _ (by decide)) le_rfl]
  rfl

/-- Asks that the digits are those of a number from one to below ten. -/
def scaledLogarithm? (x : Decimal) : Option Int := do
  let digits := (x.shift (-x.order)).toScaled workingDigits
  guard ((tenTo workingDigits : Int) ≤ digits ∧ digits < tenTo (workingDigits + 1))
  let own ← logarithm? digits.toNat workingDigits
  let ten ← logarithmTen?
  return own + x.order * ten

/-- The digits of a positive number are shifted to those of one from one to below ten. -/
theorem toScaled_shift_bounds (held : x.Held) (pos : 0 < x.mantissa) (high : x.order ≤ maxOrder) :
    (tenTo workingDigits : Int) ≤ (x.shift (-x.order)).toScaled workingDigits ∧
      (x.shift (-x.order)).toScaled workingDigits < tenTo (workingDigits + 1) := by
  obtain ⟨m, mantissa⟩ := Int.eq_ofNat_of_zero_le pos.le
  have short : digitCount m ≤ 60 := by
    have digits := digitCount_of_canonical held.canonical
    rwa [mantissa] at digits
  have low := tenTo_le_of_pos (by omega : 0 < m)
  have high' := lt_tenTo_digitCount m
  have first := digitCount_pos m
  rw [toScaled_shift held pos.ne' high, mantissa, Int.natAbs_natCast]
  constructor
  · have least := Nat.mul_le_mul_right (tenTo (76 - digitCount m)) low
    rw [← tenTo_add, (by simp only [workingDigits, precision]; omega :
      digitCount m - 1 + (76 - digitCount m) = workingDigits)] at least
    exact_mod_cast least
  · have most := Nat.mul_lt_mul_of_pos_right high' (tenTo_pos (76 - digitCount m))
    rw [← tenTo_add, (by simp only [workingDigits, precision]; omega :
      digitCount m + (76 - digitCount m) = workingDigits + 1)] at most
    exact_mod_cast most

theorem scaledLogarithm?_eq (held : x.Held) (pos : 0 < x.mantissa) (high : x.order ≤ maxOrder) :
    x.scaledLogarithm? = some x.scaledLogarithm := by
  obtain ⟨least, most⟩ := significand_bounds held pos high
  have kernel := logarithm?_eq least most
  rw [significand] at kernel
  rw [scaledLogarithm?, guard_bind (toScaled_shift_bounds held pos high), kernel, logarithmTen?_eq]
  rfl

def ln? (x : Decimal) : Option (Except Error Decimal) :=
  if x.IsPositive then x.scaledLogarithm?.map fun l => .ok (ofScaled l workingDigits)
  else some (.error (.domain .naturalLogarithm))

def log10? (x : Decimal) : Option (Except Error Decimal) :=
  if x.IsPositive then do
    let own ← x.scaledLogarithm?
    let ten ← logarithmTen?
    guard (ten ≠ 0)
    return .ok (ofScaled ((own * tenTo workingDigits).tdiv ten) workingDigits)
  else some (.error (.domain .decimalLogarithm))

theorem logarithms?_eq (held : x.Held) (high : x.order ≤ maxOrder) :
    x.ln? = some x.ln ∧ x.log10? = some x.log10 := by
  unfold ln? ln log10? log10
  split
  · rename_i pos
    rw [scaledLogarithm?_eq held pos high, logarithmTen?_eq]
    exact ⟨rfl, guard_bind workingTen_bounds.1.ne' _⟩
  · exact ⟨rfl, rfl⟩

end Logarithms

section Exponential

def exp? (x : Decimal) : Option (Except Error Decimal) :=
  if x.IsZero then some (.ok one)
  else if exponentialOrderLimit ≤ x.order then some (if x.IsNegative then .ok zero else overflow)
  else do
    let scaled := x.toScaled workingDigits
    let ten ← logarithmTen?
    let power ← floorQuotient? scaled ten
    if (maxOrder : Int) < power then return overflow
    else if power < -maxOrder then return .ok zero
    else
      let rest := scaled - power * ten
      guard (0 ≤ rest ∧ rest < ten)
      let value ← exponential? rest workingDigits
      return .ok (ofParts value (power - workingDigits))

/-- What is left of the argument is a remainder. -/
theorem exp?_eq (x : Decimal) : x.exp? = some x.exp := by
  have positive := workingTen_bounds.1
  have rest : x.toScaled workingDigits - x.toScaled workingDigits / logarithmTen workingDigits *
      logarithmTen workingDigits = x.toScaled workingDigits % logarithmTen workingDigits := by
    rw [Int.emod_def, Int.mul_comm]
  have remainder := And.intro
    (Int.emod_nonneg (x.toScaled workingDigits) positive.ne')
    (Int.emod_lt_of_pos (x.toScaled workingDigits) positive)
  unfold exp? exp
  split
  · rfl
  · split
    · split
      · rfl
      · rfl
    · rw [bind_of_eq_some logarithmTen?_eq, bind_of_eq_some (floorQuotient?_eq _ positive)]
      simp only
      split
      · rfl
      · split
        · rfl
        · rw [rest, guard_bind remainder, exponential?_eq]
          rfl

/-- Ten to a power, with the checks of the exponential. -/
def tenPower? (x : Decimal) : Option (Except Error Decimal) :=
  match x.toInt64? with
  | some n =>
    some (if n.natAbs ≤ maxOrder then .ok (tenPow n) else if n < 0 then .ok zero else overflow)
  | none => do
    let ten ← logarithmTen?
    exp? (x * ofScaled ten workingDigits)

theorem tenPower?_eq (x : Decimal) : x.tenPower? = some x.tenPower := by
  unfold tenPower? tenPower
  cases x.toInt64? with
  | some n => rfl
  | none => exact (bind_of_eq_some logarithmTen?_eq _).trans (exp?_eq _)

end Exponential

section Angles

/-- The digits to which angles in radians are reduced are few enough for an accurate half turn. -/
theorem reductionDigits_le (inRange : x.order ≤ greatestAngleOrder) :
    workingDigits + (x.order + 1).toNat ≤ 10000 := by
  rw [greatestAngleOrder] at inRange
  rw [workingDigits, precision]
  omega

/-- An angle in radians is reduced to at most half a turn, but for a few units. -/
theorem abs_reducedRadians_le (inRange : x.order ≤ greatestAngleOrder) :
    |x.reducedRadians| ≤ FixedPoint.pi workingDigits + 4 := by
  have few := reductionDigits_le inRange
  have positive := pi_pos_of_few few (by rw [workingDigits, precision]; omega)
  have accurate := (abs_le.1 (abs_halfTurn_sub_le few)).2
  have accurate' := (abs_le.1 (abs_halfTurn_sub_le (by decide : workingDigits ≤ 10000))).1
  rw [reducedRadians]
  generalize x.toScaled (workingDigits + (x.order + 1).toNat) = n
  generalize FixedPoint.pi (workingDigits + (x.order + 1).toNat) = half at positive accurate ⊢
  generalize (x.order + 1).toNat = extra at accurate ⊢
  have power : (1 : ℝ) ≤ 10 ^ extra := one_le_pow₀ (by norm_num)
  have left := (abs_sub_roundDiv_mul_le n (by omega : 0 < half * 2)).1
  have shorter := abs_tdiv_le (n - roundDiv n (half * 2).toNat * (half * 2)) (tenTo extra)
  generalize n - roundDiv n (half * 2).toNat * (half * 2) = rest at left shorter ⊢
  rw [realCast_tenTo, le_div_iff₀ (by positivity)] at shorter
  push_cast at left
  have most : |((rest.tdiv (tenTo extra) : Int) : ℝ)| ≤ FixedPoint.pi workingDigits + 4 := by
    rw [pow_add] at accurate
    refine le_of_mul_le_mul_right (shorter.trans ?_) (by positivity : (0 : ℝ) < 10 ^ extra)
    have scaled := mul_le_mul_of_nonneg_right accurate' (by positivity : (0 : ℝ) ≤ 10 ^ extra)
    linarith
  exact_mod_cast most

/-- An angle in degrees is reduced to at most half a turn. -/
theorem abs_reducedDegrees_le (held : x.Held) :
    |x.reducedDegrees| ≤ FixedPoint.pi workingDigits := by
  obtain ⟨held', small, -⟩ := withoutTurns held
  have turn := natAbs_toScaled_le_mul held' le_rfl small
  have positive := halfTurn_pos
  apply abs_foldHalfTurn_le le_rfl
  generalize x.withinTurn.toScaled workingDigits = n at turn ⊢
  obtain ⟨half, natural⟩ := Int.eq_ofNat_of_zero_le positive.le
  have twice : n.natAbs * half / (tenTo workingDigits * 180) ≤ half * 2 := by
    apply Nat.div_le_of_le_mul
    calc n.natAbs * half ≤ 360 * tenTo workingDigits * half := Nat.mul_le_mul_right _ turn
      _ = tenTo workingDigits * 180 * (half * 2) := by ring
  have size : ((n * half).tdiv (tenTo workingDigits * 180)).natAbs =
      n.natAbs * half / (tenTo workingDigits * 180) := by
    rw [Int.natAbs_tdiv, Int.natAbs_mul, Int.natAbs_natCast, Int.natAbs_mul, Int.natAbs_natCast]
    rfl
  rw [natural, Int.abs_eq_natAbs]
  omega

def reducedRadians? (x : Decimal) : Option Int := do
  let extra := (x.order + 1).toNat
  let digits := workingDigits + extra
  let halfTurn ← pi? digits
  let turn := halfTurn * 2
  guard (0 < turn)
  let scaled := x.toScaled digits
  return (scaled - roundDiv scaled turn.toNat * turn).tdiv (tenTo extra)

def reducedDegrees? (x : Decimal) : Option Int := do
  let halfTurn ← pi? workingDigits
  return foldHalfTurn
    ((x.withinTurn.toScaled workingDigits * halfTurn).tdiv (tenTo workingDigits * 180)) halfTurn

def reducedAngle? (unit : AngleUnit) (x : Decimal) : Option (Except Error Int) :=
  if greatestAngleOrder < x.order then some (.error (.domain .angleTooLarge))
  else
    match unit with
    | .radians => x.reducedRadians?.map .ok
    | .degrees => x.reducedDegrees?.map .ok

theorem reducedRadians?_eq (inRange : x.order ≤ greatestAngleOrder) :
    x.reducedRadians? = some x.reducedRadians := by
  have positive := pi_pos_of_few (reductionDigits_le inRange)
    (by rw [workingDigits, precision]; omega)
  have turn : 0 < FixedPoint.pi (workingDigits + (x.order + 1).toNat) * 2 := by omega
  rw [reducedRadians?, bind_of_eq_some (pi?_eq _), guard_bind turn]
  rfl

theorem reducedDegrees?_eq (x : Decimal) : x.reducedDegrees? = some x.reducedDegrees := by
  rw [reducedDegrees?, bind_of_eq_some (pi?_eq _)]
  rfl

theorem reducedAngle?_eq (unit : AngleUnit) (x : Decimal) :
    reducedAngle? unit x = some (reducedAngle unit x) := by
  unfold reducedAngle? reducedAngle
  split
  · rfl
  · rename_i inRange
    cases unit with
    | radians => rw [reducedRadians?_eq (not_lt.1 inRange), Option.map_some]
    | degrees => rw [reducedDegrees?_eq, Option.map_some]

theorem abs_reducedAngle_le (held : x.Held) {angle : Int}
    (found : reducedAngle unit x = .ok angle) : |angle| ≤ FixedPoint.pi workingDigits + 4 := by
  unfold reducedAngle at found
  split at found
  · cases found
  · rename_i inRange
    cases unit with
    | radians =>
      cases found
      exact abs_reducedRadians_le (not_lt.1 inRange)
    | degrees =>
      cases found
      exact (abs_reducedDegrees_le held).trans (by omega)

end Angles

section Circular

/-- A function of the sine and the cosine of an angle. -/
def circular (unit : AngleUnit) (x : Decimal) (result : Int → Int → Except Error Decimal) :
    Except Error Decimal := do
  let angle ← reducedAngle unit x
  result (FixedPoint.sine angle workingDigits) (FixedPoint.cosine angle workingDigits)

/-- Asks that the reduced angle is at most half a turn and four units. -/
def circular? (unit : AngleUnit) (x : Decimal)
    (result : Int → Int → Option (Except Error Decimal)) : Option (Except Error Decimal) := do
  match ← reducedAngle? unit x with
  | .error e => return .error e
  | .ok angle =>
    let halfTurn ← pi? workingDigits
    guard (|angle| ≤ halfTurn + 4)
    let (sine, cosine) ← sineCosine? angle workingDigits
    result sine cosine

theorem circular?_eq (held : x.Held) (unit : AngleUnit) {result : Int → Int → Except Error Decimal}
    {result? : Int → Int → Option (Except Error Decimal)}
    (same : ∀ sine cosine, result? sine cosine = some (result sine cosine)) :
    circular? unit x result? = some (circular unit x result) := by
  rw [circular?, bind_of_eq_some (reducedAngle?_eq unit x), circular]
  cases found : reducedAngle unit x with
  | error e => rfl
  | ok angle =>
    simp only
    rw [bind_of_eq_some (pi?_eq _), guard_bind (abs_reducedAngle_le held found),
      bind_of_eq_some (sineCosine?_eq _ _)]
    exact same _ _

def sin? (unit : AngleUnit) (x : Decimal) : Option (Except Error Decimal) :=
  circular? unit x fun sine _ => some (.ok (ofWorking sine))

def cos? (unit : AngleUnit) (x : Decimal) : Option (Except Error Decimal) :=
  circular? unit x fun _ cosine => some (.ok (ofWorking cosine))

/-- The quotient of sine and cosine, which is undefined if the cosine rounds to zero. -/
def tangent (sine cosine : Int) : Except Error Decimal :=
  if (ofWorking cosine).IsZero then .error (.domain .undefinedTangent)
  else .ok (ofWorking ((sine * tenTo workingDigits).tdiv cosine))

/-- Asks that the cosine is not zero before it divides by it. -/
def tangent? (sine cosine : Int) : Option (Except Error Decimal) :=
  if (ofWorking cosine).IsZero then some (.error (.domain .undefinedTangent))
  else do
    guard (cosine ≠ 0)
    return .ok (ofWorking ((sine * tenTo workingDigits).tdiv cosine))

/-- A cosine of zero is found out before. -/
theorem tangent?_eq (sine cosine : Int) : tangent? sine cosine = some (tangent sine cosine) := by
  unfold tangent? tangent
  split
  · rfl
  · rename_i defined
    have divides : cosine ≠ 0 := by
      rintro rfl
      rw [ofWorking_eq_zero (by norm_num)] at defined
      exact defined rfl
    exact guard_bind divides _

def tan? (unit : AngleUnit) (x : Decimal) : Option (Except Error Decimal) :=
  circular? unit x tangent?

theorem sin?_eq (held : x.Held) (unit : AngleUnit) : sin? unit x = some (sin unit x) :=
  circular?_eq held unit fun _ _ => rfl

theorem cos?_eq (held : x.Held) (unit : AngleUnit) : cos? unit x = some (cos unit x) :=
  circular?_eq held unit fun _ _ => rfl

theorem tan?_eq (held : x.Held) (unit : AngleUnit) : tan? unit x = some (tan unit x) :=
  circular?_eq held unit tangent?_eq

end Circular

section Inverses

/-- Asks that the radicand is not negative and that the cosine is positive. -/
def scaledArcsine? (sine : Int) : Option Int :=
  let scale := tenTo workingDigits
  if sine.natAbs = scale then do
    let halfTurn ← pi? workingDigits
    return sine.sign * halfTurn.tdiv 2
  else do
    let radicand := scale - sine * sine / scale
    guard (0 ≤ radicand)
    let cosine := FixedPoint.squareRoot radicand.toNat workingDigits
    guard (0 < cosine)
    arctangent? ((sine * scale).tdiv cosine) workingDigits

theorem scaledArcsine?_eq {n : Int} (argument : ArcsineArgument n) :
    scaledArcsine? n = some (scaledArcsine n) := by
  unfold scaledArcsine? scaledArcsine
  simp only
  split
  · rw [bind_of_eq_some (pi?_eq _)]
    rfl
  · rename_i inner
    have radicand : (0 : Int) ≤ tenTo workingDigits - n * n / tenTo workingDigits := by
      have square : n * n ≤ tenTo workingDigits * tenTo workingDigits := by
        rw [← Int.natAbs_mul_self]
        exact_mod_cast Nat.mul_self_le_mul_self argument.within
      have most : n * n / tenTo workingDigits ≤ tenTo workingDigits :=
        Int.ediv_le_of_le_mul (by exact_mod_cast tenTo_pos workingDigits) square
      omega
    rw [guard_bind radicand, guard_bind (argument.divisor inner), arctangent?_eq]

def ofRadians? (unit : AngleUnit) (angle : Int) : Option Decimal :=
  match unit with
  | .radians => some (ofWorking angle)
  | .degrees => do
    let halfTurn ← pi? workingDigits
    guard (halfTurn ≠ 0)
    return ofWorking ((angle * 180 * tenTo workingDigits).tdiv halfTurn)

theorem ofRadians?_eq (unit : AngleUnit) (angle : Int) :
    ofRadians? unit angle = some (ofRadians unit angle) := by
  cases unit with
  | radians => rfl
  | degrees =>
    rw [ofRadians?, bind_of_eq_some (pi?_eq _), guard_bind halfTurn_pos.ne']
    rfl

/-- An inverse function, from the angle in fixed point. -/
def arcFunction (unit : AngleUnit) (x : Decimal) (otherwise : DomainFault) (angle : Int → Int) :
    Except Error Decimal := do
  return ofRadians unit (angle (← x.withinUnit otherwise))

def arcFunction? (unit : AngleUnit) (x : Decimal) (otherwise : DomainFault)
    (angle : Int → Option Int) : Option (Except Error Decimal) :=
  match x.withinUnit otherwise with
  | .error e => some (.error e)
  | .ok n => do
    let a ← angle n
    let r ← ofRadians? unit a
    return .ok r

theorem arcFunction?_eq (held : x.Held) (unit : AngleUnit) (otherwise : DomainFault)
    {angle : Int → Int} {angle? : Int → Option Int}
    (same : ∀ n, ArcsineArgument n → angle? n = some (angle n)) :
    arcFunction? unit x otherwise angle? = some (arcFunction unit x otherwise angle) := by
  by_cases small : |x.toRat| ≤ 1
  · have argument := arcsineArgument_of_le (natAbs_toScaled_le held small)
    rw [arcFunction?, arcFunction, withinUnit_of_le held small]
    simp only
    rw [bind_of_eq_some (same _ argument), bind_of_eq_some (ofRadians?_eq _ _)]
    rfl
  · rw [arcFunction?, arcFunction, withinUnit_of_lt held (not_le.1 small)]
    rfl

def asin? (unit : AngleUnit) (x : Decimal) : Option (Except Error Decimal) :=
  arcFunction? unit x .arcsineArgument scaledArcsine?

def acos? (unit : AngleUnit) (x : Decimal) : Option (Except Error Decimal) :=
  arcFunction? unit x .arccosineArgument fun n => do
    let halfTurn ← pi? workingDigits
    let arcsine ← scaledArcsine? n
    return halfTurn.tdiv 2 - arcsine

def atan? (unit : AngleUnit) (x : Decimal) : Option (Except Error Decimal) :=
  arcFunction? unit x .arctangentArgument fun n => arctangent? n workingDigits

theorem asin?_eq (held : x.Held) (unit : AngleUnit) : asin? unit x = some (asin unit x) :=
  arcFunction?_eq held unit .arcsineArgument fun _ => scaledArcsine?_eq

theorem acos?_eq (held : x.Held) (unit : AngleUnit) : acos? unit x = some (acos unit x) := by
  apply arcFunction?_eq held unit .arccosineArgument
  intro n argument
  rw [bind_of_eq_some (pi?_eq _), bind_of_eq_some (scaledArcsine?_eq argument)]
  rfl

theorem atan?_eq (held : x.Held) (unit : AngleUnit) : atan? unit x = some (atan unit x) :=
  arcFunction?_eq held unit .arctangentArgument fun n _ => arctangent?_eq n workingDigits

end Inverses

/-- No check ever fails: for every decimal the functions call the kernels only as they are meant to
be called, and no kernel divides by zero, takes the root of a negative number, or goes on without
end. -/
theorem checks_never_fail (held : x.Held) :
    (x.order.natAbs ≤ 10 ^ 15 → ln? x = some (ln x) ∧ log10? x = some (log10 x)) ∧
    exp? x = some (exp x) ∧ tenPower? x = some (tenPower x) ∧
    ∀ unit, sin? unit x = some (sin unit x) ∧ cos? unit x = some (cos unit x) ∧
      tan? unit x = some (tan unit x) ∧ asin? unit x = some (asin unit x) ∧
      acos? unit x = some (acos unit x) ∧ atan? unit x = some (atan unit x) := by
  refine ⟨?_, exp?_eq x, tenPower?_eq x, ?_⟩
  · intro orders
    have high : x.order ≤ maxOrder := by
      rw [maxOrder]
      omega
    exact logarithms?_eq held high
  · intro unit
    exact ⟨sin?_eq held unit, cos?_eq held unit, tan?_eq held unit, asin?_eq held unit,
      acos?_eq held unit, atan?_eq held unit⟩

/-- Next to one the cosine of the arcsine and the logarithm are smallest, and after a quarter turn
the tangent has a pole. -/
theorem checks_never_fail_at_extremes :
    asin? .radians ⟨10 ^ 60 - 1, -60⟩ = some (asin .radians ⟨10 ^ 60 - 1, -60⟩) ∧
      log10? ⟨10 ^ 60 - 1, -60⟩ = some (log10 ⟨10 ^ 60 - 1, -60⟩) ∧
      tan? .degrees ⟨9, 1⟩ = some (tan .degrees ⟨9, 1⟩) := by
  have nearOne : Held ⟨10 ^ 60 - 1, -60⟩ := held_of_written (by decide)
  have order : order ⟨10 ^ 60 - 1, -60⟩ = -1 := order_of_written 59 (by decide)
  have quarter : Held ⟨9, 1⟩ := held_of_written (by decide)
  obtain ⟨logarithms, -, -, circular⟩ := checks_never_fail nearOne
  obtain ⟨-, -, -, circular'⟩ := checks_never_fail quarter
  exact ⟨(circular .radians).2.2.2.1, (logarithms (by rw [order]; decide)).2,
    (circular' .degrees).2.2.1⟩

end Decimal

end ScientificCalculator
