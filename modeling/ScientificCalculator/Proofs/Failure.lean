import ScientificCalculator.Error

/-!
Calculations that may fail, taken apart at their first step. A calculation has a result exactly if
its first step has one from which the rest has it, so a property of the results is shown step by
step, and so is a property of the errors.
-/

namespace ScientificCalculator

variable {α β : Type}

theorem bind_eq_ok_iff {result : Except Error α} {next : α → Except Error β} {y : β} :
    result >>= next = .ok y ↔ ∃ x, result = .ok x ∧ next x = .ok y := by
  cases result with
  | error e => exact ⟨nofun, nofun⟩
  | ok x => exact ⟨fun h => ⟨x, rfl, h⟩, fun ⟨_, same, h⟩ => by cases same; exact h⟩

theorem bind_eq_error_iff {result : Except Error α} {next : α → Except Error β} {e : Error} :
    result >>= next = .error e ↔ result = .error e ∨ ∃ x, result = .ok x ∧ next x = .error e := by
  cases result with
  | error other =>
    constructor
    · intro failed
      cases failed
      exact .inl rfl
    · rintro (⟨⟨⟩⟩ | ⟨x, ⟨⟩, -⟩)
      rfl
  | ok x =>
    constructor
    · intro failed
      exact .inr ⟨x, rfl, failed⟩
    · rintro (⟨⟨⟩⟩ | ⟨x, ⟨⟩, failed⟩)
      exact failed

/-- The result of the calculation, if it has one, has the property. -/
def Yields (property : α → Prop) (result : Except Error α) : Prop :=
  ∀ x, result = .ok x → property x

namespace Yields
variable {property : α → Prop}

theorem ok {x : α} (holds : property x) : Yields property (.ok x) := by
  rintro y ⟨⟩
  exact holds

theorem error (error : Error) : Yields property (.error error) := nofun

theorem any (result : Except Error α) : Yields (fun _ => True) result := fun _ _ => trivial

theorem bind {property' : β → Prop} {result : Except Error α} {next : α → Except Error β}
    (first : Yields property result) (rest : ∀ x, property x → Yields property' (next x)) :
    Yields property' (result >>= next) := by
  intro y found
  obtain ⟨x, known, found⟩ := bind_eq_ok_iff.1 found
  exact rest x (first x known) y found

theorem ite {p : Prop} [Decidable p] {first second : Except Error α}
    (yes : p → Yields property first) (no : ¬ p → Yields property second) :
    Yields property (if p then first else second) := by
  split
  · exact yes ‹_›
  · exact no ‹_›

end Yields

/-- The error of the calculation, if it fails, is among these causes. -/
def Raises (causes : Error → Prop) (result : Except Error α) : Prop :=
  ∀ error, result = .error error → causes error

namespace Raises
variable {causes : Error → Prop}

theorem ok (x : α) : Raises causes (.ok x) := nofun

theorem error {error : Error} (known : causes error) :
    Raises causes (.error error : Except Error α) := by
  rintro other ⟨⟩
  exact known

theorem bind {result : Except Error α} {next : α → Except Error β} (first : Raises causes result)
    (rest : ∀ x, Raises causes (next x)) : Raises causes (result >>= next) := by
  intro other failed
  rcases bind_eq_error_iff.1 failed with failed | ⟨x, -, failed⟩
  · exact first other failed
  · exact rest x other failed

theorem ite {p : Prop} [Decidable p] {first second : Except Error α} (yes : Raises causes first)
    (no : Raises causes second) : Raises causes (if p then first else second) := by
  split
  · exact yes
  · exact no

end Raises

end ScientificCalculator
