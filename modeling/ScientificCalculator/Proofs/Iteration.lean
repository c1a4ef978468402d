import ScientificCalculator.Error

/-!
Loops without a bound on the number of their rounds. A loop repeats a step until the step gives a
result; it has no result if that never happens.
-/

namespace ScientificCalculator

variable {σ ρ : Type} {step : σ → Option (σ ⊕ ρ)} {state next : σ} {result : ρ}

/-- The result of a loop that ends within so many rounds. -/
def runWithin (step : σ → Option (σ ⊕ ρ)) : Nat → σ → Option ρ
  | 0, _ => none
  | rounds + 1, state =>
    match step state with
    | none => none
    | some (.inl next) => runWithin step rounds next
    | some (.inr result) => some result

open Classical in
/-- The result of a loop, however many rounds it takes. -/
noncomputable def runLoop (step : σ → Option (σ ⊕ ρ)) (state : σ) : Option ρ :=
  if ends : ∃ rounds, (runWithin step rounds state).isSome then runWithin step ends.choose state
  else none

/-- More rounds do not change the result. -/
theorem runWithin_of_le {fewer more : Nat} (le : fewer ≤ more)
    (ended : runWithin step fewer state = some result) :
    runWithin step more state = some result := by
  induction fewer generalizing more state with
  | zero => cases ended
  | succ fewer ih =>
    obtain ⟨more, rfl⟩ : ∃ rounds, more = rounds + 1 := ⟨more - 1, by omega⟩
    rw [runWithin] at ended ⊢
    split at ended
    · cases ended
    · exact ih (Nat.le_of_succ_le_succ le) ended
    · exact ended

theorem runLoop_eq_some_iff :
    runLoop step state = some result ↔ ∃ rounds, runWithin step rounds state = some result := by
  unfold runLoop
  constructor
  · intro ended
    split at ended
    · exact ⟨_, ended⟩
    · cases ended
  · rintro ⟨rounds, ended⟩
    have ends : ∃ rounds, (runWithin step rounds state).isSome := ⟨rounds, by rw [ended]; rfl⟩
    rw [dif_pos ends]
    obtain ⟨last, found⟩ := Option.isSome_iff_exists.1 ends.choose_spec
    rcases Nat.le_total rounds ends.choose with le | le
    · exact runWithin_of_le le ended
    · rw [found, ← runWithin_of_le le found, ended]

theorem runLoop_none (stuck : step state = none) : runLoop step state = none := by
  refine Option.eq_none_iff_forall_ne_some.2 fun result ended => ?_
  obtain ⟨rounds, ended⟩ := runLoop_eq_some_iff.1 ended
  cases rounds with
  | zero => cases ended
  | succ rounds =>
    rw [runWithin, stuck] at ended
    cases ended

theorem runLoop_next (goesOn : step state = some (.inl next)) :
    runLoop step state = runLoop step next := by
  ext result
  simp only [runLoop_eq_some_iff]
  constructor
  · rintro ⟨rounds, ended⟩
    cases rounds with
    | zero => cases ended
    | succ rounds =>
      rw [runWithin, goesOn] at ended
      exact ⟨rounds, ended⟩
  · rintro ⟨rounds, ended⟩
    refine ⟨rounds + 1, ?_⟩
    rw [runWithin, goesOn]
    exact ended

theorem runLoop_done (ends : step state = some (.inr result)) :
    runLoop step state = some result :=
  runLoop_eq_some_iff.2 ⟨1, by rw [runWithin, ends]⟩

end ScientificCalculator
