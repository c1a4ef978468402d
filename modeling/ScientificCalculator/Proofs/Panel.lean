import ScientificCalculator.Panel.State
import ScientificCalculator.Proofs.Chaining
import ScientificCalculator.Proofs.Display.Glyphs

/-!
The panel and the session behind it. A key that calculates does what the session does, and shows the
text of the session with the minus sign of the display; the word for a failure is shown exactly
while there is an error, since no number is written with its letters.
-/

namespace ScientificCalculator

theorem Error.message_ne_empty (error : Error) : error.message ≠ "" := by
  have opened {first : String} (nonempty : first ≠ "") (second : String) : first ++ second ≠ "" :=
    fun empty => nonempty (String.append_eq_empty_iff.1 empty).1
  unfold message
  split
  · simp
  · exact opened (by simp) _
  · simp
  · exact opened (by simp) _
  · simp
  · exact opened (by simp) _
  · exact opened (opened (by simp) _) _

namespace Panel
variable {panel : Panel} {action : Action} {identifiers : List String}

theorem errorText_ne_empty_iff : panel.errorText ≠ "" ↔ panel.failure ≠ none := by
  rw [errorText]
  cases panel.failure with
  | none => exact ⟨fun shown => absurd rfl shown, fun failed => absurd rfl failed⟩
  | some error => exact ⟨fun _ => Option.some_ne_none error, fun _ => error.message_ne_empty⟩

/-- The keys that are calculated if this one is pressed after the entry. -/
def Action.calculated? (entry : List String) : Action → Option (List String)
  | .evaluate => some entry
  | .memoryKey identifier => some (identifier :: entry)
  | _ => none

theorem after_of_calculated (calculates : action.calculated? panel.entry = some identifiers) :
    panel.after action = panel.calculate identifiers := by
  cases action with
  | evaluate => rw [← Option.some.inj calculates, after, evaluate]
  | memoryKey identifier => rw [← Option.some.inj calculates, after, memoryKey]
  | _ => cases calculates

section Calculating
variable {session : Session} {calculation : Calculation} {error : Error}

theorem calculate_of_empty (empty : panel.entry = []) (identifiers : List String) :
    panel.calculate identifiers = panel := if_pos empty

/-- The text with the other minus sign is found whenever the session found its own. -/
theorem withMinus_of_calculate_eq_ok
    (succeeded : panel.session.calculate identifiers = (.ok calculation, session)) :
    Display.withMinus minusSign calculation.value session.width =
      .ok (Display.replaceMinus minusSign calculation.display) := by
  obtain ⟨fitted, width⟩ := Session.fit_of_calculate_eq_ok succeeded
  rw [width, Display.withMinus_eq_map_fit, fitted]
  rfl

theorem calculate_of_ok (nonempty : panel.entry ≠ [])
    (succeeded : panel.session.calculate identifiers = (.ok calculation, session)) :
    panel.calculate identifiers =
      ⟨[], Display.replaceMinus minusSign calculation.display, panel.entryText, none,
        calculation.ignored, session⟩ := by
  rw [calculate, if_neg nonempty, succeeded]
  simp only [shown, withMinus_of_calculate_eq_ok succeeded]

theorem calculate_of_error (nonempty : panel.entry ≠ [])
    (failed : (panel.session.calculate identifiers).1 = .error error) :
    panel.calculate identifiers =
      ⟨panel.entry, failureDisplay, panel.entryText, some error, [], panel.session⟩ := by
  rw [calculate, if_neg nonempty, Session.calculate_of_error failed]

/-- Three things can happen: nothing, a success of the session, or its failure. -/
theorem calculate_cases (panel : Panel) (identifiers : List String) :
    panel.entry = [] ∧ panel.calculate identifiers = panel ∨
      (∃ calculation session, panel.entry ≠ [] ∧
        panel.session.calculate identifiers = (.ok calculation, session) ∧
        panel.calculate identifiers =
          ⟨[], Display.replaceMinus minusSign calculation.display, panel.entryText, none,
            calculation.ignored, session⟩) ∨
      ∃ error, panel.entry ≠ [] ∧ (panel.session.calculate identifiers).1 = .error error ∧
        panel.calculate identifiers =
          ⟨panel.entry, failureDisplay, panel.entryText, some error, [], panel.session⟩ := by
  by_cases empty : panel.entry = []
  · exact .inl ⟨empty, calculate_of_empty empty identifiers⟩
  · cases outcome : (panel.session.calculate identifiers).1 with
    | ok calculation =>
      have succeeded : panel.session.calculate identifiers =
          (.ok calculation, (panel.session.calculate identifiers).2) := Prod.ext outcome rfl
      exact .inr (.inl ⟨calculation, _, empty, succeeded, calculate_of_ok empty succeeded⟩)
    | error error => exact .inr (.inr ⟨error, empty, rfl, calculate_of_error empty outcome⟩)

/-- A key that calculates passes on to the session what it is given, and does nothing without an
entry. After a success the entry is empty and the text is the one of the session, whose minus signs
alone are other characters. After a failure the entry and the session are kept, so that the same
key fails again and changes nothing more. -/
theorem after_refines_session (calculates : action.calculated? panel.entry = some identifiers) :
    (panel.entry = [] → panel.after action = panel) ∧
    (panel.entry ≠ [] → ∀ calculation session,
      panel.session.calculate identifiers = (.ok calculation, session) →
        Display.withMinus minusSign calculation.value session.width =
          .ok (Display.replaceMinus minusSign calculation.display) ∧
        panel.after action =
          { entry := []
            display := Display.replaceMinus minusSign calculation.display
            calculation := panel.entryText
            failure := none
            ignored := calculation.ignored
            session := session }) ∧
    (panel.entry ≠ [] → ∀ error, (panel.session.calculate identifiers).1 = .error error →
      (panel.after action).entry = panel.entry ∧ (panel.after action).session = panel.session ∧
        (panel.after action).failure = some error ∧
        (panel.after action).after action = panel.after action) := by
  rw [after_of_calculated calculates]
  refine ⟨?_, ?_, ?_⟩
  · intro empty
    exact calculate_of_empty empty identifiers
  · intro nonempty calculation session succeeded
    exact ⟨withMinus_of_calculate_eq_ok succeeded, calculate_of_ok nonempty succeeded⟩
  · intro nonempty error failed
    have stopped := calculate_of_error nonempty failed
    rw [stopped]
    refine ⟨rfl, rfl, rfl, ?_⟩
    -- The entry is kept, so the key calculates the same identifiers in the same session.
    exact Eq.trans (after_of_calculated calculates) (calculate_of_error nonempty failed)

/-- The result of 2 − 7 has the minus sign of the display; 1 ÷ 0 cannot be stored, so its keys
stay. -/
theorem after_refines_session_difference :
    (initial.afterAll [.press "#2", .press "-", .press "#7"]).after .evaluate =
        ⟨[], ['−', '5', '.', '0'], "2−7", none, [], ⟨⟨⟨0, 0⟩, ⟨-5, 0⟩⟩, .degrees, 24⟩⟩ ∧
      ((initial.afterAll [.press "#1", .press "/", .press "#0"]).after (.memoryKey "STO")).entry =
        ["#1", "/", "#0"] ∧
      ((initial.afterAll [.press "#1", .press "/", .press "#0"]).after
        (.memoryKey "STO")).after (.memoryKey "STO") =
          (initial.afterAll [.press "#1", .press "/", .press "#0"]).after (.memoryKey "STO") := by
  have shown : Session.initial.calculate ["#2", "-", "#7"] =
      (.ok ⟨⟨-5, 0⟩, ['-', '5', '.', '0'], none, []⟩, ⟨⟨⟨0, 0⟩, ⟨-5, 0⟩⟩, .degrees, 24⟩) := by
    with_unfolding_all rfl
  have failed : (Session.initial.calculate ["STO", "#1", "/", "#0"]).1 = .error .divisionByZero := by
    with_unfolding_all rfl
  have difference := @after_refines_session
    (initial.afterAll [.press "#2", .press "-", .press "#7"]) .evaluate _ rfl
  have quotient := @after_refines_session
    (initial.afterAll [.press "#1", .press "/", .press "#0"]) (.memoryKey "STO") _ rfl
  obtain ⟨-, same⟩ := difference.2.1 (by decide) _ _ shown
  obtain ⟨kept, -, -, again⟩ := quotient.2.2 (by decide) _ failed
  refine ⟨same.trans ?_, kept, again⟩
  with_unfolding_all rfl

end Calculating

/-- What holds of every panel: the width is within its bounds, and the word for a failure is shown
while there is an error, which leaves no keys to be named as ignored. -/
structure Consistent (panel : Panel) : Prop where
  width : leastWidth ≤ panel.session.width ∧ panel.session.width ≤ greatestWidth
  display : panel.failure ≠ none ↔ panel.display = failureDisplay
  ignored : panel.failure ≠ none → panel.ignored = []

theorem consistent_of_success (none : panel.failure = none)
    (bounds : leastWidth ≤ panel.session.width ∧ panel.session.width ≤ greatestWidth)
    (shown : panel.display ≠ failureDisplay) : panel.Consistent where
  width := bounds
  display := ⟨fun failed => absurd none failed, fun word => absurd word shown⟩
  ignored := fun failed => absurd none failed

theorem consistent_blank {width : Nat} (bounds : leastWidth ≤ width ∧ width ≤ greatestWidth) :
    (blank width).Consistent :=
  consistent_of_success rfl bounds (by decide : initialDisplay ≠ failureDisplay)

/-- The letters of the word for a failure are not those of numbers. -/
theorem replaceMinus_ne_failureDisplay {x : Decimal} {width : Nat} {text : List Char}
    (fitted : Display.fit x width = .ok text) :
    Display.replaceMinus minusSign text ≠ failureDisplay := by
  intro same
  have absent : 'E' ∉ Display.replaceMinus minusSign text :=
    (Display.glyphs_of_fit fitted).not_mem_replaceMinus (by decide) (by decide)
  rw [same] at absent
  exact absent (by decide)

theorem Consistent.calculate (consistent : panel.Consistent) (identifiers : List String) :
    (panel.calculate identifiers).Consistent := by
  obtain ⟨-, same⟩ | ⟨calculation, session, -, succeeded, same⟩ | ⟨error, -, -, same⟩ :=
    panel.calculate_cases identifiers
  · rw [same]
    exact consistent
  · obtain ⟨fitted, width⟩ := Session.fit_of_calculate_eq_ok succeeded
    rw [same]
    apply consistent_of_success rfl
    · rw [width]
      exact consistent.width
    · exact replaceMinus_ne_failureDisplay fitted
  · rw [same]
    exact {
      width := consistent.width
      display := ⟨fun _ => rfl, fun _ => Option.some_ne_none error⟩
      ignored := fun _ => rfl }

theorem Consistent.after (consistent : panel.Consistent) (action : Action) :
    (panel.after action).Consistent := by
  obtain ⟨width, display, ignored⟩ := consistent
  cases action with
  | press => exact ⟨width, display, ignored⟩
  | deleteLast => exact ⟨width, display, ignored⟩
  | clearEntry => exact ⟨width, display, ignored⟩
  | reset => exact consistent_blank width
  | clearMemory => exact ⟨width, display, ignored⟩
  | switchUnit => exact ⟨width, display, ignored⟩
  | setWidth width' => exact ⟨clampWidth_bounds width', display, ignored⟩
  | evaluate => exact Consistent.calculate ⟨width, display, ignored⟩ _
  | memoryKey => exact Consistent.calculate ⟨width, display, ignored⟩ _

theorem Consistent.afterAll (consistent : panel.Consistent) (actions : List Action) :
    (panel.afterAll actions).Consistent := by
  induction actions generalizing panel with
  | nil => exact consistent
  | cons action rest ih => exact ih (consistent.after action)

/-- Whatever a calculation shows is within the width, its failure included. -/
theorem Consistent.length_display_calculate (consistent : panel.Consistent)
    (nonempty : panel.entry ≠ []) (identifiers : List String) :
    (panel.calculate identifiers).display.length ≤ (panel.calculate identifiers).session.width := by
  have least : 0 < leastWidth := by decide
  have wide := consistent.width.1
  obtain ⟨empty, -⟩ | ⟨calculation, session, -, succeeded, same⟩ | ⟨error, -, -, same⟩ :=
    panel.calculate_cases identifiers
  · exact absurd empty nonempty
  · obtain ⟨fitted, width⟩ := Session.fit_of_calculate_eq_ok succeeded
    rw [same, Display.length_replaceMinus, width]
    exact Display.length_of_fit (by omega) fitted
  · rw [same]
    exact wide

/-- In every panel that keys lead to, the width is from 6 to 60, an error is shown exactly with the
word for a failure and without ignored keys; and what a key shows that calculates an entry is within
the width. -/
theorem consistent_of_reached {actions : List Action} (reached : initial.afterAll actions = panel) :
    (6 ≤ panel.session.width ∧ panel.session.width ≤ 60) ∧
    (panel.errorText ≠ "" ↔ panel.display = failureDisplay) ∧
    (panel.errorText ≠ "" → panel.ignored = []) ∧
    ∀ action identifiers, action.calculated? panel.entry = some identifiers → panel.entry ≠ [] →
      (panel.after action).display.length ≤ (panel.after action).session.width := by
  have initially : initial.Consistent := consistent_blank (by decide)
  have consistent : panel.Consistent := reached ▸ initially.afterAll actions
  rw [errorText_ne_empty_iff]
  refine ⟨consistent.width, consistent.display, consistent.ignored,
    fun action identifiers calculates nonempty => ?_⟩
  rw [after_of_calculated calculates]
  exact consistent.length_display_calculate nonempty identifiers

/-- On the narrowest panel, the word for a failure takes up the width. -/
theorem consistent_of_reached_quotient :
    initial.afterAll [.setWidth 2, .press "#1", .press "/", .press "#0", .evaluate] =
        ⟨["#1", "/", "#0"], failureDisplay, "1÷0", some .divisionByZero, [],
          ⟨⟨⟨0, 0⟩, ⟨0, 0⟩⟩, .degrees, 6⟩⟩ ∧
      ((Panel.mk ["#1", "/", "#0"] failureDisplay "1÷0" (some .divisionByZero) []
        ⟨⟨⟨0, 0⟩, ⟨0, 0⟩⟩, .degrees, 6⟩).after (.memoryKey "STO")).display.length ≤
        ((Panel.mk ["#1", "/", "#0"] failureDisplay "1÷0" (some .divisionByZero) []
          ⟨⟨⟨0, 0⟩, ⟨0, 0⟩⟩, .degrees, 6⟩).after (.memoryKey "STO")).session.width := by
  have reached : initial.afterAll [.setWidth 2, .press "#1", .press "/", .press "#0", .evaluate] =
      ⟨["#1", "/", "#0"], failureDisplay, "1÷0", some .divisionByZero, [],
        ⟨⟨⟨0, 0⟩, ⟨0, 0⟩⟩, .degrees, 6⟩⟩ := by
    with_unfolding_all rfl
  obtain ⟨-, -, -, within⟩ := consistent_of_reached reached
  exact ⟨reached, within _ _ rfl (by decide)⟩

end Panel

end ScientificCalculator
