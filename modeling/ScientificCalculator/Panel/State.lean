import ScientificCalculator.Session

/-!
The calculator's panel: the keys entered so far, the texts of the last calculation and the session
behind them. The entry is emptied by a calculation that succeeds and kept by one that fails.
-/

namespace ScientificCalculator

structure Panel where
  entry : List String
  display : List Char
  calculation : String
  failure : Option Error
  ignored : List String
  session : Session
  deriving DecidableEq

namespace Panel

def leastWidth : Nat := 6

def greatestWidth : Nat := 60

def initialDisplay : List Char := ['0', '.', '0']

def failureDisplay : List Char := ['E', 'r', 'r', 'e', 'u', 'r']

def minusSign : Char := '−'

def blank (width : Nat) : Panel :=
  ⟨[], initialDisplay, "", none, [], Session.initial.setWidth width⟩

def initial : Panel := blank defaultWidth

def press (panel : Panel) (identifier : String) : Panel :=
  { panel with entry := panel.entry ++ [identifier] }

def deleteLast (panel : Panel) : Panel := { panel with entry := panel.entry.dropLast }

def clearEntry (panel : Panel) : Panel := { panel with entry := [] }

/-- Forgets everything but the width. -/
def reset (panel : Panel) : Panel := blank panel.session.width

def clearMemory (panel : Panel) : Panel := { panel with session := panel.session.clearMemory }

def switchUnit (panel : Panel) : Panel := { panel with session := panel.session.switchUnit }

def clampWidth (width : Nat) : Nat := max leastWidth (min width greatestWidth)

theorem clampWidth_bounds (width : Nat) :
    leastWidth ≤ clampWidth width ∧ clampWidth width ≤ greatestWidth := by
  have ends : leastWidth ≤ greatestWidth := by decide
  unfold clampWidth
  omega

def setWidth (panel : Panel) (width : Nat) : Panel :=
  { panel with session := panel.session.setWidth (clampWidth width) }

/-- The entry in labels; an identifier without a key is shown as it is. -/
def entryText (panel : Panel) : String :=
  String.join (panel.entry.map fun identifier => (Key.label? identifier).getD identifier)

def errorText (panel : Panel) : String := (panel.failure.map Error.message).getD ""

def indicator (panel : Panel) : String := panel.session.indicator

/-- The text of a value with the minus sign of the display. -/
def shown (calculation : Calculation) (width : Nat) : List Char :=
  match Display.withMinus minusSign calculation.value width with
  | .ok text => text
  | .error _ => calculation.display

/-- Calculates these keys, unless the entry is empty. -/
def calculate (panel : Panel) (identifiers : List String) : Panel :=
  if panel.entry = [] then panel
  else
    match panel.session.calculate identifiers with
    | (.ok calculation, session) =>
      { entry := []
        display := shown calculation session.width
        calculation := panel.entryText
        failure := none
        ignored := calculation.ignored
        session := session }
    | (.error error, session) =>
      { entry := panel.entry
        display := failureDisplay
        calculation := panel.entryText
        failure := some error
        ignored := []
        session := session }

def evaluate (panel : Panel) : Panel := panel.calculate panel.entry

def memoryKey (panel : Panel) (identifier : String) : Panel :=
  panel.calculate (identifier :: panel.entry)

inductive Action where
  | press (identifier : String)
  | deleteLast
  | clearEntry
  | reset
  | clearMemory
  | switchUnit
  | setWidth (width : Nat)
  | evaluate
  | memoryKey (identifier : String)
  deriving DecidableEq

def after (panel : Panel) : Action → Panel
  | .press identifier => panel.press identifier
  | .deleteLast => panel.deleteLast
  | .clearEntry => panel.clearEntry
  | .reset => panel.reset
  | .clearMemory => panel.clearMemory
  | .switchUnit => panel.switchUnit
  | .setWidth width => panel.setWidth width
  | .evaluate => panel.evaluate
  | .memoryKey identifier => panel.memoryKey identifier

def afterAll (panel : Panel) (actions : List Action) : Panel := actions.foldl after panel

end Panel

end ScientificCalculator
