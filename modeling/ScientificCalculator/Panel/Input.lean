import ScientificCalculator.Panel.State

/-!
What the keyboard, the buttons and the width field of the panel do. The keyboard has the digits, the
point and the common operators; each button is found by its label.
-/

namespace ScientificCalculator

def Key.ofTyped? (c : Char) : Option Key :=
  if h : '0' ≤ c ∧ c ≤ '9' then
    some (.mark (.digit ⟨c.toNat - '0'.toNat, by
      have high : c.toNat ≤ '9'.toNat := h.2
      have nine : '9'.toNat = '0'.toNat + 9 := by decide
      omega⟩))
  else
    match c with
    | '.' => some (.mark .point)
    | ',' => some (.mark .point)
    | '+' => some (.additive .plus)
    | '-' => some (.additive .minus)
    | '*' => some (.multiplicative .times)
    | '/' => some (.multiplicative .divide)
    | '^' => some (.dual .power)
    | '(' => some .opening
    | ')' => some .closing
    | '!' => some (.trailing .factorial)
    | _ => none

namespace Panel

def typed (text : List Char) : List Action :=
  (text.filterMap Key.ofTyped?).map fun key => .press key.identifier

structure Strokes where
  text : List Char
  escape : Bool
  backspace : Bool
  enter : Bool

/-- Escape acts before the typed text, and the text before backspace and enter. -/
def Strokes.actions (strokes : Strokes) : List Action :=
  (if strokes.escape then [.clearEntry] else []) ++ typed strokes.text ++
    (if strokes.backspace then [.deleteLast] else []) ++
    (if strokes.enter then [.evaluate] else [])

def commandButtons : List (String × Action) := [
  ("C", .clearEntry),
  ("AC", .reset),
  ("DEG/RAD", .switchUnit),
  ("DEL", .deleteLast),
  ("=", .evaluate),
  ("MCL", .clearMemory),
  ("STO", .memoryKey (Key.memory .store).identifier),
  ("M+", .memoryKey (Key.memory .add).identifier),
  ("M−", .memoryKey (Key.memory .subtract).identifier)]

def keyButtons : List (String × Key) := [
  ("RCL", .recalled),
  ("Ans", .answer),
  ("sin", .leading .sin),
  ("cos", .leading .cos),
  ("tan", .leading .tan),
  ("asin", .leading .asin),
  ("acos", .leading .acos),
  ("atan", .leading .atan),
  ("log", .leading .log10),
  ("ln", .leading .ln),
  ("10ˣ", .leading .tenPower),
  ("eˣ", .leading .exp),
  ("√", .leading .squareRoot),
  ("∛", .leading .cubeRoot),
  ("x²", .trailing .square),
  ("x³", .trailing .cube),
  ("x⁻¹", .trailing .inverse),
  ("x!", .trailing .factorial),
  ("xʸ", .dual .power),
  ("ˣ√", .dual .root),
  ("nCr", .dual .combination),
  ("nPr", .dual .permutation),
  ("π", .pi),
  ("(", .opening),
  (")", .closing),
  ("(−)", .sign .minus),
  ("×", .multiplicative .times),
  ("÷", .multiplicative .divide),
  ("+", .additive .plus),
  ("−", .additive .minus),
  ("EXP", .dual .exponent),
  (".", .mark .point)]

def digitButtons : List (String × Key) :=
  (List.finRange 10).map fun value : Fin 10 =>
    (String.singleton (Nat.digitChar value), Key.mark (.digit value))

def buttons : List (String × Action) :=
  commandButtons ++
    (keyButtons ++ digitButtons).map fun (label, key) => (label, .press key.identifier)

def ofButton? (label : String) : Option Action := buttons.lookup label

def ofWidthField (digits : List Char) : List Action :=
  if digits = [] then [] else [.setWidth (digitsValue digits)]

end Panel

end ScientificCalculator
