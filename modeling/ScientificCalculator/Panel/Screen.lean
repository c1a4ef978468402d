import ScientificCalculator.Panel.State

/-!
The texts that the panel shows above its keys, in two groups from top to bottom. Empty texts are left
out.
-/

namespace ScientificCalculator.Panel

def title : String := "Calculatrice scientifique"

def upperTexts (panel : Panel) : List String :=
  [title, panel.indicator, if panel.calculation = "" then "" else panel.calculation ++ " =",
    panel.entryText].filter (· ≠ "")

def ignoredText (panel : Panel) : String :=
  if panel.ignored = [] then ""
  else "touches ignorées : " ++ " ".intercalate panel.ignored

def lowerTexts (panel : Panel) : List String :=
  [panel.entryText, String.ofList panel.display, panel.errorText, panel.ignoredText].filter (· ≠ "")

end ScientificCalculator.Panel
