import ScientificCalculator.Decimal.Canonical
import ScientificCalculator.Decimal.Literal
import ScientificCalculator.Decimal.Printer
import ScientificCalculator.Function.Combinatorics
import ScientificCalculator.Function.Root
import ScientificCalculator.Function.Trigonometry
import ScientificCalculator.Display.Fitting
import ScientificCalculator.Expression.Evaluation
import ScientificCalculator.Expression.Key
import ScientificCalculator.Log
import ScientificCalculator.Panel.Input
import ScientificCalculator.Panel.Screen
import ScientificCalculator.Proofs.Grammar.Correctness
import ScientificCalculator.Proofs.Canonical.Obtainable
import ScientificCalculator.Proofs.Decimal.Arithmetic
import ScientificCalculator.Proofs.Chaining
import ScientificCalculator.Proofs.Display.Optimal
import ScientificCalculator.Proofs.Squares
import ScientificCalculator.Proofs.Parentheses
import ScientificCalculator.Proofs.Function.Logarithm
import ScientificCalculator.Proofs.Function.Circular
import ScientificCalculator.Proofs.Decimal.Comparison
import ScientificCalculator.Proofs.Decimal.RoundTrip
import ScientificCalculator.Proofs.History
import ScientificCalculator.Proofs.Function.Inversion
import ScientificCalculator.Proofs.Decimal.Quotient
import ScientificCalculator.Proofs.Panel
import ScientificCalculator.Proofs.Function.Root
import ScientificCalculator.Proofs.Decimal.Literal
import ScientificCalculator.Proofs.ExponentKey
import ScientificCalculator.Proofs.SignKeys
import ScientificCalculator.Proofs.Function.PowerSign
import ScientificCalculator.Proofs.Function.RoundedProducts
import ScientificCalculator.Proofs.Function.Binomial
import ScientificCalculator.Proofs.Function.Periodicity
import ScientificCalculator.Proofs.Function.Symmetry
import ScientificCalculator.Proofs.Function.QuarterTurn
import ScientificCalculator.Proofs.Function.UnitRange
import ScientificCalculator.Proofs.Function.ArcInversion
import ScientificCalculator.Proofs.Function.LogarithmSign
import ScientificCalculator.Proofs.Function.PowerOfTen
import ScientificCalculator.Proofs.Function.Preconditions
import ScientificCalculator.Proofs.FixedPoint.Counter
import ScientificCalculator.Proofs.FixedPoint.Loops
import ScientificCalculator.Proofs.Splicing.Safety
import ScientificCalculator.Proofs.Display.LeadingDigits
import ScientificCalculator.Proofs.Decimal.FixedPlaces
