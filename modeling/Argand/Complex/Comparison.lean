import Argand.Complex.Basic
import Argand.Decimal.Basic

/-!
Comparison of two numbers up to a tolerance.
-/

namespace Argand

/-- The outcome of a comparison. -/
inductive Comparison where
  | equivalent
  | different
deriving DecidableEq

namespace Comparison

def word : Comparison → String
  | equivalent => "equivalent"
  | different => "different"

instance : ToString Comparison := ⟨word⟩

/-- The tolerance where none is given. -/
def defaultTolerance : Binary64 := (Decimal.mk 1 (-9)).toBinary64 false

end Comparison

namespace Complex

/-- Two numbers are equivalent when their distance is below the tolerance, which a distance or a
tolerance that is the NaN never is. -/
def compare (z w : Complex) (tolerance : Binary64) : Comparison :=
  if (z - w).abs.lt tolerance then .equivalent else .different

end Complex

end Argand
