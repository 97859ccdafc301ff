import Argand.Binary64.Rounding

/-!
Decimal numbers and the doubles nearest to them.

A decimal is a coefficient times a power of ten.  `toBinary64` rounds it once, from its exact value;
its first tests only spare the work of writing out a power of ten that cannot matter, because the
coefficient is zero or because the number is far outside the range of doubles.
-/

namespace Argand

/-- The number `coefficient * 10 ^ exponent`. -/
structure Decimal where
  coefficient : Nat
  exponent : Int
deriving DecidableEq

namespace Decimal

/-- The double nearest to a decimal, with the given sign. -/
def toBinary64 (negative : Bool) (d : Decimal) : Binary64 :=
  if d.coefficient = 0 then .finite negative 0 Binary64.representable_zero
  else match d.exponent with
    | .ofNat e =>
      if 400 ≤ e then .inf negative
      else .round negative (d.coefficient * 10 ^ e * Binary64.unitsPerOne) 1
    | .negSucc e =>
      if d.coefficient.log2 + 1200 ≤ 3 * e then .finite negative 0 Binary64.representable_zero
      else .round negative (d.coefficient * Binary64.unitsPerOne) (10 ^ (e + 1))

/-- The same number with the trailing zeros of its coefficient moved into the exponent. -/
def reduced (d : Decimal) : Decimal :=
  if _h : d.coefficient ≠ 0 ∧ d.coefficient % 10 = 0 then
    reduced ⟨d.coefficient / 10, d.exponent + 1⟩
  else d
termination_by d.coefficient
decreasing_by omega

/-- The digits of the coefficient, the leading one first. -/
def digits (d : Decimal) : List Char :=
  Nat.toDigits 10 d.coefficient

/-- How many decimal digits a number has. -/
def digitCount (n : Nat) : Nat :=
  if n < 10 then 1 else digitCount (n / 10) + 1

end Decimal

end Argand
