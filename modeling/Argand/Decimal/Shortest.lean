import Argand.Decimal.Basic

/-!
The decimal that stands for a double in writing.

`shortest` is the decimal with the fewest digits that reads back as the same double.  It tries the
grids of one, two, … up to seventeen digits.  On each grid only the two neighbours of the double can
be the nearest point, and they are tried nearer one first, the larger of two equally near ones
first.  A candidate is accepted when the reader gives the double back, so a result of the search
reads back by construction; `exact` stands behind it, the full expansion of the double.
-/

namespace Argand

namespace Decimal

open Binary64 (unitsPerOne)

/-- A magnitude divided by a power of ten, as a fraction. -/
def scaledUnits (units : Nat) : Int → Nat × Nat
  | .ofNat e => (units, 10 ^ e * unitsPerOne)
  | .negSucc e => (units * 10 ^ (e + 1), unitsPerOne)

/-- The power of ten at or below a magnitude that is not zero. -/
def leadingExponent (units : Nat) : Int :=
  if unitsPerOne ≤ units then digitCount (units / unitsPerOne) - 1
  else -(digitCount ((unitsPerOne + units - 1) / units - 1) : Int)

/-- Reading a decimal gives back the magnitude. -/
def ReadsBack (units : Nat) (d : Decimal) : Prop :=
  match d.toBinary64 false with
  | .finite _ v _ => v = units
  | _ => False

instance (units : Nat) (d : Decimal) : Decidable (ReadsBack units d) := by
  unfold ReadsBack
  split <;> infer_instance

/-- The neighbours of a magnitude among the multiples of `10 ^ e`, the nearer one first. -/
def neighbours (units : Nat) (e : Int) : List Decimal :=
  let (n, d) := scaledUnits units e
  let below : Decimal := reduced ⟨n / d, e⟩
  let above : Decimal := reduced ⟨n / d + 1, e⟩
  if 2 * (n % d) < d then [below, above] else [above, below]

/-- The whole expansion of a magnitude, which has a factor five for each factor one half. -/
def exact (units : Nat) : Decimal :=
  reduced ⟨units * 5 ^ fractionBits, -fractionBits⟩

/-- The decimal with the fewest digits that reads back as the magnitude. -/
def shortest (units : Nat) : Decimal :=
  if units = 0 then ⟨0, 0⟩
  else
    let candidates := (List.range 17).flatMap fun k =>
      neighbours units (leadingExponent units - (k : Nat))
    (candidates.find? fun d => ReadsBack units d).getD (exact units)

end Decimal

end Argand
