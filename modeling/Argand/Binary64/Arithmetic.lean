import Argand.Binary64.Rounding

/-!
Arithmetic of doubles: sums, products, quotients, the fused product-and-sum, the mean of two
doubles, the square root and the hypotenuse.

On finite operands each operation is its exact value rounded once, so nothing overflows or vanishes
on the way.  The other cases are the usual ones: a NaN gives a NaN, as do the sum of two opposite
infinities, the product of a zero with an infinity, the quotient of two zeros or of two infinities
and the square root of a negative number.  The one exception is the hypotenuse, which is infinite as
soon as one side is.

The sign of an exact zero: a sum is negative only if both operands are; a product or quotient is if
the signs differ.
-/

namespace Argand

namespace Binary64

/-! ## Sums -/

def add : Binary64 → Binary64 → Binary64
  | nan, _ => nan
  | _, nan => nan
  | inf s, inf t => if s = t then inf s else nan
  | inf s, finite _ _ _ => inf s
  | finite _ _ _, inf t => inf t
  | finite s u _, finite t v _ => roundSigned (s && t) (signed s u + signed t v) 1

instance : Add Binary64 := ⟨add⟩

def sub (x y : Binary64) : Binary64 := x + -y

instance : Sub Binary64 := ⟨sub⟩

/-- The number half way between two doubles. -/
def midpoint : Binary64 → Binary64 → Binary64
  | nan, _ => nan
  | _, nan => nan
  | inf s, inf t => if s = t then inf s else nan
  | inf s, finite _ _ _ => inf s
  | finite _ _ _, inf t => inf t
  | finite s u _, finite t v _ => roundSigned (s && t) (signed s u + signed t v) 2

/-! ## Products and quotients -/

def mul : Binary64 → Binary64 → Binary64
  | nan, _ => nan
  | _, nan => nan
  | inf s, inf t => inf (s != t)
  | inf s, finite t v _ => if v = 0 then nan else inf (s != t)
  | finite s u _, inf t => if u = 0 then nan else inf (s != t)
  | finite s u _, finite t v _ => round (s != t) (u * v) unitsPerOne

instance : Mul Binary64 := ⟨mul⟩

def div : Binary64 → Binary64 → Binary64
  | nan, _ => nan
  | _, nan => nan
  | inf _, inf _ => nan
  | inf s, finite t _ _ => inf (s != t)
  | finite s _ _, inf t => round (s != t) 0 1
  | finite s u _, finite t v _ =>
    if v = 0 then if u = 0 then nan else inf (s != t)
    else round (s != t) (u * unitsPerOne) v

instance : Div Binary64 := ⟨div⟩

/-- `x * y + z`, rounded once. -/
def fma : Binary64 → Binary64 → Binary64 → Binary64
  | finite s u _, finite t v _, finite r w _ =>
    roundSigned ((s != t) && r) (signed (s != t) (u * v) + signed r w * unitsPerOne) unitsPerOne
  | finite _ _ _, finite _ _ _, z => z
  | x, y, z => x * y + z

/-! ## Roots -/

def sqrt : Binary64 → Binary64
  | nan => nan
  | inf negative => if negative then nan else inf false
  | finite negative units h =>
    if units = 0 then finite negative units h
    else if negative then nan
    else roundRoot (units * unitsPerOne)

/-- The length of the hypotenuse over two sides.  An infinite side makes it infinite, whatever the
other one is. -/
def hypot : Binary64 → Binary64 → Binary64
  | inf _, _ => inf false
  | _, inf _ => inf false
  | nan, _ => nan
  | _, nan => nan
  | finite _ u _, finite _ v _ => roundRoot (u * u + v * v)

/-! ## Whole exponents -/

/-- The largest magnitude of an exponent that is applied by repeated multiplication. -/
def largestIntegralExponent : Nat := 100

/-- The whole number that a double is, if it is one of magnitude at most
`largestIntegralExponent`. -/
def integralExponent? : Binary64 → Option Int
  | finite negative units _ =>
    if units % unitsPerOne = 0 ∧ units ≤ largestIntegralExponent * unitsPerOne then
      some (signed negative (units / unitsPerOne))
    else none
  | _ => none

end Binary64

end Argand
