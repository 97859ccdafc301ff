import Argand.Complex.Basic

/-!
Roots, exponentials and powers, all on the principal branch.

A power takes the first of these ways that applies: a zero exponent gives one, whatever the base; a
zero base gives zero; the real exponents one half and minus one half go through the square root; a
whole real exponent of magnitude at most a hundred is applied by repeated squaring; and every other
power is the exponential of the exponent times the logarithm of the base.
-/

namespace Argand

namespace Complex

/-- The principal square root.  Only the larger of its parts is taken from a real square root; the
other is a quotient by it, so nothing cancels where the number is close to the real axis. -/
def sqrt (z : Complex) : Complex :=
  if z.isZero then zero
  else
    let b := z.im + .zero
    let t := (Binary64.midpoint z.re.abs (.hypot z.re b)).sqrt
    if Binary64.zero.le z.re then ⟨t, b / (.ofInt 2 * t)⟩
    else ⟨b.abs / (.ofInt 2 * t), t.copySign b⟩

def exp (z : Complex) : Complex :=
  let radius := z.re.exp
  ⟨radius * z.im.cos, radius * z.im.sin⟩

/-- The principal logarithm. -/
def ln (z : Complex) : Complex := ⟨z.abs.ln, z.arg⟩

/-- `result * base ^ n` by repeated squaring.  The base is not squared once it is used up. -/
def powLoop (base result : Complex) (n : Nat) : Complex :=
  if _h : n = 0 then result
  else
    let result := if n % 2 = 1 then result * base else result
    if n / 2 = 0 then result else powLoop (base * base) result (n / 2)
termination_by n

/-- The power with a whole exponent.  A negative one takes the reciprocal at the end. -/
def powInt (z : Complex) (k : Int) : Complex :=
  let power := powLoop z one k.natAbs
  if k < 0 then one / power else power

/-- The double one half. -/
def half : Binary64 := .round false Binary64.unitsPerOne 2

def pow (z w : Complex) : Complex :=
  if w.isZero then one
  else if z.isZero then zero
  else if w.im.isZero then
    if w.re.same half then z.sqrt
    else if w.re.same (-half) then one / z.sqrt
    else
      match w.re.integralExponent? with
      | some k => z.powInt k
      | none => (w * z.ln).exp
  else (w * z.ln).exp

instance : HPow Complex Complex Complex := ⟨pow⟩

end Complex

end Argand
