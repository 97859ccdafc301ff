import Argand.Binary64.Elementary

/-!
Complex numbers with doubles as their two parts, and their arithmetic.

A product or a quotient fuses one of its two products into the sum: each part is a product rounded
on its own, and then one rounding for the other product and the sum together.  The parts of a
quotient are divided by the rounded square of the divisor's magnitude; nothing here keeps the
divisor from being zero.
-/

namespace Argand

structure Complex where
  re : Binary64
  im : Binary64
deriving DecidableEq

namespace Complex

/-- A double as a complex number. -/
def ofReal (x : Binary64) : Complex := ⟨x, .zero⟩

def zero : Complex := ofReal .zero

def one : Complex := ofReal .one

/-- The imaginary unit. -/
def i : Complex := ⟨.zero, .one⟩

instance : Inhabited Complex := ⟨zero⟩

/-! ## Equality -/

/-- Equal as numbers: the parts stand at the same places, so a zero equals the zero of the other
sign and the NaN equals itself. -/
def same (z w : Complex) : Bool :=
  z.re.same w.re && z.im.same w.im

/-- Both parts are zeros, of either sign. -/
def isZero (z : Complex) : Bool :=
  z.re.isZero && z.im.isZero

/-! ## Arithmetic -/

def add (z w : Complex) : Complex := ⟨z.re + w.re, z.im + w.im⟩

instance : Add Complex := ⟨add⟩

def sub (z w : Complex) : Complex := ⟨z.re - w.re, z.im - w.im⟩

instance : Sub Complex := ⟨sub⟩

def mul (z w : Complex) : Complex where
  re := .fma z.re w.re (-(z.im * w.im))
  im := .fma z.re w.im (z.im * w.re)

instance : Mul Complex := ⟨mul⟩

def div (z w : Complex) : Complex :=
  let square := Binary64.fma w.re w.re (w.im * w.im)
  { re := .fma z.re w.re (z.im * w.im) / square
    im := .fma z.im w.re (-(z.re * w.im)) / square }

instance : Div Complex := ⟨div⟩

/-- The number reflected in the real axis. -/
def conj (z : Complex) : Complex := ⟨z.re, -z.im⟩

/-- The magnitude. -/
def abs (z : Complex) : Binary64 := .hypot z.re z.im

/-- The angle, in `(-π, π]`.  A zero imaginary part counts as the one without a sign, so the
negative real axis is at `π`. -/
def arg (z : Complex) : Binary64 := .atan2 (z.im + .zero) z.re

end Complex

end Argand
