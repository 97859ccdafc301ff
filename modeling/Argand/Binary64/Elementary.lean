import Argand.Binary64.Arithmetic

/-!
The exponential, the natural logarithm, sine, cosine and the angle of a point.

They are computed on fixed-point numbers with `workingBits` binary places, which hold every double
exactly, and rounded once at the end.  The series are nested: a sum `a₀ + q (a₁ + q (a₂ + …))` is
folded from its innermost term outwards.  After reduction their arguments are small enough that the
terms given leave at least two hundred bits beyond those of a double.

What does not depend on the approximations is read off the case distinctions: the exponential and
the cosine do not see the sign of a zero, the sine keeps it, and the angle of a point off the real
axis does not depend on the sign of a zero first coordinate.
-/

namespace Argand

namespace Binary64

/-! ## Fixed-point numbers -/

/-- Binary places after the point.  The largest double shifted by as many still leaves five hundred
correct places after a reduction by a multiple of π. -/
def workingBits : Nat := 1536

/-- The fixed-point number one. -/
def scale : Nat := 2 ^ workingBits

/-- How many fixed-point steps make one unit of a double. -/
def stepsPerUnit : Nat := 2 ^ (workingBits - fractionBits)

/-- The double nearest to a fixed-point number. -/
def ofFixed (negative : Bool) (steps : Nat) : Binary64 :=
  round negative steps stepsPerUnit

/-- Folds the nested series whose `k`-th bracket is `bracket k`, from `terms - 1` down to `0`. -/
def nested (terms : Nat) (innermost : Nat) (bracket : Nat → Nat → Nat) : Nat :=
  (List.range terms).foldr bracket innermost

/-! ## Constants -/

/-- The angle whose tangent is `1 / n`. -/
def arctanInverse (n : Nat) : Nat :=
  nested 340 0 (fun k inner => scale / (2 * k + 1) - inner / (n * n)) / n

/-- The number π, from two angles with whole inverse tangents. -/
def pi : Nat := 16 * arctanInverse 5 - 4 * arctanInverse 239

/-- The logarithm of a fixed-point number between one and two: twice the inverse hyperbolic tangent
of `(m - 1) / (m + 1)`. -/
def lnMantissa (m : Nat) : Nat :=
  let z := (m - scale) * scale / (m + scale)
  let q := z * z / scale
  2 * (z * nested 160 0 (fun k inner => scale / (2 * k + 1) + q * inner / scale) / scale)

def lnTwo : Nat := lnMantissa (2 * scale)

/-! ## Exponential and logarithm -/

/-- The exponential of a fixed-point number between zero and one. -/
def expFraction (r : Nat) : Nat :=
  nested 100 scale fun k inner => scale + r * inner / ((k + 1) * scale)

/-- The exponential.  From two thousand on it is beyond the range of doubles on either side;
otherwise a multiple of the logarithm of two is taken off and becomes a power of two. -/
def exp : Binary64 → Binary64
  | nan => nan
  | inf negative => if negative then zero else inf false
  | finite negative units _ =>
    if 2000 * unitsPerOne ≤ units then
      if negative then zero else inf false
    else
      let x := signed negative (units * stepsPerUnit)
      let k := x / lnTwo
      let e := expFraction (x % lnTwo).toNat
      round false (e * 2 ^ k.toNat) (stepsPerUnit * 2 ^ (-k).toNat)

/-- The natural logarithm. -/
def ln : Binary64 → Binary64
  | nan => nan
  | inf negative => if negative then nan else inf false
  | finite negative units _ =>
    if units = 0 then inf true
    else if negative then nan
    else
      let k := units.log2
      roundSigned false
        (((k : Int) - fractionBits) * lnTwo + lnMantissa (units * scale / 2 ^ k)) stepsPerUnit

/-! ## Sine and cosine -/

/-- The sine of a fixed-point angle of at most π / 4. -/
def sinFraction (r : Nat) : Nat :=
  let q := r * r / scale
  r * nested 40 scale
    (fun k inner => scale - q * inner / ((2 * k + 2) * (2 * k + 3) * scale)) / scale

/-- The cosine of a fixed-point angle of at most π / 4. -/
def cosFraction (r : Nat) : Nat :=
  let q := r * r / scale
  nested 40 scale fun k inner => scale - q * inner / ((2 * k + 1) * (2 * k + 2) * scale)

/-- The sine of a fixed-point angle in the first quadrant. -/
def sinQuadrant (r : Nat) : Nat :=
  if 4 * r ≤ pi then sinFraction r else cosFraction (pi / 2 - r)

/-- The sine of an angle that is a number of quarter turns and a rest: its sign and magnitude. -/
def sinTurned (quarters rest : Nat) : Bool × Nat :=
  (2 ≤ quarters % 4,
    if quarters % 2 = 0 then sinQuadrant rest else sinQuadrant (pi / 2 - rest))

def sin : Binary64 → Binary64
  | finite negative units _ =>
    let x := units * stepsPerUnit
    let (below, magnitude) := sinTurned (x / (pi / 2)) (x % (pi / 2))
    ofFixed (negative != below) magnitude
  | _ => nan

/-- The cosine is the sine a quarter turn further on. -/
def cos : Binary64 → Binary64
  | finite _ units _ =>
    let x := units * stepsPerUnit
    let (below, magnitude) := sinTurned (x / (pi / 2) + 1) (x % (pi / 2))
    ofFixed below magnitude
  | _ => nan

/-! ## The angle of a point -/

/-- The angle whose tangent is `low / high`, for `low` at most `high`, as a fraction: an exact
factor times a series that is close to one, so a tiny angle is as exact as any other. -/
def arctanFraction (low high : Nat) : Nat × Nat :=
  let hypotenuse := low * low + high * high
  let q := low * low * scale / hypotenuse
  let series := nested 320 scale fun k inner =>
    scale + (2 * k + 2) * q * inner / ((2 * k + 3) * scale)
  (low * high * series, hypotenuse * scale)

/-- The double nearest to `n / d` of a full unit. -/
def ofFraction (negative : Bool) (n d : Nat) : Binary64 :=
  round negative (n * unitsPerOne) d

/-- The angle, between −π and π, under which the point with coordinates `x` and `y` is seen from the
origin.  The sign of a zero `y` tells the two sides of the real axis apart. -/
def atan2 : (y x : Binary64) → Binary64
  | nan, _ => nan
  | _, nan => nan
  | inf s, inf t => ofFraction s (if t then 3 * pi else pi) (4 * scale)
  | inf s, finite _ _ _ => ofFraction s pi (2 * scale)
  | finite s _ _, inf t => ofFraction s (if t then pi else 0) scale
  | finite s v _, finite t u _ =>
    if v = 0 then ofFraction s (if t then pi else 0) scale
    else if v ≤ u then
      let (n, d) := arctanFraction v u
      if t then ofFraction s (pi * d - n * scale) (d * scale) else ofFraction s n d
    else
      let (n, d) := arctanFraction u v
      ofFraction s (if t then pi * d + 2 * n * scale else pi * d - 2 * n * scale)
        (2 * d * scale)

end Binary64

end Argand
