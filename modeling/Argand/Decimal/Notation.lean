import Argand.Decimal.Shortest

/-!
The written form of a double: the shortest digits with a point where it belongs and no exponent,
however large or small the number; an integral number has no fraction.  It keeps the sign of a zero,
and writes `inf`, `-inf` and `NaN`.
-/

namespace Argand

namespace Decimal

/-- The digits with the point in its place, and zeros up to it where there are no digits. -/
def positional (d : Decimal) : List Char :=
  match d.exponent with
  | .ofNat e => d.digits ++ List.replicate e '0'
  | .negSucc e =>
    let places := e + 1
    let padded := List.replicate (places + 1 - d.digits.length) '0' ++ d.digits
    let whole := padded.length - places
    padded.take whole ++ '.' :: padded.drop whole

end Decimal

namespace Binary64

/-- A double in writing, given how to write a magnitude. -/
def written (magnitude : Nat → List Char) : Binary64 → List Char
  | nan => "NaN".toList
  | inf negative => (if negative then ['-'] else []) ++ "inf".toList
  | finite negative units _ => (if negative then ['-'] else []) ++ magnitude units

def positional : Binary64 → List Char :=
  written fun units => (Decimal.shortest units).positional

end Binary64

end Argand
