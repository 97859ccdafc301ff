/-!
Doubles as exact numbers.

A finite double is a sign and a magnitude, and the magnitude is counted in units of `2 ^ -1074`, the
spacing of the smallest doubles: every finite double is a whole number of them.  So `1` is
`2 ^ 1074` units, and the largest double is just below `2 ^ 2098` units.  A magnitude is
representable when it stays below that limit and its binary digits, the trailing zeros apart, fit
into 53 places.  There is one NaN, without sign or payload.

`place` puts a double on the number line, the infinities just outside the finite range; all
comparisons are read off it.  A zero of either sign has place `0`.
-/

namespace Argand

-- Powers are core's, also where a library has its own for every monoid.
attribute [instance (high)] instPowNat

/-- The number one is `2 ^ fractionBits` units. -/
def fractionBits : Nat := 1074

/-- A finite magnitude is below `2 ^ magnitudeBits` units. -/
def magnitudeBits : Nat := 2098

/-- A number of units that some finite double has as its magnitude. -/
def Representable (units : Nat) : Prop :=
  units < 2 ^ magnitudeBits ∧ 2 ^ (units.log2 - 52) ∣ units

instance (units : Nat) : Decidable (Representable units) :=
  inferInstanceAs (Decidable (_ ∧ _))

/-- A double: the NaN, an infinity, or a sign with a representable magnitude. -/
inductive Binary64 where
  | nan
  | inf (negative : Bool)
  | finite (negative : Bool) (units : Nat) (representable : Representable units)
deriving DecidableEq

namespace Binary64

/-! ## Zero and one -/

theorem representable_zero : Representable 0 :=
  ⟨Nat.two_pow_pos magnitudeBits, Nat.dvd_zero _⟩

/-- The zero without a sign bit. -/
def zero : Binary64 := finite false 0 representable_zero

/-- How many units make the number one. -/
def unitsPerOne : Nat := 2 ^ fractionBits

theorem unitsPerOne_pos : 0 < unitsPerOne := Nat.two_pow_pos fractionBits

instance : Inhabited Binary64 := ⟨zero⟩

/-! ## The number line -/

/-- A magnitude with its sign. -/
def signed (negative : Bool) (magnitude : Nat) : Int :=
  if negative then -(magnitude : Int) else magnitude

/-- Where a double stands on the number line, in units.  The infinities stand at the limit of the
finite range, and the NaN stands nowhere. -/
def place : Binary64 → Option Int
  | nan => none
  | inf negative => some (signed negative (2 ^ magnitudeBits))
  | finite negative units _ => some (signed negative units)

/-- The order of the number line.  The NaN is below nothing and above nothing. -/
def lt (x y : Binary64) : Bool :=
  match x.place, y.place with
  | some p, some q => decide (p < q)
  | _, _ => false

/-- The order of the number line, equal places included. -/
def le (x y : Binary64) : Bool :=
  match x.place, y.place with
  | some p, some q => decide (p ≤ q)
  | _, _ => false

/-- Both stand at the same place, or both are the NaN. -/
def same (x y : Binary64) : Bool :=
  decide (x.place = y.place)

/-- A zero of either sign. -/
def isZero (x : Binary64) : Bool :=
  decide (x.place = some 0)

def isNaN : Binary64 → Bool
  | nan => true
  | _ => false

def isFinite : Binary64 → Bool
  | finite _ _ _ => true
  | _ => false

/-! ## Signs -/

/-- The sign bit.  The NaN has none. -/
def isNegative : Binary64 → Bool
  | nan => false
  | inf negative => negative
  | finite negative _ _ => negative

/-- The sign turned round.  A zero changes its sign too. -/
def neg : Binary64 → Binary64
  | nan => nan
  | inf negative => inf (!negative)
  | finite negative units h => finite (!negative) units h

instance : Neg Binary64 := ⟨neg⟩

/-- The magnitude, as a double without a sign bit. -/
def abs : Binary64 → Binary64
  | nan => nan
  | inf _ => inf false
  | finite _ units h => finite false units h

/-- The magnitude of `x` with the sign bit of `y`. -/
def copySign (x y : Binary64) : Binary64 :=
  if y.isNegative then -x.abs else x.abs

end Binary64

end Argand
