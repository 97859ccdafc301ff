import Argand.Decimal.Basic

/-!
Reading doubles.

A numeral is digits with at most one point among, before or behind them, and then possibly an
exponent: an `e` of either case and a whole number, which may have a sign.  At least one digit must
stand before the exponent and at least one in it.  A double is a numeral, or one of the words `inf`,
`infinity` and `nan` in any case, with a sign in front or without one.  Nothing else is read, blanks
included.
-/

namespace Argand

namespace Decimal

/-- A text of digits only, and at least one. -/
def natural? (text : List Char) : Option Nat :=
  if text ≠ [] ∧ text.all Char.isDigit then some (Nat.ofDigitChars 10 text 0) else none

/-- A natural number with a sign in front or without one. -/
def integer? : List Char → Option Int
  | '+' :: text => (natural? text).map fun n => (n : Int)
  | '-' :: text => (natural? text).map fun n => -(n : Int)
  | text => (natural? text).map fun n => (n : Int)

/-- The exponent that a numeral ends in; none at all counts as zero. -/
def exponent? : List Char → Option Int
  | [] => some 0
  | c :: text => if c = 'e' ∨ c = 'E' then integer? text else none

/-- The numeral with the given digits before the point, digits behind it, and exponent text. -/
def assemble? (whole fraction exponent : List Char) : Option Decimal :=
  if whole = [] ∧ fraction = [] then none
  else (exponent? exponent).map fun e =>
    ⟨Nat.ofDigitChars 10 (whole ++ fraction) 0, e - fraction.length⟩

/-- A numeral without a sign. -/
def ofText? (text : List Char) : Option Decimal :=
  let whole := text.takeWhile Char.isDigit
  match text.dropWhile Char.isDigit with
  | '.' :: rest => assemble? whole (rest.takeWhile Char.isDigit) (rest.dropWhile Char.isDigit)
  | rest => assemble? whole [] rest

end Decimal

namespace Binary64

/-- A double without a sign in front, to which the given sign is applied. -/
def unsigned? (negative : Bool) (text : List Char) : Option Binary64 :=
  let word := text.map Char.toLower
  if word = "inf".toList ∨ word = "infinity".toList then some (inf negative)
  else if word = "nan".toList then some nan
  else (Decimal.ofText? text).map (Decimal.toBinary64 negative)

/-- A double in writing. -/
def ofText? : List Char → Option Binary64
  | '+' :: text => unsigned? false text
  | '-' :: text => unsigned? true text
  | text => unsigned? false text

end Binary64

end Argand
