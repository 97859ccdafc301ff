import Argand.Complex.Basic
import Argand.Decimal.Notation
import Argand.Decimal.Numeral
import Argand.Text.Blank

/-!
Complex numbers in writing.

A number is written as `a`, `bi`, `a+bi` or `a-bi`: a part that is zero is left out, and both being
zero is written `0`.  No zero shows its sign.

The reader takes the same forms and a few more.  It drops all blanks first.  A text that does not
end in `i` is a double.  Otherwise the imaginary part begins at the last sign that is neither the
first character nor the sign of an exponent; without such a sign it is the whole text.  An imaginary
part of no digits, just a sign or nothing, stands for one or minus one.
-/

namespace Argand

namespace Complex

/-! ## Writing -/

/-- A number in writing. -/
def text (z : Complex) : List Char :=
  let re := z.re + .zero
  let im := z.im + .zero
  if im.isZero then re.positional
  else if re.isZero then im.positional ++ ['i']
  else if im.lt .zero then re.positional ++ '-' :: (-im).positional ++ ['i']
  else re.positional ++ '+' :: im.positional ++ ['i']

instance : ToString Complex := ⟨fun z => String.ofList z.text⟩

/-! ## Reading -/

/-- A text was refused that is not a complex number. -/
structure LiteralError where
  /-- The text, without the blanks at its ends. -/
  refused : List Char
deriving DecidableEq

def LiteralError.message (e : LiteralError) : String :=
  "'" ++ String.ofList e.refused ++ "' is not a complex number"

def isSign (c : Char) : Bool := c = '+' || c = '-'

/-- Splits a text before its last sign that is not the first character and does not follow the mark
of an exponent. -/
def splitAtSign? : List Char → Option (List Char × List Char)
  | a :: b :: rest =>
    match splitAtSign? (b :: rest) with
    | some (front, back) => some (a :: front, back)
    | none => if isSign b ∧ a ≠ 'e' ∧ a ≠ 'E' then some ([a], b :: rest) else none
  | _ => none

/-- A split text is its two parts, one behind the other. -/
theorem append_of_splitAtSign? {text front back : List Char}
    (h : splitAtSign? text = some (front, back)) : front ++ back = text := by
  fun_induction splitAtSign? text generalizing front back with
  | case1 a b rest front' back' h' ih =>
    obtain ⟨rfl, rfl⟩ : a :: front' = front ∧ back' = back := by simpa using h
    simp [ih h']
  | case2 a b rest h' hs =>
    obtain ⟨rfl, rfl⟩ : [a] = front ∧ b :: rest = back := by simpa using h
    rfl
  | case3 => contradiction
  | case4 => contradiction

/-- The number of imaginary units. -/
def imaginary? (text : List Char) : Option Binary64 :=
  if text = [] ∨ text = ['+'] then some .one
  else if text = ['-'] then some (-.one)
  else Binary64.ofText? text

/-- The number that a text without blanks stands for. -/
def ofCompact? (text : List Char) : Option Complex :=
  if text.getLast? = some 'i' then
    let body := text.dropLast
    match splitAtSign? body with
    | some (front, back) =>
      (Binary64.ofText? front).bind fun re => (imaginary? back).map fun im => ⟨re, im⟩
    | none => (imaginary? body).map fun im => ⟨.zero, im⟩
  else (Binary64.ofText? text).map ofReal

/-- Reads a number in writing. -/
def ofText (text : List Char) : Except LiteralError Complex :=
  match ofCompact? (Text.withoutBlanks text) with
  | some z => .ok z
  | none => .error ⟨Text.trimmed text⟩

end Complex

end Argand
