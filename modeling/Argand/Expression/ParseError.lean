import Argand.Text.Quoted

/-!
Why a text is no expression.

Columns count the characters of the text from one, blanks included.
-/

namespace Argand

inductive ParseError where
  /-- The text ends where a number, a variable or a group has to stand. -/
  | endOfInput
  /-- A token stands where none of its kind can, or a run of digits and points is no number. -/
  | unexpectedToken (token : List Char) (column : Nat)
  /-- The group that opens at the column is never closed. -/
  | unclosedGroup (column : Nat)
  /-- The `conj` at the column has no group behind it. -/
  | conjWithoutGroup (column : Nat)
  /-- The group of the `conj` at the column is never closed. -/
  | unclosedConj (column : Nat)
  /-- The expression is complete and more tokens follow. -/
  | trailingTokens (token : List Char) (column : Nat)
  /-- The character begins no token. -/
  | unrecognizedCharacter (character : Char) (column : Nat)
deriving DecidableEq

def ParseError.message : ParseError → String
  | endOfInput => "Incomplete expression."
  | unexpectedToken token column =>
    s!"Error at column {column}: Unexpected token: {String.ofList token}."
  | unclosedGroup column => s!"Error at column {column}: Parenthesis is never closed."
  | conjWithoutGroup column => s!"Error at column {column}: Expected '(' after conj."
  | unclosedConj column => s!"Error at column {column}: conj( is never closed."
  | trailingTokens token column =>
    s!"Error at column {column}: Extra tokens after expression, starting with: {String.ofList token}"
  | unrecognizedCharacter character column =>
    s!"Error at column {column}: Unrecognized character {String.ofList (Text.quotedChar character)}."

end Argand
