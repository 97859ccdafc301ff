import Argand.Text.Printable

/-!
Characters and texts in quotes.

Inside the quotes the line and tab controls, the zero character, the backslash and the quote itself
are written with a backslash, and every other character that cannot be shown as it is by its code
point in hexadecimal digits.  The other kind of quote stands as it is.
-/

namespace Argand

namespace Text

/-- A character by its code point. -/
def codePoint (c : Char) : List Char :=
  '\\' :: 'u' :: '\x7b' :: (Nat.toDigits 16 c.toNat ++ ['\x7d'])

/-- A character as it stands between two of the given quotes. -/
def escaped (quote c : Char) : List Char :=
  if c = '\x00' then ['\\', '0']
  else if c = '\t' then ['\\', 't']
  else if c = '\r' then ['\\', 'r']
  else if c = '\n' then ['\\', 'n']
  else if c = '\\' ∨ c = quote then ['\\', c]
  else if isPrintable c then [c]
  else codePoint c

/-- A character in single quotes. -/
def quotedChar (c : Char) : List Char :=
  '\'' :: (escaped '\'' c ++ ['\''])

/-- A text in double quotes. -/
def quotedText (text : List Char) : List Char :=
  '"' :: (text.flatMap (escaped '"') ++ ['"'])

end Text

end Argand
