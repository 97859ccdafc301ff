import Argand.Expression.Tree
import Argand.Text.Quoted

/-!
Tokens, the words that expressions are made of.

A number token is a run of digits and points as it was written; whether it is a number shows only
when it is converted.  The letter `i` is an identifier here like any other.
-/

namespace Argand

inductive Token where
  | number (lexeme : List Char)
  | identifier (name : Char)
  | conj
  | power
  | plus
  | minus
  | star
  | slash
  | radical
  | opening
  | closing
deriving DecidableEq

namespace Token

/-- A token as it is written in an expression. -/
def text : Token → List Char
  | number lexeme => lexeme
  | identifier name => [name]
  | conj => ['c', 'o', 'n', 'j']
  | power => ['*', '*']
  | plus => ['+']
  | minus => ['-']
  | star => ['*']
  | slash => ['/']
  | radical => ['√']
  | opening => ['(']
  | closing => [')']

/-- The binary operator that a token stands for. -/
def operator? : Token → Option BinaryOperator
  | plus => some .add
  | minus => some .sub
  | star => some .mul
  | slash => some .div
  | power => some .pow
  | _ => none

/-- A plus or a minus. -/
def isSign (t : Token) : Bool :=
  t = plus || t = minus

/-- A token by its class, with what it holds in quotes. -/
def described : Token → String
  | number lexeme => "Number(" ++ String.ofList (Text.quotedText lexeme) ++ ")"
  | identifier name => "Identifier(" ++ String.ofList (Text.quotedChar name) ++ ")"
  | conj => "Conj"
  | power => "DoubleStar"
  | plus => "Plus"
  | minus => "Minus"
  | star => "Star"
  | slash => "Slash"
  | radical => "Radical"
  | opening => "LParen"
  | closing => "RParen"

end Token

/-- A token with the column at which it begins. -/
structure Placed where
  token : Token
  column : Nat
deriving DecidableEq

end Argand
