import Argand.Expression.ParseError

/-!
Why an expression has no value, and why a text has none.
-/

namespace Argand

/-- Why the evaluation of a tree stopped. -/
inductive EvaluationError where
  /-- The divisor of the division at the column is zero. -/
  | divisionByZero (column : Nat)
  /-- No value could be had for a variable. -/
  | unresolved (name : Char) (reason : String)
deriving DecidableEq

def EvaluationError.message : EvaluationError → String
  | divisionByZero column => s!"Error at column {column}: Division by zero."
  | unresolved name reason =>
    "Could not resolve variable '" ++ String.singleton name ++ "': " ++ reason ++ "."

/-- Why a text has no value: it is no expression, or its evaluation stopped. -/
inductive Failure where
  | parse (error : ParseError)
  | evaluation (error : EvaluationError)
deriving DecidableEq

def Failure.message : Failure → String
  | parse error => error.message
  | evaluation error => error.message

end Argand
