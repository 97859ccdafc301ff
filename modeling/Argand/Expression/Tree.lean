import Argand.Complex.Literal

/-!
Expression trees.

A tree has numbers and variables at its leaves and operators at its nodes.  Every node carries the
column of the text that it was read from: that of a leaf, of the operator of a binary node, and of
the function of a unary one.  The columns serve the error messages and change no value.

`Expr.text` is the printed form: the operator first and its operands behind it, in parentheses, and
the bare number or name at a leaf.
-/

namespace Argand

inductive UnaryOperator where
  | sqrt
  | conj
deriving DecidableEq

inductive BinaryOperator where
  | add
  | sub
  | mul
  | div
  | pow
deriving DecidableEq

/-- An expression tree. -/
inductive Expr where
  | literal (value : Complex) (column : Nat)
  | var (name : Char) (column : Nat)
  | unary (op : UnaryOperator) (operand : Expr) (column : Nat)
  | binary (op : BinaryOperator) (left right : Expr) (column : Nat)
deriving DecidableEq

/-! ## Printed form -/

def UnaryOperator.text : UnaryOperator → List Char
  | sqrt => ['√']
  | conj => ['c', 'o', 'n', 'j']

def BinaryOperator.text : BinaryOperator → List Char
  | add => ['+']
  | sub => ['-']
  | mul => ['*']
  | div => ['/']
  | pow => ['*', '*']

namespace Expr

def text : Expr → List Char
  | literal value _ => value.text
  | var name _ => [name]
  | unary op operand _ => '(' :: op.text ++ ' ' :: operand.text ++ [')']
  | binary op left right _ => '(' :: op.text ++ ' ' :: left.text ++ ' ' :: right.text ++ [')']

instance : ToString Expr := ⟨fun t => String.ofList t.text⟩

/-! ## Columns and variables -/

/-- The column of the root. -/
def column : Expr → Nat
  | literal _ column => column
  | var _ column => column
  | unary _ _ column => column
  | binary _ _ _ column => column

/-- The names of the variables, each once, in the order in which an evaluation from left to right
first comes to them. -/
def variableNames : Expr → List Char
  | literal _ _ => []
  | var name _ => [name]
  | unary _ operand _ => operand.variableNames
  | binary _ left right _ =>
    let names := left.variableNames
    names ++ right.variableNames.filter fun name => name ∉ names

end Expr

end Argand
