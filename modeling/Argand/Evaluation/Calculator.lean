import Argand.Evaluation.Evaluate
import Argand.Expression.Parse

/-!
A calculator: a tree with an environment of its own.

The environment lives as long as the calculator, so a second evaluation asks only for the variables
that the first one did not come to or got no value for.
-/

namespace Argand

structure Calculator where
  tree : Expr
  environment : Environment

namespace Calculator

/-- A calculator that knows no variable yet. -/
def ofTree (tree : Expr) : Calculator := ⟨tree, []⟩

def ofText (mode : Mode) (source : List Char) : Except ParseError Calculator :=
  (parse mode source).map ofTree

variable {σ : Type}

/-- Evaluates the tree with the variables known so far. -/
def evaluate (calculator : Calculator) (resolver : Resolver σ) (state : σ) : Evaluation σ :=
  calculator.tree.eval resolver calculator.environment state

/-- The calculator after an evaluation. -/
def after (calculator : Calculator) (run : Evaluation σ) : Calculator :=
  { calculator with environment := run.environment }

end Calculator

/-- The value of a text with a resolver, from an empty environment. -/
def valueOf {σ : Type} (mode : Mode) (source : List Char) (resolver : Resolver σ) (state : σ) :
    Except Failure Complex :=
  match parse mode source with
  | .error e => .error (.parse e)
  | .ok tree => (tree.evaluate resolver state).result.mapError .evaluation

end Argand
