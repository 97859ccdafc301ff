import Argand.Complex.Power
import Argand.Evaluation.Resolver
import Argand.Expression.Tree

/-!
The value of a tree.

The operands of a node are evaluated from left to right, and the first error ends the evaluation.
An environment holds the variables that have a value already; a variable that is not in it is asked
for once and then added, so no resolver is asked twice for one name.  Whatever the outcome, the
answers that were got stay in the environment.

An evaluation gives its result together with the environment and the resolver's state after it, and
the look-ups that were made, in order.
-/

namespace Argand

/-! ## Operators -/

def UnaryOperator.apply : UnaryOperator → Complex → Complex
  | sqrt, z => z.sqrt
  | conj, z => z.conj

/-- The value of a binary operator at the given column.  Only a division can fail, and only by a
zero divisor. -/
def BinaryOperator.apply (op : BinaryOperator) (z w : Complex) (column : Nat) :
    Except EvaluationError Complex :=
  match op with
  | add => .ok (z + w)
  | sub => .ok (z - w)
  | mul => .ok (z * w)
  | div => if w.isZero then .error (.divisionByZero column) else .ok (z / w)
  | pow => .ok (z.pow w)

/-! ## Evaluation -/

/-- The variables with a value, in the order in which they got it. -/
abbrev Environment := List (Char × Complex)

/-- How a variable got its value, or did not. -/
inductive Lookup where
  /-- The resolver was asked. -/
  | asked (name : Char) (answer : Except EvaluationError Complex)
  /-- The environment had the value. -/
  | known (name : Char) (value : Complex)

/-- What an evaluation gives and leaves. -/
structure Evaluation (σ : Type) where
  result : Except EvaluationError Complex
  environment : Environment
  state : σ
  lookups : List Lookup

variable {σ : Type}

/-- The value of a variable. -/
def resolve (resolver : Resolver σ) (name : Char) (environment : Environment) (state : σ) :
    Evaluation σ :=
  match environment.lookup name with
  | some value => ⟨.ok value, environment, state, [.known name value]⟩
  | none =>
    match resolver name state with
    | (.ok value, state) =>
      ⟨.ok value, environment ++ [(name, value)], state, [.asked name (.ok value)]⟩
    | (.error e, state) => ⟨.error e, environment, state, [.asked name (.error e)]⟩

/-- The value of a tree. -/
def Expr.eval (resolver : Resolver σ) : Expr → Environment → σ → Evaluation σ
  | literal value _, environment, state => ⟨.ok value, environment, state, []⟩
  | var name _, environment, state => resolve resolver name environment state
  | unary op operand _, environment, state =>
    let run := operand.eval resolver environment state
    { run with result := run.result.map op.apply }
  | binary op left right column, environment, state =>
    let first := left.eval resolver environment state
    match first.result with
    | .error _ => first
    | .ok z =>
      let second := right.eval resolver first.environment first.state
      { second with
        result := second.result.bind fun w => op.apply z w column
        lookups := first.lookups ++ second.lookups }

/-- The value of a tree without any variables known in advance. -/
def Expr.evaluate (tree : Expr) (resolver : Resolver σ) (state : σ) : Evaluation σ :=
  tree.eval resolver [] state

/-! ## The state of the resolver -/

theorem resolve_state_le (resolver : Resolver σ) (size : σ → Nat)
    (h : ∀ name state, size (resolver name state).2 ≤ size state)
    (name : Char) (environment : Environment) (state : σ) :
    size (resolve resolver name environment state).state ≤ size state := by
  have := h name state
  unfold resolve
  split
  · exact Nat.le_refl _
  · split <;> simp_all

/-- What no question makes larger, no evaluation makes larger. -/
theorem Expr.eval_state_le (resolver : Resolver σ) (size : σ → Nat)
    (h : ∀ name state, size (resolver name state).2 ≤ size state) (tree : Expr)
    (environment : Environment) (state : σ) :
    size (tree.eval resolver environment state).state ≤ size state := by
  induction tree generalizing environment state with
  | literal value column => exact Nat.le_refl _
  | var name column => exact resolve_state_le resolver size h name environment state
  | unary op operand column ih => exact ih environment state
  | binary op left right column ihl ihr =>
    unfold Expr.eval
    dsimp only
    split
    · exact ihl environment state
    · exact Nat.le_trans (ihr _ _) (ihl environment state)

end Argand
