import Argand.Complex.Basic
import Argand.Evaluation.Error

/-!
Where the values of variables come from.

A resolver is asked for a name and answers with a value or an error.  It may keep a state from one
question to the next, so the same question can get different answers.
-/

namespace Argand

/-- Something that can be asked for the values of variables, with a state of type `σ`. -/
abbrev Resolver (σ : Type) := Char → σ → Except EvaluationError Complex × σ

namespace Resolver

/-- Answers from a fixed table, and fails for the names that it does not hold. -/
def ofTable (table : List (Char × Complex)) : Resolver Unit := fun name state =>
  match table.lookup name with
  | some value => (.ok value, state)
  | none => (.error (.unresolved name "no value given"), state)

/-- What a list of prepared answers has left, and the names asked for so far. -/
structure Prepared where
  answers : List Complex
  calls : List Char

/-- Gives prepared answers in order, whatever the name, and notes the names. -/
def ofAnswers : Resolver Prepared := fun name state =>
  let calls := state.calls ++ [name]
  match state.answers with
  | value :: rest => (.ok value, ⟨rest, calls⟩)
  | [] => (.error (.unresolved name "no more answers"), ⟨[], calls⟩)

end Resolver

end Argand
