import Argand.Evaluation.Journal
import Argand.Shell.Session

/-!
What a run reports of its steps.

A calculation has the journal of its first expression and, if that one has a value, the journal of
its second one.  With `--verbose` their notices are lines of the error stream, but not those that
are for tracing: tokens and trees stay silent.
-/

namespace Argand

namespace Shell

/-- The notices of a calculation whose answers come from a terminal. -/
def noticesOfCalculation (options : Options) (first : List Char) (second : Option (List Char))
    (terminal : Terminal) : List Notice :=
  let notices (source : List Char) := noticesOf options.mode source true Terminal.resolver
  let behind := match evaluateShown options.mode 1 first terminal, second with
    | (.ok _, terminal), some second => notices second terminal
    | _, _ => []
  notices first terminal ++ behind

/-- The notices of a round; it has none if it comes to no calculation. -/
def noticesOfRound (options : Options) (terminal : Terminal) : List Notice :=
  match request terminal with
  | (.calculate first second, terminal) => noticesOfCalculation options first second terminal
  | _ => []

/-- The lines of the error stream. -/
def reports (options : Options) (notices : List Notice) : List String :=
  if options.verbose then
    (notices.filter (·.level = .debug)).map fun n => s!"[{n.level.word}] {n.message}"
  else []

end Shell

end Argand
