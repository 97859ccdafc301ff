import Argand.Complex.Comparison
import Argand.Evaluation.Calculator
import Argand.Shell.CommandLine
import Argand.Shell.Terminal

/-!
The calculator at a terminal.

With expressions on the command line it runs once: it shows the tree and the value of each and,
where there are two, compares the values.  Without any it runs a session of rounds, each with an
expression and possibly a second one to compare it with; an error ends its round only.  The session
ends with the word `sair`, with the input, or with a line that cannot be read as text.

Every round takes at least one line from the input (`length_round_lt`), so every session ends.
-/

namespace Argand

namespace Shell

/-- What a run reports to its caller: zero, unless it failed. -/
abbrev ExitCode := UInt32

/-! ## One or two expressions -/

/-- Evaluates an expression with values prompted for, and shows its tree and value. -/
def evaluateShown (mode : Mode) (index : Nat) (source : List Char) (terminal : Terminal) :
    Except Failure Complex × Terminal :=
  match parse mode source with
  | .error e => (.error (.parse e), terminal)
  | .ok tree =>
    let run := tree.evaluate Terminal.resolver terminal
    match run.result with
    | .error e => (.error (.evaluation e), run.state)
    | .ok value =>
      (.ok value, run.state.write s!"Tree {index}: {tree}\nResult {index}: {value}\n")

/-- Shows one expression, or two and whether they are equivalent. -/
def calculate (options : Options) (first : List Char) (second : Option (List Char))
    (terminal : Terminal) : Except Failure Unit × Terminal :=
  match evaluateShown options.mode 1 first terminal with
  | (.error e, terminal) => (.error e, terminal)
  | (.ok z, terminal) =>
    match second with
    | none => (.ok (), terminal)
    | some second =>
      match evaluateShown options.mode 2 second terminal with
      | (.error e, terminal) => (.error e, terminal)
      | (.ok w, terminal) =>
        (.ok (), terminal.write
          s!"The expressions are {z.compare w options.tolerance}.\n")

def showFailure (e : Failure) (terminal : Terminal) : Terminal :=
  terminal.write s!"Error: {e.message}\n"

/-- A run with the expressions of the command line. -/
def runOnce (options : Options) (first : List Char) (second : Option (List Char))
    (terminal : Terminal) : ExitCode × Terminal :=
  match calculate options first second terminal with
  | (.ok _, terminal) => (0, terminal)
  | (.error e, terminal) => (1, showFailure e terminal)

/-! ## Sessions -/

/-- What a session begins with. -/
def banner : String :=
  "=== Complex number calculator ===\n" ++
  "Operators: +, -, *, /, **\n" ++
  "Functions: conj(expr), √(expr)\n" ++
  "Use i for the imaginary unit. Example: (1+2i)*(3-4i)\n" ++
  "Type 'sair' to quit.\n\n"

/-- The text between the blanks of a line that is there and has any. -/
def content : Line → Option (List Char)
  | .text line =>
    let text := Text.trimmed line
    if text = [] then none else some text
  | _ => none

/-- Whether a text is the word that ends a session. -/
def isFarewell (text : List Char) : Bool :=
  text.map Char.toLower = "sair".toList

/-- What the lines at the beginning of a round ask for. -/
inductive Request where
  | stop (code : ExitCode)
  | skip
  | calculate (first : List Char) (second : Option (List Char))

/-- Prompts for the expressions of a round, for a second one only behind a first one. -/
def request (terminal : Terminal) : Request × Terminal :=
  match (terminal.write "Expression 1: ").readLine with
  | (.ended, terminal) => (.stop 0, terminal)
  | (.malformed, terminal) => (.stop 1, terminal)
  | (.text line, terminal) =>
    match content (.text line) with
    | none => (.skip, terminal)
    | some first =>
      if isFarewell first then (.stop 0, terminal)
      else
        match (terminal.write "Expression 2 (press ENTER to skip comparison): ").readLine with
        | (.malformed, terminal) => (.stop 1, terminal)
        | (line, terminal) => (.calculate first (content line), terminal)

/-- One round of a session; gives a code where it ends the session. -/
def round (options : Options) (terminal : Terminal) : Option ExitCode × Terminal :=
  match request terminal with
  | (.stop code, terminal) => (some code, terminal)
  | (.skip, terminal) => (none, terminal)
  | (.calculate first second, terminal) =>
    match calculate options first second terminal with
    | (.ok _, terminal) => (none, terminal.write "\n")
    | (.error e, terminal) => (none, (showFailure e terminal).write "\n")

/-! ## Every session ends -/

theorem length_evaluateShown_le (mode : Mode) (index : Nat) (source : List Char)
    (terminal : Terminal) :
    (evaluateShown mode index source terminal).2.unread.length ≤ terminal.unread.length := by
  unfold evaluateShown
  split
  · exact Nat.le_refl _
  · next tree _ =>
    have := Expr.eval_state_le Terminal.resolver (fun t => t.unread.length)
      Terminal.length_resolver_le tree [] terminal
    dsimp only
    split <;> exact this

theorem length_calculate_le (options : Options) (first : List Char) (second : Option (List Char))
    (terminal : Terminal) :
    (calculate options first second terminal).2.unread.length ≤ terminal.unread.length := by
  have h₁ := length_evaluateShown_le options.mode 1 first terminal
  unfold calculate
  split
  · next h => simpa only [h] using h₁
  · next t h =>
    rw [h] at h₁
    split
    · exact h₁
    · next second =>
      have h₂ := Nat.le_trans (length_evaluateShown_le options.mode 2 second t) h₁
      split
      · next h' => simpa only [h'] using h₂
      · next h' => simpa only [h', Terminal.write_unread] using h₂

/-- A round that is not asked to stop has taken input. -/
theorem length_request_lt {terminal terminal' : Terminal} {asked : Request}
    (h : request terminal = (asked, terminal')) (hasked : ∀ code, asked ≠ .stop code) :
    terminal'.unread.length < terminal.unread.length := by
  unfold request at h
  split at h
  · cases h
    exact absurd rfl (hasked 0)
  · cases h
    exact absurd rfl (hasked 1)
  · next line t hl =>
    have hlt : t.unread.length < terminal.unread.length := by
      have := Terminal.length_readLine_lt (terminal.write "Expression 1: ") (by simp [hl])
      simpa only [hl, Terminal.write_unread] using this
    split at h
    · cases h
      exact hlt
    · split at h
      · cases h
        exact absurd rfl (hasked 0)
      · have hle := Terminal.length_readLine_le
          (t.write "Expression 2 (press ENTER to skip comparison): ")
        split at h
        · cases h
          exact absurd rfl (hasked 1)
        · next hl' =>
          cases h
          rw [hl', Terminal.write_unread] at hle
          exact Nat.lt_of_le_of_lt hle hlt

/-- A round that does not end the session has taken input. -/
theorem length_round_lt {options : Options} {terminal terminal' : Terminal}
    (h : round options terminal = (none, terminal')) :
    terminal'.unread.length < terminal.unread.length := by
  unfold round at h
  split at h
  · cases h
  · next hr =>
    cases h
    exact length_request_lt hr nofun
  · next first second t hr =>
    have hlt := length_request_lt hr nofun
    have hle := length_calculate_le options first second t
    split at h
    · next hc =>
      cases h
      rw [hc] at hle
      exact Nat.lt_of_le_of_lt hle hlt
    · next hc =>
      cases h
      rw [hc] at hle
      exact Nat.lt_of_le_of_lt hle hlt

/-- A session from some round on. -/
def session (options : Options) (terminal : Terminal) : ExitCode × Terminal :=
  match _h : round options terminal with
  | (some code, terminal) => (code, terminal)
  | (none, terminal) => session options terminal
termination_by terminal.unread.length
decreasing_by exact length_round_lt _h

/-! ## Runs -/

/-- A run of the whole program: what it writes, and its code.  A command line that is not
well-formed is an error without any output.  One that asks for help or for the version counts as
such here (see `Argand.Shell.CommandLine`), as it comes to neither a calculation nor a session. -/
def run (arguments : List (List Char)) (input : List UInt8) : String × ExitCode :=
  match CommandLine.ofArguments? arguments with
  | none => ("", 2)
  | some (options, expressions) =>
    let (code, terminal) := match expressions with
      | [] => session options ((Terminal.ofBytes input).write banner)
      | first :: rest => runOnce options first rest.head? (Terminal.ofBytes input)
    (terminal.written, code)

end Shell

end Argand
