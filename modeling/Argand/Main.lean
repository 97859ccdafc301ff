import Argand.Shell.Report

/-!
The program.

Everything is decided in `Argand.Shell`; here are the standard streams.  A part of the dialogue, one
round or a single run, is computed from the lines that are there.  If it asks for one more, what it
shows up to that point is printed, the line is fetched, and the part is computed again.  What there
is to report of a part follows on the error stream when the part is over.
-/

open Argand

namespace Argand.Main

/-- The bytes of the next line, or none at the end of the input. -/
partial def nextLine (input : IO.FS.Stream) : IO (List UInt8) := do
  let bytes := (← input.read 1).toList
  if bytes = [] ∨ bytes = [Text.lineEnd] then pure bytes
  else pure (bytes ++ (← nextLine input))

/-- Prints a text from a position on. -/
def printFrom (output : IO.FS.Stream) (position : Nat) (text : String) : IO Unit := do
  output.putStr (String.ofList (text.toList.drop position))
  output.flush

/-- Carries out a part of the dialogue.  The first `shown` characters of it are printed already.
Gives what came of it, and all the lines that were there in the end. -/
partial def converse {α : Type} (input output : IO.FS.Stream) (part : Terminal → α × Terminal)
    (lines : List UInt8) (shown : Nat) : IO ((α × Terminal) × List UInt8) := do
  let (outcome, terminal) := part (.ofBytes lines)
  match terminal.awaited with
  | none =>
    printFrom output shown terminal.written
    pure ((outcome, terminal), lines)
  | some text =>
    printFrom output shown text
    let line ← nextLine input
    if line = [] then
      printFrom output text.length terminal.written
      pure ((outcome, terminal), lines)
    else converse input output part (lines ++ line) text.length

/-- Shows what there is to report of a part. -/
def report (options : Options) (notices : List Notice) : IO Unit := do
  for line in Shell.reports options notices do
    IO.eprintln line

/-- Carries out a session from some round on. -/
partial def rounds (input output : IO.FS.Stream) (options : Options) (lines : List UInt8) :
    IO Shell.ExitCode := do
  let ((outcome, terminal), lines) ← converse input output (Shell.round options) lines 0
  report options (Shell.noticesOfRound options (.ofBytes lines))
  match outcome with
  | none => rounds input output options terminal.unread
  | some code =>
    if code ≠ 0 then
      IO.eprintln "Failed to read the input: stream did not contain valid UTF-8"
    pure code

end Argand.Main

def main (arguments : List String) : IO UInt32 := do
  let input ← IO.getStdin
  let output ← IO.getStdout
  match CommandLine.ofArguments? (arguments.map String.toList) with
  | none =>
    IO.eprintln "Usage: [-s] [-v] [-t TOLERANCE] [--] [EXPRESSION [EXPRESSION]]"
    pure 2
  | some (options, []) =>
    output.putStr Shell.banner
    Argand.Main.rounds input output options []
  | some (options, first :: rest) =>
    let ((code, _), lines) ← Argand.Main.converse input output
      (Shell.runOnce options first rest.head?) [] 0
    Argand.Main.report options
      (Shell.noticesOfCalculation options first rest.head? (.ofBytes lines))
    pure code
