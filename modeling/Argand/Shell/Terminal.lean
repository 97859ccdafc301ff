import Argand.Complex.Literal
import Argand.Evaluation.Resolver
import Argand.Text.Lines

/-!
A terminal: a stream of bytes to read lines from and a stream to write to.

The output may refuse what it is given.  The input is taken line by line, and a line is gone once it
is asked for, well-formed or not.  The prompting resolver writes one prompt for each question and
takes the answer from the next line; where the prompt cannot be written it leaves the input alone.

A terminal also notes what it had shown when a line was first asked for in vain: a caller with more
input to come can show as much and try again with more.
-/

namespace Argand

/-- How an output stream fails, and the reason that it gives. -/
inductive Refusal where
  /-- Nothing can be written. -/
  | write (reason : String)
  /-- What is written is kept, but cannot be passed on. -/
  | flush (reason : String)
deriving DecidableEq

structure Terminal where
  /-- The bytes that are still to be read. -/
  unread : List UInt8
  written : String
  refusal : Option Refusal
  /-- What had been written when a line was first asked for and there was none. -/
  awaited : Option String
deriving DecidableEq

/-- What comes of asking for a line. -/
inductive Line where
  | ended
  | malformed
  | text (characters : List Char)
deriving DecidableEq

namespace Terminal

/-- A terminal with some input and an output that takes everything. -/
def ofBytes (bytes : List UInt8) : Terminal := ⟨bytes, "", none, none⟩

def write (terminal : Terminal) (text : String) : Terminal :=
  { terminal with written := terminal.written ++ text }

/-- Writes a text and passes it on; gives the reason where that fails. -/
def prompt (terminal : Terminal) (text : String) : Option String × Terminal :=
  match terminal.refusal with
  | none => (none, terminal.write text)
  | some (.write reason) => (some reason, terminal)
  | some (.flush reason) => (some reason, terminal.write text)

/-- The next line. -/
def readLine (terminal : Terminal) : Line × Terminal :=
  if terminal.unread = [] then
    (.ended, { terminal with awaited := terminal.awaited <|> some terminal.written })
  else
    let (bytes, rest) := Text.splitLine terminal.unread
    let line := match Text.decode? bytes with
      | none => Line.malformed
      | some characters => .text characters
    (line, { terminal with unread := rest })

/-- Writes the prompt for a variable and reads its value from the next line. -/
def resolver : Resolver Terminal := fun name terminal =>
  match terminal.prompt ("Value for " ++ String.singleton name ++ ": ") with
  | (some reason, terminal) => (.error (.unresolved name reason), terminal)
  | (none, terminal) =>
    match terminal.readLine with
    | (.ended, terminal) => (.error (.unresolved name "end of input"), terminal)
    | (.malformed, terminal) =>
      (.error (.unresolved name "stream did not contain valid UTF-8"), terminal)
    | (.text line, terminal) =>
      match Complex.ofText line with
      | .ok value => (.ok value, terminal)
      | .error e => (.error (.unresolved name e.message), terminal)

/-! ## The input only gets shorter -/

@[simp] theorem write_unread (terminal : Terminal) (text : String) :
    (terminal.write text).unread = terminal.unread := rfl

theorem prompt_unread (terminal : Terminal) (text : String) :
    (terminal.prompt text).2.unread = terminal.unread := by
  unfold prompt
  split <;> rfl

theorem length_readLine_le (terminal : Terminal) :
    terminal.readLine.2.unread.length ≤ terminal.unread.length := by
  unfold readLine
  split
  · exact Nat.le_refl _
  · next h => exact Nat.le_of_lt (Text.length_splitLine_lt h)

/-- A line that is not the end of the input takes at least one byte. -/
theorem length_readLine_lt (terminal : Terminal) (h : terminal.readLine.1 ≠ .ended) :
    terminal.readLine.2.unread.length < terminal.unread.length := by
  unfold readLine at h ⊢
  split
  · next he => simp [he] at h
  · next he => exact Text.length_splitLine_lt he

theorem length_resolver_le (name : Char) (terminal : Terminal) :
    (resolver name terminal).2.unread.length ≤ terminal.unread.length := by
  have hp := prompt_unread terminal ("Value for " ++ String.singleton name ++ ": ")
  unfold resolver
  split
  · next h => simp only [h] at hp; simp [hp]
  · next t h =>
    simp only [h] at hp
    have hr := length_readLine_le t
    rw [hp] at hr
    split
    · next h' => simpa only [h'] using hr
    · next h' => simpa only [h'] using hr
    · next h' =>
      split <;> simpa only [h'] using hr

end Terminal

end Argand
