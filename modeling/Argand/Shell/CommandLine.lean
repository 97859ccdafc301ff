import Argand.Complex.Comparison
import Argand.Decimal.Numeral
import Argand.Expression.Pieces

/-!
The command line.

    -s  --strict         refuse characters that begin no token
    -t  --tolerance T    the distance below which two results are equivalent
    -v  --verbose        report the steps on the error stream
    --                   everything after it is an expression

Short options can be joined (`-sv`).  The value of the tolerance is the next argument, or follows in
the same one: `-t0.5`, `-t=0.5`, `--tolerance=0.5`.  As the next argument it must not look like an
option.  No option may come twice.  Every other argument is an expression, the lone `-` among them;
more than two of them in a row are too many.

The options that ask for a text about the program, `-h`, `--help`, `-V` and `--version`, are not
described here.  They print that text and end with the code zero; here they are options like any
unknown one, and a command line with one of them is not well-formed.
-/

namespace Argand

/-- What the options of a command line say. -/
structure Options where
  mode : Mode
  tolerance : Binary64
  verbose : Bool

namespace CommandLine

/-- What the arguments read so far amount to. -/
structure Reading where
  strict : Bool
  verbose : Bool
  tolerance : Option Binary64
  expressions : List (List Char)
  /-- How many expressions have come in a row, no option between them. -/
  inRow : Nat

def Reading.empty : Reading := ⟨false, false, none, [], 0⟩

namespace Reading

def addExpression (reading : Reading) (text : List Char) : Option Reading :=
  if 2 ≤ reading.inRow then none
  else some { reading with
    expressions := reading.expressions ++ [text], inRow := reading.inRow + 1 }

def setStrict (reading : Reading) : Option Reading :=
  if reading.strict then none else some { reading with strict := true, inRow := 0 }

def setVerbose (reading : Reading) : Option Reading :=
  if reading.verbose then none else some { reading with verbose := true, inRow := 0 }

def setTolerance (reading : Reading) (text : List Char) : Option Reading :=
  if reading.tolerance.isSome then none
  else (Binary64.ofText? text).map fun x => { reading with tolerance := some x, inRow := 0 }

end Reading

/-- Whether an argument is taken as an option wherever it stands. -/
def isOption : List Char → Bool
  | '-' :: _ :: _ => true
  | _ => false

/-- A reading after an option, and whether the option waits for a value in the next argument. -/
abbrev Outcome := Option (Reading × Bool)

/-- An option with a long name. -/
def long (reading : Reading) (name : List Char) : Outcome :=
  if name = "strict".toList then reading.setStrict.map (·, false)
  else if name = "verbose".toList then reading.setVerbose.map (·, false)
  else if name = "tolerance".toList then some (reading, true)
  else if "tolerance=".toList.isPrefixOf name then
    (reading.setTolerance (name.drop "tolerance=".length)).map (·, false)
  else none

/-- Joined options with short names. -/
def short (reading : Reading) : List Char → Outcome
  | [] => some (reading, false)
  | 's' :: names => reading.setStrict.bind fun reading => short reading names
  | 'v' :: names => reading.setVerbose.bind fun reading => short reading names
  | ['t'] => some (reading, true)
  | 't' :: '=' :: value => (reading.setTolerance value).map (·, false)
  | 't' :: value => (reading.setTolerance value).map (·, false)
  | _ => none

/-- Reads the arguments; the flag tells whether the first of them is a value. -/
def read (reading : Reading) (awaitsValue : Bool) : List (List Char) → Option Reading
  | [] => if awaitsValue then none else some reading
  | argument :: rest =>
    if awaitsValue then
      if isOption argument then none
      else (reading.setTolerance argument).bind fun reading => read reading false rest
    else
      match argument with
      | ['-', '-'] => rest.foldlM Reading.addExpression reading
      | '-' :: '-' :: name =>
        (long reading name).bind fun (reading, awaits) => read reading awaits rest
      | '-' :: name :: names =>
        (short reading (name :: names)).bind fun (reading, awaits) => read reading awaits rest
      | expression =>
        (reading.addExpression expression).bind fun reading => read reading false rest

/-- The options and the expressions of a command line, if it is well-formed. -/
def ofArguments? (arguments : List (List Char)) : Option (Options × List (List Char)) :=
  (read .empty false arguments).map fun reading =>
    (⟨if reading.strict then .strict else .permissive,
      reading.tolerance.getD Comparison.defaultTolerance, reading.verbose⟩, reading.expressions)

end CommandLine

end Argand
