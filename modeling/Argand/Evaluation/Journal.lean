import Argand.Evaluation.Calculator

/-!
The journal: what the steps of a calculation report, in order.

A text reports its skipped characters, then its tokens, then its tree as far as it has one; a text
that strictness refuses reports nothing.  An evaluation reports each variable that it comes to.
-/

namespace Argand

inductive Level where
  | trace
  | debug
deriving DecidableEq

def Level.word : Level → String
  | trace => "TRACE"
  | debug => "DEBUG"

/-- A report of one step. -/
inductive Notice where
  | skipped (character : Char) (column : Nat)
  | tokens (tokens : List Placed)
  | tree (tree : Expr)
  /-- A resolver is about to be asked. -/
  | resolving (name : Char)
  /-- A line was read as a value. -/
  | read (name : Char) (value : Complex)
  /-- A value was there already. -/
  | reusing (name : Char) (value : Complex)

namespace Notice

/-- Tokens and trees are for tracing. -/
def level : Notice → Level
  | tokens _ => .trace
  | tree _ => .trace
  | _ => .debug

def describedTokens (tokens : List Placed) : String :=
  ", ".intercalate (tokens.map fun t => s!"({t.token.described}, {t.column})")

def binding (name : Char) (value : Complex) : String :=
  String.singleton name ++ " = " ++ toString value

def message : Notice → String
  | skipped c column =>
    s!"skipping unrecognized input {String.ofList (Text.quotedText [c])} at column {column}"
  | tokens ts => s!"tokens: [{describedTokens ts}]"
  | tree t => s!"tree: {t}"
  | resolving name => "resolving " ++ String.singleton name
  | read name value => "read " ++ binding name value
  | reusing name value => "reusing " ++ binding name value

end Notice

/-- The reports on the way from a text to its tree. -/
def noticesOfParse (mode : Mode) (source : List Char) : List Notice :=
  match tokenize mode source with
  | .error _ => []
  | .ok tokens =>
    let skipped := (skippedOf (cut (cells source))).map fun c => Notice.skipped c.1 c.2
    let tree := match parseTokens tokens with
      | .error _ => []
      | .ok tree => [Notice.tree tree]
    skipped ++ .tokens tokens :: tree

/-- The reports of a look-up.  With `reads`, the resolver reads lines, and reports those that it can
read as values. -/
def noticesOfLookup (reads : Bool) : Lookup → List Notice
  | .asked name (.ok value) => .resolving name :: if reads then [.read name value] else []
  | .asked name (.error _) => [.resolving name]
  | .known name value => [.reusing name value]

/-- The reports of a calculation from its text to its value. -/
def noticesOf {σ : Type} (mode : Mode) (source : List Char) (reads : Bool)
    (resolver : Resolver σ) (state : σ) : List Notice :=
  noticesOfParse mode source ++
    match parse mode source with
    | .error _ => []
    | .ok tree => (tree.evaluate resolver state).lookups.flatMap (noticesOfLookup reads)

end Argand
