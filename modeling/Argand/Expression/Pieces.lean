import Argand.Expression.ParseError
import Argand.Expression.Token
import Argand.Text.Alphabetic
import Argand.Text.Blank

/-!
From a text to its tokens.

The blanks are dropped first, so `1 2` is one number and `co nj` the keyword; each remaining
character keeps its column.  `cut` then takes the text apart into pieces, each as long as it can be:

    number      a digit, or a point before a digit, and all digits and points after it
    conj        these four letters
    power       two stars
    identifier  any other letter
    sign, star, slash, radical, parenthesis
    skipped     a character that begins none of these

The pieces are the text again, with nothing lost or moved (`flatMap_text_cut`).  Tokens are the
pieces that are not skipped, and a zero before each sign that begins the text or follows an opening
parenthesis.
-/

namespace Argand

/-- A character with its column. -/
abbrev Cell := Char × Nat

/-- The characters of a text that are not blank, with their columns from one. -/
def cells (source : List Char) : List Cell :=
  (source.zipIdx 1).filter fun cell => !Text.isBlank cell.1

/-- What a text is cut into. -/
inductive Piece where
  | token (token : Token)
  | skipped (character : Char)
deriving DecidableEq

namespace Piece

/-- The characters of a piece. -/
def text : Piece → List Char
  | token t => t.text
  | skipped c => [c]

/-! ## The piece that a character begins -/

/-- What a run of digits and points goes on with. -/
def continuesNumber (c : Char) : Bool := c.isDigit || c = '.'

/-- A digit, or a point before a digit. -/
def beginsNumber (c : Char) (rest : List Cell) : Bool :=
  c.isDigit || (c = '.' && rest.head?.any fun next => next.1.isDigit)

/-- The token that is a single mark. -/
def mark? (c : Char) : Option Token :=
  match c with
  | '+' => some .plus
  | '-' => some .minus
  | '*' => some .star
  | '/' => some .slash
  | '√' => some .radical
  | '(' => some .opening
  | ')' => some .closing
  | _ => none

/-- The piece that begins with a character, and how many of the characters behind it belong to
it. -/
def beginning (c : Char) (rest : List Cell) : Piece × Nat :=
  if beginsNumber c rest then
    let run := rest.takeWhile fun next => continuesNumber next.1
    (token (.number (c :: run.map Prod.fst)), run.length)
  else if c = '*' ∧ (rest.take 1).map Prod.fst = ['*'] then (token .power, 1)
  else if c = 'c' ∧ (rest.take 3).map Prod.fst = ['o', 'n', 'j'] then (token .conj, 3)
  else
    match mark? c with
    | some t => (token t, 0)
    | none => if Text.isAlphabetic c then (token (.identifier c), 0) else (skipped c, 0)

theorem text_of_mark? {c : Char} {t : Token} (h : mark? c = some t) : t.text = [c] := by
  unfold mark? at h
  split at h
  all_goals simp at h
  all_goals subst h; rfl

/-- A piece consists of the character that begins it and of those that belong to it. -/
theorem text_beginning (c : Char) (rest : List Cell) :
    (beginning c rest).1.text = c :: (rest.take (beginning c rest).2).map Prod.fst := by
  unfold beginning
  split
  · dsimp only [text, Token.text]
    rw [← List.prefix_iff_eq_take.1 (List.takeWhile_prefix _)]
  split
  · next h => simp [text, Token.text, h.1, h.2]
  split
  · next h => simp [text, Token.text, h.1, h.2]
  split
  · next t h => exact text_of_mark? h
  · split <;> rfl

end Piece

/-- The pieces of a text, each with the column of its first character. -/
def cut : List Cell → List (Piece × Nat)
  | [] => []
  | (c, column) :: rest =>
    let (piece, more) := Piece.beginning c rest
    (piece, column) :: cut (rest.drop more)
termination_by cells => cells.length
decreasing_by simp only [List.length_cons, List.length_drop]; omega

/-- The pieces are the characters of the text, in their order. -/
theorem flatMap_text_cut (cells : List Cell) :
    (cut cells).flatMap (fun piece => piece.1.text) = cells.map Prod.fst := by
  fun_induction cut cells with
  | case1 => rfl
  | case2 c column rest piece more h ih =>
    have := Piece.text_beginning c rest
    rw [h] at this
    rw [List.flatMap_cons, ih, this, List.cons_append, ← List.map_append, List.take_append_drop,
      List.map_cons]

/-! ## Tokens -/

/-- What is done with a character that begins no token. -/
inductive Mode where
  /-- It is skipped. -/
  | permissive
  /-- It is an error. -/
  | strict
deriving DecidableEq

/-- The skipped characters with their columns. -/
def skippedOf (pieces : List (Piece × Nat)) : List Cell :=
  pieces.filterMap fun
    | (.skipped c, column) => some (c, column)
    | (.token _, _) => none

/-- The tokens among the pieces, with the zeros that complete the signs.  The flag tells whether a
sign here begins a group. -/
def tokensFrom (beginsGroup : Bool) : List (Piece × Nat) → List Placed
  | [] => []
  | (.skipped _, _) :: pieces => tokensFrom false pieces
  | (.token t, column) :: pieces =>
    let zero := if beginsGroup && t.isSign then [⟨.number ['0'], column⟩] else []
    zero ++ ⟨t, column⟩ :: tokensFrom (t = .opening) pieces

/-- The tokens of a text. -/
def tokenize (mode : Mode) (source : List Char) : Except ParseError (List Placed) :=
  let pieces := cut (cells source)
  match mode, skippedOf pieces with
  | .strict, (c, column) :: _ => .error (.unrecognizedCharacter c column)
  | _, _ => .ok (tokensFrom true pieces)

end Argand
