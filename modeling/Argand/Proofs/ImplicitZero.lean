import Argand.Proofs.Modes

/-!
The implicit zero, written out.

A sign that begins a text, or that has an opening parenthesis in front of it apart from blanks, gets
a zero in front of it when the text is turned into tokens.  `withZeros` writes this zero into the
text.  Here it is a character like any other, and it moves what is behind it; but it is a piece of
its own, and it does not change the other pieces:

| beside the zero | |
| :-- | :-- |
| in front | nothing, or an opening parenthesis, which is no part of a number |
| behind | a sign, which is no part of a number either |

So the pieces of the text with zeros are those of the text as it was, at other columns, and a piece
for each zero (`cut_withZeroCells`).  Behind such a piece a sign begins no group any more, and the
tokens are the same (`tokensFrom_withZeroPieces`).

Main statement: `zeros_written_out`.
-/

namespace Argand

-- What holds of the members of a list is decided along the list, not character by character.
attribute [local instance (high)] List.decidableBAll

/-! ## Zeros in a text -/

/-- A plus or a minus. -/
def isSignMark (c : Char) : Bool := c = '+' || c = '-'

/-- A sign behind this text begins a group: apart from blanks there is nothing in front of it, or an
opening parenthesis directly in front of it. -/
def groupBeginsBehind (front : List Char) : Bool :=
  let before := Text.withoutBlanks front
  decide (before = [] ∨ before.getLast? = some '(')

/-- The text `rest` behind the text `front`, with a zero directly before each sign that begins a
group. -/
def withZeros (front : List Char) : (rest : List Char) → List Char
  | [] => []
  | c :: rest =>
    (if groupBeginsBehind front && isSignMark c then ['0'] else []) ++
      c :: withZeros (front ++ [c]) rest

theorem withZeros_append (front middle rest : List Char) :
    withZeros front (middle ++ rest) =
      withZeros front middle ++ withZeros (front ++ middle) rest := by
  induction middle generalizing front with
  | nil => rw [List.append_nil]; rfl
  | cons c middle ih =>
    simp only [List.cons_append, withZeros, ih, List.append_assoc, List.nil_append]

/-- Where a character of the source stands in the text with zeros. -/
def columnWithZeros (source : List Char) (column : Nat) : Nat :=
  (withZeros [] (source.take column)).length

theorem columnWithZeros_append (front : List Char) (c : Char) (rest : List Char) :
    columnWithZeros (front ++ c :: rest) (front.length + 1) =
      (withZeros [] front).length + (withZeros front [c]).length := by
  have ht : (front ++ c :: rest).take (front.length + 1) = front ++ [c] := by
    rw [List.append_cons, List.take_left' (by simp)]
  rw [columnWithZeros, ht, withZeros_append, List.nil_append, List.length_append]

theorem isBlank_of_isSignMark {c : Char} (h : isSignMark c = true) : Text.isBlank c = false := by
  simp only [isSignMark, Bool.or_eq_true, decide_eq_true_eq] at h
  rcases h with rfl | rfl <;> decide +kernel

/-- Whether a sign begins a group is told by the last character that is no blank. -/
theorem groupBeginsBehind_append (front : List Char) (c : Char) :
    groupBeginsBehind (front ++ [c]) =
      if Text.isBlank c then groupBeginsBehind front else decide (c = '(') := by
  unfold groupBeginsBehind Text.withoutBlanks
  cases hb : Text.isBlank c <;> simp [hb]

/-! ## Zeros among the cells -/

variable (f : Nat → Nat)

/-- The cells at other columns, with the zeros.  The flag tells whether a sign here begins a
group. -/
def withZeroCells (beginsGroup : Bool) : List Cell → List Cell
  | [] => []
  | (c, column) :: cells =>
    (if beginsGroup && isSignMark c then [('0', f column - 1)] else []) ++
      (c, f column) :: withZeroCells (c = '(') cells

/-- The characters that are no blanks, with their columns from some column on. -/
def cellsFrom (column : Nat) (text : List Char) : List Cell :=
  (text.zipIdx column).filter fun cell => !Text.isBlank cell.1

theorem cellsFrom_cons_of_blank {c : Char} (h : Text.isBlank c = true) (column : Nat)
    (text : List Char) : cellsFrom column (c :: text) = cellsFrom (column + 1) text :=
  List.filter_cons_of_neg (by simp [h])

theorem cellsFrom_cons {c : Char} (h : Text.isBlank c = false) (column : Nat) (text : List Char) :
    cellsFrom column (c :: text) = (c, column) :: cellsFrom (column + 1) text :=
  List.filter_cons_of_pos (by simp [h])

/-- The cells of the text with zeros are those of the source with zeros among them. -/
theorem cellsFrom_withZeros {source front rest : List Char} (hs : source = front ++ rest) :
    cellsFrom ((withZeros [] front).length + 1) (withZeros front rest) =
      withZeroCells (columnWithZeros source) (groupBeginsBehind front)
        (cellsFrom (front.length + 1) rest) := by
  induction rest generalizing front with
  | nil => rfl
  | cons c rest ih =>
    have hcolumn := hs ▸ columnWithZeros_append front c rest
    have ih := @ih (front ++ [c]) (by rw [hs, List.append_cons])
    rw [groupBeginsBehind_append, withZeros_append, List.nil_append, List.length_append,
      List.length_append, List.length_singleton] at ih
    rw [withZeros] at hcolumn ih ⊢
    cases hz : groupBeginsBehind front && isSignMark c with
    | true =>
      have h0 : Text.isBlank '0' = false := by decide +kernel
      have hb : Text.isBlank c = false := isBlank_of_isSignMark (Bool.and_eq_true_iff.1 hz).2
      rw [hz] at hcolumn ih
      rw [hb] at ih
      rw [if_pos rfl, List.singleton_append, cellsFrom_cons h0, cellsFrom_cons hb,
        cellsFrom_cons hb, withZeroCells, hz, hcolumn]
      exact congrArg (fun cells => _ :: _ :: cells) ih
    | false =>
      rw [hz] at hcolumn ih
      cases hb : Text.isBlank c with
      | true =>
        rw [hb] at ih
        rw [if_neg Bool.false_ne_true, List.nil_append, cellsFrom_cons_of_blank hb,
          cellsFrom_cons_of_blank hb]
        exact ih
      | false =>
        rw [hb] at ih
        rw [if_neg Bool.false_ne_true, List.nil_append, cellsFrom_cons hb, cellsFrom_cons hb,
          withZeroCells, hz, hcolumn]
        exact congrArg (List.cons _) ih

theorem cells_withZeros (source : List Char) :
    cells (withZeros [] source) = withZeroCells (columnWithZeros source) true (cells source) :=
  cellsFrom_withZeros rfl

/-! ## Zeros among the pieces -/

/-- A piece that is a plus or a minus. -/
def Piece.isSign : Piece → Bool
  | token t => t.isSign
  | skipped _ => false

theorem decide_token_eq (t t' : Token) : decide (Piece.token t = .token t') = decide (t = t') :=
  decide_eq_decide.2 ⟨Piece.token.inj, congrArg Piece.token⟩

/-- The pieces at other columns, with the zeros. -/
def withZeroPieces (beginsGroup : Bool) : List (Piece × Nat) → List (Piece × Nat)
  | [] => []
  | (piece, column) :: pieces =>
    (if beginsGroup && piece.isSign then [(.token (.number ['0']), f column - 1)] else []) ++
      (piece, f column) :: withZeroPieces (piece = .token .opening) pieces

/-- Characters of which none is a sign or an opening parenthesis are kept. -/
theorem withZeroCells_append {front : List Cell}
    (h : ∀ cell ∈ front, isSignMark cell.1 = false ∧ cell.1 ≠ '(') (beginsGroup : Bool)
    (back : List Cell) :
    withZeroCells f beginsGroup (front ++ back) =
      front.map (Prod.map id f) ++ withZeroCells f (beginsGroup && front.isEmpty) back := by
  induction front generalizing beginsGroup with
  | nil => simp
  | cons cell front ih =>
    obtain ⟨c, column⟩ := cell
    obtain ⟨⟨hc, hp⟩, h⟩ := List.forall_mem_cons.1 h
    dsimp only at hc hp
    simp [withZeroCells, hc, hp, ih h]

/-- Zeros that are not in front do not make another beginning of the text. -/
theorem prefix_withZeroCells {text : List Char} (h : '(' ∉ text) (cells : List Cell) :
    text <+: (withZeroCells f false cells).map Prod.fst ↔ text <+: cells.map Prod.fst := by
  induction text generalizing cells with
  | nil => simp
  | cons d text ih =>
    obtain ⟨hd, ht⟩ := not_or.1 (mt List.mem_cons.2 h)
    rcases cells with _ | ⟨⟨c, column⟩, cells⟩
    · rfl
    · simp only [withZeroCells, Bool.false_and, Bool.false_eq_true, if_false, List.nil_append,
        List.map_cons, List.cons_prefix_cons]
      refine and_congr_right fun hdc => ?_
      subst hdc
      rw [decide_eq_false (Ne.symm hd)]
      exact ih ht cells

theorem head?_withZeroCells (cells : List Cell) :
    ((withZeroCells f false cells).map Prod.fst).head? = (cells.map Prod.fst).head? := by
  cases cells <;> rfl

/-- A piece that could not be longer could not be longer before zeros either. -/
theorem Piece.Maximal.withZeroCells {piece : Piece} {cells : List Cell}
    (h : piece.Maximal (cells.map Prod.fst)) :
    piece.Maximal ((Argand.withZeroCells f (piece = .token .opening) cells).map Prod.fst) := by
  cases piece with
  | skipped c =>
    obtain ⟨ha, hd, hm, hp⟩ := h
    refine ⟨ha, hd, hm, ?_⟩
    rwa [decide_eq_false nofun, head?_withZeroCells]
  | token t =>
    cases t with
    | number lexeme =>
      refine ⟨h.1, ?_⟩
      rw [decide_eq_false nofun, head?_withZeroCells]
      exact h.2
    | identifier c =>
      refine ⟨h.1, ?_⟩
      rw [decide_eq_false nofun, prefix_withZeroCells f (by decide)]
      exact h.2
    | star =>
      show List.head? _ ≠ _
      rw [decide_eq_false nofun, head?_withZeroCells]
      exact h
    | _ => trivial

theorem not_isSignMark_of_notMem_marks {c : Char} (h : c ∉ marks) :
    isSignMark c = false ∧ c ≠ '(' := by
  simp only [marks, List.mem_cons, not_or] at h
  simp [isSignMark, h]

theorem not_isSignMark_of_isRun {run : List Char} (h : IsRun run) :
    ∀ c ∈ run, isSignMark c = false ∧ c ≠ '(' := by
  intro c hc
  rcases h c hc with hd | rfl
  · refine not_isSignMark_of_notMem_marks fun hm => ?_
    rw [Piece.not_isDigit_of_mem_marks hm] at hd
    cases hd
  · decide

/-- The first character of a piece tells whether it is a sign or a parenthesis, and the others are
neither. -/
theorem Piece.Maximal.first {piece : Piece} {rest : List Char} (h : piece.Maximal rest) {c : Char}
    {others : List Char} (ht : piece.text = c :: others) :
    isSignMark c = piece.isSign ∧
      (decide (c = '(') && others.isEmpty) = decide (piece = .token .opening) ∧
      ∀ d ∈ others, isSignMark d = false ∧ d ≠ '(' := by
  cases piece with
  | skipped d =>
    obtain ⟨rfl, rfl⟩ := List.cons.inj ht
    have hd := not_isSignMark_of_notMem_marks h.2.2.1
    simp [isSign, hd]
  | token t =>
    cases t with
    | number lexeme =>
      obtain rfl : lexeme = c :: others := ht
      have hr := not_isSignMark_of_isRun (isRun_of_isNumeral h.1)
      obtain ⟨⟨hs, hp⟩, ho⟩ := List.forall_mem_cons.1 hr
      refine ⟨hs, ?_, ho⟩
      rw [decide_eq_false hp, decide_token_eq]
      rfl
    | identifier d =>
      obtain ⟨rfl, rfl⟩ := List.cons.inj ht
      have hd := not_isSignMark_of_notMem_marks fun hm =>
        Bool.false_ne_true ((not_isAlphabetic_of_mem_marks hm).symm.trans h.1)
      simp [isSign, Token.isSign, hd]
    | _ =>
      obtain ⟨rfl, rfl⟩ := List.cons.inj ht
      decide

section

variable {c : Char} {rest : List Cell} {piece : Piece} {more : Nat}
  (h : Piece.beginning c rest = (piece, more))

include h

theorem maximal_of_beginning : piece.Maximal ((rest.drop more).map Prod.fst) := by
  have hm := Piece.maximal_beginning c rest
  rwa [h] at hm

theorem text_of_beginning : piece.text = c :: (rest.take more).map Prod.fst := by
  have ht := Piece.text_beginning c rest
  rwa [h] at ht

theorem eq_length_of_beginning : more = piece.text.length - 1 := by
  have ht := Piece.text_beginning_append c rest
  rw [h] at ht
  exact congrArg Prod.snd (h.symm.trans (Piece.beginning_of_maximal (maximal_of_beginning h) ht))

/-- The first piece is kept: no zero comes between its characters, and behind it the flag is the one
that goes with the piece. -/
theorem withZeroCells_of_beginning :
    withZeroCells f (c = '(') rest = (rest.take more).map (Prod.map id f) ++
      withZeroCells f (piece = .token .opening) (rest.drop more) := by
  obtain ⟨-, hopening, hothers⟩ := (maximal_of_beginning h).first (text_of_beginning h)
  have happend := withZeroCells_append f (fun cell hm => hothers _ (List.mem_map_of_mem hm))
    (c = '(') (rest.drop more)
  rwa [List.take_append_drop, ← List.isEmpty_map, hopening] at happend

/-- The first piece is the same with zeros behind it. -/
theorem cut_withZeroCells_of_beginning (column : Nat) :
    cut ((c, f column) :: withZeroCells f (c = '(') rest) =
      (piece, f column) :: cut (withZeroCells f (piece = .token .opening) (rest.drop more)) := by
  have hrest := withZeroCells_of_beginning f h
  have hb : Piece.beginning c (withZeroCells f (c = '(') rest) = (piece, more) := by
    rw [eq_length_of_beginning h]
    refine Piece.beginning_of_maximal ((maximal_of_beginning h).withZeroCells f) ?_
    rw [hrest, text_of_beginning h, List.map_append, List.map_map]
    rfl
  have hlength : ((rest.take more).map (Prod.map id f)).length = more := by
    have ht := congrArg List.length (text_of_beginning h)
    have hm := eq_length_of_beginning h
    rw [List.length_cons, List.length_map] at ht
    rw [List.length_map]
    omega
  rw [cut, hb, hrest]
  dsimp only
  rw [List.drop_left' hlength]

end

/-- A zero before a sign is a piece of its own. -/
theorem cut_zero_cons {c : Char} (h : isSignMark c = true) (column column' : Nat)
    (cells : List Cell) :
    cut (('0', column) :: (c, column') :: cells) =
      (.token (.number ['0']), column) :: cut ((c, column') :: cells) := by
  have hc : ¬(c.isDigit ∨ c = '.') := by
    simp only [isSignMark, Bool.or_eq_true, decide_eq_true_eq] at h
    rcases h with rfl | rfl <;> decide
  have hm : (Piece.token (.number ['0'])).Maximal (c :: cells.map Prod.fst) :=
    ⟨.digit rfl nofun, fun d hd => Option.some.inj hd ▸ hc⟩
  have hb : Piece.beginning '0' ((c, column') :: cells) = (.token (.number ['0']), 0) :=
    Piece.beginning_of_maximal hm rfl
  rw [cut, hb]
  rfl

/-- The pieces of a text with zeros are those without them, and the zeros. -/
theorem cut_withZeroCells (beginsGroup : Bool) (cells : List Cell) :
    cut (withZeroCells f beginsGroup cells) = withZeroPieces f beginsGroup (cut cells) := by
  fun_induction cut cells generalizing beginsGroup with
  | case1 =>
    rw [withZeroCells, cut]
    rfl
  | case2 c column rest piece more h ih =>
    have hsign : isSignMark c = piece.isSign :=
      ((maximal_of_beginning h).first (text_of_beginning h)).1
    rw [withZeroCells, withZeroPieces, ← ih, ← cut_withZeroCells_of_beginning f h, ← hsign]
    split
    · next hz => exact cut_zero_cons (Bool.and_eq_true_iff.1 hz).2 _ _ _
    · rfl

/-! ## The tokens -/

theorem skippedOf_withZeroPieces (beginsGroup : Bool) (pieces : List (Piece × Nat)) :
    skippedOf (withZeroPieces f beginsGroup pieces) = (skippedOf pieces).map (Prod.map id f) := by
  induction pieces generalizing beginsGroup with
  | nil => rfl
  | cons first pieces ih =>
    obtain ⟨piece, column⟩ := first
    rw [withZeroPieces]
    cases piece with
    | skipped c =>
      rw [Piece.isSign, Bool.and_false]
      exact congrArg ((c, f column) :: ·) (ih _)
    | token t =>
      split
      · exact ih _
      · exact ih _

/-- The tokens among the pieces, and nothing else. -/
def tokensAmong (pieces : List (Piece × Nat)) : List Placed :=
  pieces.filterMap fun
    | (.token t, column) => some ⟨t, column⟩
    | (.skipped _, _) => none

/-- The zeros that are written are the ones that complete the signs, up to columns. -/
theorem tokensAmong_withZeroPieces (beginsGroup : Bool) (pieces : List (Piece × Nat)) :
    (tokensAmong (withZeroPieces f beginsGroup pieces)).map (Placed.mapColumn noColumn) =
      (tokensFrom beginsGroup pieces).map (Placed.mapColumn noColumn) := by
  induction pieces generalizing beginsGroup with
  | nil => rfl
  | cons first pieces ih =>
    obtain ⟨piece, column⟩ := first
    rw [withZeroPieces]
    cases piece with
    | skipped c =>
      rw [Piece.isSign, Bool.and_false]
      exact ih false
    | token t =>
      have ih := ih (t = .opening)
      rw [Piece.isSign, decide_token_eq, tokensFrom, List.map_append, List.map_cons, ← ih]
      cases beginsGroup && t.isSign <;> rfl

/-- Behind a zero that is written a sign begins no group. -/
theorem tokensFrom_withZeroPieces (beginsGroup : Bool) (pieces : List (Piece × Nat)) :
    tokensFrom beginsGroup (withZeroPieces f beginsGroup pieces) =
      tokensAmong (withZeroPieces f beginsGroup pieces) := by
  induction pieces generalizing beginsGroup with
  | nil => rfl
  | cons first pieces ih =>
    obtain ⟨piece, column⟩ := first
    rw [withZeroPieces]
    cases piece with
    | skipped c =>
      rw [Piece.isSign, Bool.and_false]
      exact ih false
    | token t =>
      have ih := ih (t = .opening)
      rw [Piece.isSign, decide_token_eq]
      cases hz : beginsGroup && t.isSign with
      | true =>
        obtain rfl := (Bool.and_eq_true_iff.1 hz).1
        exact congrArg (fun tokens => _ :: _ :: tokens) ih
      | false =>
        show (if beginsGroup && t.isSign then [_] else []) ++ _ = _
        rw [hz]
        exact congrArg (List.cons _) ih

/-! ## What comes of the text -/

variable {mode : Mode} {source : List Char}

theorem cut_withZeros (source : List Char) :
    cut (cells (withZeros [] source)) =
      withZeroPieces (columnWithZeros source) true (cut (cells source)) := by
  rw [cells_withZeros, cut_withZeroCells]

/-- The tokens with zeros written out are the same, and so is the character that is refused. -/
theorem tokenize_withZeros (mode : Mode) (source : List Char) :
    relabelled noColumn (List.map (Placed.mapColumn noColumn))
      (tokenize mode (withZeros [] source)) =
      relabelled noColumn (List.map (Placed.mapColumn noColumn)) (tokenize mode source) := by
  have hok : relabelled noColumn (List.map (Placed.mapColumn noColumn))
      (.ok (tokensFrom true (cut (cells (withZeros [] source))))) =
        relabelled noColumn (List.map (Placed.mapColumn noColumn))
          (.ok (tokensFrom true (cut (cells source)))) := by
    refine congrArg Except.ok ?_
    rw [cut_withZeros, tokensFrom_withZeroPieces, tokensAmong_withZeroPieces]
  unfold tokenize
  cases mode with
  | permissive => exact hok
  | strict =>
    have hs := congrArg skippedOf (cut_withZeros source)
    rw [skippedOf_withZeroPieces] at hs
    dsimp only
    rw [hs]
    cases skippedOf (cut (cells source)) with
    | nil => exact hok
    | cons first others => rfl

/-- A refused character stands behind the zeros in front of it. -/
theorem tokenize_withZeros_of_error {e : ParseError} (h : tokenize mode source = .error e) :
    ∃ front c rest, source = front ++ c :: rest ∧
      e = .unrecognizedCharacter c (front.length + 1) ∧
      withZeros [] source = withZeros [] front ++ c :: withZeros (front ++ [c]) rest ∧
      tokenize mode (withZeros [] source) =
        .error (.unrecognizedCharacter c ((withZeros [] front).length + 1)) := by
  obtain rfl : mode = .strict := by
    cases mode with
    | permissive => cases h
    | strict => rfl
  have hcut : IsCut source (cut (cells source)) := isCut_iff.2 rfl
  obtain ⟨c, column, hfirst, rfl⟩ := (tokenize_strict_eq_error_iff hcut).1 h
  obtain ⟨others, hskipped⟩ := (firstSkipped_iff hcut).1 hfirst
  obtain ⟨before, after, hp, -, ⟨front, rest, hsource, rfl, -, -⟩, -⟩ := hfirst
  have hsign : isSignMark c = false := ((hcut.each before _ _ after hp).1.first rfl).1
  have hrest : withZeros front (c :: rest) = c :: withZeros (front ++ [c]) rest := by
    rw [withZeros, hsign, Bool.and_false]
    rfl
  have hcolumn : columnWithZeros source (front.length + 1) = (withZeros [] front).length + 1 := by
    rw [hsource, columnWithZeros_append, withZeros, hsign, Bool.and_false]
    rfl
  refine ⟨front, c, rest, hsource, rfl, ?_, ?_⟩
  · rw [hsource, withZeros_append, List.nil_append, hrest]
  · unfold tokenize
    dsimp only
    rw [cut_withZeros, skippedOf_withZeroPieces, hskipped, ← hcolumn]
    rfl

/-- The trees and errors of the text with zeros written out are the same. -/
theorem parse_withZeros (mode : Mode) (source : List Char) :
    relabelled noColumn (Expr.mapColumns noColumn) (parse mode (withZeros [] source)) =
      relabelled noColumn (Expr.mapColumns noColumn) (parse mode source) := by
  have ht := tokenize_withZeros mode source
  unfold parse
  generalize tokenize mode (withZeros [] source) = written at ht ⊢
  generalize tokenize mode source = unwritten at ht ⊢
  cases written with
  | error e =>
    cases unwritten with
    | error e' => exact congrArg Except.error (Except.error.inj ht)
    | ok tokens => cases ht
  | ok tokens =>
    cases unwritten with
    | error e => cases ht
    | ok tokens' =>
      dsimp only
      rw [← parseTokens_mapColumn, ← parseTokens_mapColumn]
      exact congrArg parseTokens (Except.ok.inj ht)

/-- **The implicit zero is a zero in the text.**  A text and the text with zeros before the signs
that begin a group have the same tokens, up to columns, and in the second text none of them is
implicit.  If one is refused, so is the other, because of the same character at the place where it
stands in either.  So both have the same tree, or the same error, up to columns. -/
theorem zeros_written_out (mode : Mode) (source : List Char) :
    let written := withZeros [] source
    relabelled noColumn (List.map (Placed.mapColumn noColumn)) (tokenize mode written) =
        relabelled noColumn (List.map (Placed.mapColumn noColumn)) (tokenize mode source) ∧
      (∀ pieces tokens, IsCut written pieces → tokenize mode written = .ok tokens →
        tokens = tokensAmong pieces) ∧
      (∀ e, tokenize mode source = .error e →
        ∃ front c rest, source = front ++ c :: rest ∧
          e = .unrecognizedCharacter c (front.length + 1) ∧
          written = withZeros [] front ++ c :: withZeros (front ++ [c]) rest ∧
          tokenize mode written =
            .error (.unrecognizedCharacter c ((withZeros [] front).length + 1))) ∧
      relabelled noColumn (Expr.mapColumns noColumn) (parse mode written) =
        relabelled noColumn (Expr.mapColumns noColumn) (parse mode source) := by
  refine ⟨tokenize_withZeros mode source, fun pieces tokens hp ht => ?_,
    fun e => tokenize_withZeros_of_error, parse_withZeros mode source⟩
  rw [isCut_iff.1 hp, eq_tokensFrom_of_tokenize ht, cut_withZeros, tokensFrom_withZeroPieces]

/-- The first sign gets its zero behind the blank, and the one behind a skipped character gets
none. -/
theorem zeros_written_out_skipped :
    withZeros [] "( -#-x".toList = "( 0-#-x".toList ∧
      tokenize .strict "( -#-x".toList = .error (.unrecognizedCharacter '#' 4) ∧
      tokenize .strict "( 0-#-x".toList = .error (.unrecognizedCharacter '#' 5) ∧
      relabelled noColumn (Expr.mapColumns noColumn) (parse .permissive "( 0-#-x".toList) =
        relabelled noColumn (Expr.mapColumns noColumn) (parse .permissive "( -#-x".toList) := by
  have hz : withZeros [] "( -#-x".toList = "( 0-#-x".toList := by decide +kernel
  have hcut : cut (cells "( -#-x".toList) = [(.token .opening, 1), (.token .minus, 3),
      (.skipped '#', 4), (.token .minus, 5), (.token (.identifier 'x'), 6)] := by
    decide +kernel
  have ht : tokenize .strict "( -#-x".toList = .error (.unrecognizedCharacter '#' 4) := by
    unfold tokenize
    rw [hcut]
    rfl
  obtain ⟨-, -, herror, -⟩ := zeros_written_out .strict "( -#-x".toList
  obtain ⟨-, -, -, hparse⟩ := zeros_written_out .permissive "( -#-x".toList
  obtain ⟨front, c, rest, hsource, he, -, ht'⟩ := herror _ ht
  obtain ⟨rfl, hlength⟩ := ParseError.unrecognizedCharacter.inj he
  obtain rfl : front = "( -".toList := by
    have hf := congrArg (List.take front.length) hsource
    rw [List.take_left, ← Nat.succ.inj hlength] at hf
    exact hf.symm
  rw [hz] at ht' hparse
  exact ⟨hz, ht, ht', hparse⟩

end Argand
