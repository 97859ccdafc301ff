import Argand.Evaluation.Journal
import Argand.Proofs.Closing
import Argand.Proofs.Groups

/-!
The two modes.

A text can be turned into tokens in one pass, from left to right (`scan`).  The pass over a text is
the same in both modes as long as it meets tokens; at the first character that begins none, the
permissive one goes on behind it and the strict one ends.  So the strict pass is a part of the
permissive one:

| the permissive pass | the strict pass |
| :-- | :-- |
| skips nothing | gives the same tokens |
| skips some character | ends at the first of those, with its character and column as the error |

What is made of the tokens afterwards does not know the mode.  So a text that skips nothing has the
same tree, value and reports in both modes, and any other has the strict error for its tree,
whatever is wrong with the tokens in front of the character.

Main statement: `modes_differ_in_refusing`.
-/

namespace Argand

/-! ## Tokens in one pass -/

/-- The tokens of the characters from some point on.  A strict pass ends at the first character that
begins no token. -/
def scan (mode : Mode) (beginsGroup : Bool) : List Cell → Except ParseError (List Placed)
  | [] => .ok []
  | (c, column) :: rest =>
    let (piece, more) := Piece.beginning c rest
    match piece, mode with
    | .token t, mode =>
      let zero := if beginsGroup && t.isSign then [⟨.number ['0'], column⟩] else []
      (scan mode (t = .opening) (rest.drop more)).map fun tokens => zero ++ ⟨t, column⟩ :: tokens
    | .skipped _, .permissive => scan .permissive false (rest.drop more)
    | .skipped c, .strict => .error (.unrecognizedCharacter c column)
termination_by cells => cells.length
decreasing_by all_goals simp only [List.length_cons, List.length_drop]; omega

/-- A permissive pass finds the tokens of all pieces. -/
theorem scan_permissive (beginsGroup : Bool) (cells : List Cell) :
    scan .permissive beginsGroup cells = .ok (tokensFrom beginsGroup (cut cells)) := by
  fun_induction cut cells generalizing beginsGroup with
  | case1 =>
    rw [scan]
    rfl
  | case2 c column rest piece more h ih =>
    cases piece with
    | skipped c' =>
      rw [scan, h]
      exact ih false
    | token t =>
      rw [scan, h]
      dsimp only
      rw [ih]
      rfl

/-- A strict pass ends at the first piece that is skipped. -/
theorem scan_strict (beginsGroup : Bool) (cells : List Cell) :
    scan .strict beginsGroup cells =
      match skippedOf (cut cells) with
      | (c, column) :: _ => .error (.unrecognizedCharacter c column)
      | [] => .ok (tokensFrom beginsGroup (cut cells)) := by
  fun_induction cut cells generalizing beginsGroup with
  | case1 =>
    rw [scan]
    rfl
  | case2 c column rest piece more h ih =>
    cases piece with
    | skipped c' =>
      rw [scan, h]
      rfl
    | token t =>
      rw [scan, h, skippedOf_token]
      dsimp only
      rw [ih]
      cases skippedOf (cut (rest.drop more)) <;> rfl

/-- The tokens of a text are found in one pass. -/
theorem tokenize_eq_scan (mode : Mode) (source : List Char) :
    tokenize mode source = scan mode true (cells source) := by
  unfold tokenize
  cases mode with
  | permissive => exact (scan_permissive true _).symm
  | strict =>
    rw [scan_strict]
    dsimp only
    cases skippedOf (cut (cells source)) <;> rfl

/-! ## The first character that is skipped -/

theorem mem_skippedOf {pieces : List (Piece × Nat)} {c : Char} {column : Nat} :
    (c, column) ∈ skippedOf pieces ↔ (.skipped c, column) ∈ pieces := by
  induction pieces with
  | nil => exact ⟨nofun, nofun⟩
  | cons first pieces ih =>
    obtain ⟨piece, column'⟩ := first
    cases piece with
    | token t => simp [skippedOf_token, ih]
    | skipped c' =>
      show (c, column) ∈ (c', column') :: skippedOf pieces ↔ _
      simp [ih]

theorem skippedOf_eq_nil_iff {pieces : List (Piece × Nat)} :
    skippedOf pieces = [] ↔ ∀ piece ∈ pieces, ∃ t, piece.1 = .token t := by
  refine List.filterMap_eq_nil_iff.trans (forall₂_congr fun piece _ => ?_)
  obtain ⟨piece, column⟩ := piece
  cases piece with
  | token t => exact iff_of_true rfl ⟨t, rfl⟩
  | skipped c => exact iff_of_false nofun nofun

theorem skippedOf_eq_cons_iff {pieces : List (Piece × Nat)} {c : Char} {column : Nat}
    {others : List Cell} :
    skippedOf pieces = (c, column) :: others ↔
      ∃ before after, pieces = before ++ (.skipped c, column) :: after ∧
        (∀ piece ∈ before, ∃ t, piece.1 = .token t) ∧ skippedOf after = others := by
  constructor
  · intro h
    obtain ⟨before, ⟨piece, column'⟩, after, rfl, hbefore, hpiece, hafter⟩ :=
      List.filterMap_eq_cons_iff.1 h
    cases piece with
    | token t => cases hpiece
    | skipped c' =>
      cases hpiece
      exact ⟨before, after, rfl,
        skippedOf_eq_nil_iff.1 (List.filterMap_eq_nil_iff.2 hbefore), hafter⟩
  · rintro ⟨before, after, rfl, hbefore, rfl⟩
    rw [skippedOf_append, skippedOf_eq_nil_iff.2 hbefore]
    rfl

/-- The character is the first one that the pieces skip: what is in front of it are tokens, it
stands at the column of the source, and what else is skipped stands behind it. -/
def FirstSkipped (source : List Char) (pieces : List (Piece × Nat)) (c : Char) (column : Nat) :
    Prop :=
  ∃ before after, pieces = before ++ (.skipped c, column) :: after ∧
    (∀ piece ∈ before, ∃ t, piece.1 = .token t) ∧ StandsAt source (textOf before) c column ∧
    ∀ c' column', (.skipped c', column') ∈ pieces → column ≤ column'

/-- The columns of a cut are in order. -/
theorem IsCut.column_lt {source : List Char} {before after : List (Piece × Nat)}
    {piece : Piece × Nat} (h : IsCut source (before ++ piece :: after)) {other : Piece × Nat}
    (ho : other ∈ after) :
    piece.2 < other.2 := by
  have hcolumns : ((before ++ piece :: after).map Prod.snd).Pairwise (· < ·) := by
    rw [isCut_iff.1 h]
    exact (pairwise_cells source).sublist (columns_cut_sublist _)
  rw [List.map_append, List.map_cons] at hcolumns
  exact (List.pairwise_cons.1 (List.pairwise_append.1 hcolumns).2.1).1 _ (List.mem_map_of_mem ho)

theorem firstSkipped_iff {source : List Char} {pieces : List (Piece × Nat)}
    (h : IsCut source pieces) {c : Char} {column : Nat} :
    FirstSkipped source pieces c column ↔ ∃ others, skippedOf pieces = (c, column) :: others := by
  constructor
  · rintro ⟨before, after, hp, htokens, -, -⟩
    exact ⟨_, skippedOf_eq_cons_iff.2 ⟨before, after, hp, htokens, rfl⟩⟩
  · rintro ⟨others, hs⟩
    obtain ⟨before, after, rfl, htokens, -⟩ := skippedOf_eq_cons_iff.1 hs
    obtain ⟨-, c', hc, hstands⟩ := h.each before _ _ after rfl
    obtain rfl : c = c' := Option.some.inj hc
    refine ⟨before, after, rfl, htokens, hstands, fun c' column' hm => ?_⟩
    rcases List.mem_append.1 hm with hm | hm
    · obtain ⟨t, ht⟩ := htokens _ hm
      cases ht
    · rcases List.mem_cons.1 hm with he | hm
      · cases he
        exact Nat.le_refl _
      · exact Nat.le_of_lt (h.column_lt hm)

/-! ## What a mode makes of a text -/

variable {source : List Char}

/-- The strict mode ends with an error exactly if there is a first character to skip, and with
that. -/
theorem tokenize_strict_eq_error_iff {pieces : List (Piece × Nat)} (h : IsCut source pieces)
    {e : ParseError} :
    tokenize .strict source = .error e ↔
      ∃ c column, FirstSkipped source pieces c column ∧ e = .unrecognizedCharacter c column := by
  simp only [firstSkipped_iff h]
  rw [tokenize_eq_scan, scan_strict, ← isCut_iff.1 h]
  cases hs : skippedOf pieces with
  | nil => exact ⟨nofun, fun ⟨_, _, ⟨_, hn⟩, _⟩ => nomatch hn⟩
  | cons first others =>
    constructor
    · intro he
      exact ⟨first.1, first.2, ⟨others, rfl⟩, (Except.error.inj he).symm⟩
    · rintro ⟨c, column, ⟨_, hn⟩, rfl⟩
      cases hn
      rfl

/-- With the same tokens, all that is made of a text is the same. -/
theorem same_of_tokenize_eq {mode mode' : Mode} (h : tokenize mode source = tokenize mode' source) :
    parse mode source = parse mode' source ∧
      ∀ {σ : Type} (resolver : Resolver σ) (state : σ) (reads : Bool),
        valueOf mode source resolver state = valueOf mode' source resolver state ∧
        noticesOf mode source reads resolver state =
          noticesOf mode' source reads resolver state := by
  have hparse : parse mode source = parse mode' source := by
    unfold parse
    rw [h]
  refine ⟨hparse, fun resolver state reads => ⟨?_, ?_⟩⟩
  · unfold valueOf
    rw [hparse]
  · unfold noticesOf noticesOfParse
    rw [hparse, h]

/-- The permissive mode reports the characters that it skips. -/
theorem skipped_mem_noticesOfParse {c : Char} {column : Nat} :
    .skipped c column ∈ noticesOfParse .permissive source ↔
      (.skipped c, column) ∈ cut (cells source) := by
  rw [← mem_skippedOf]
  have hp : tokenize .permissive source = .ok (tokensFrom true (cut (cells source))) := rfl
  unfold noticesOfParse
  rw [hp]
  dsimp only
  constructor
  · intro hm
    rcases List.mem_append.1 hm with hm | hm
    · obtain ⟨⟨c', column'⟩, hs, he⟩ := List.mem_map.1 hm
      cases he
      exact hs
    · split at hm
      · rcases List.mem_cons.1 hm with he | hm <;> contradiction
      · rcases List.mem_cons.1 hm with he | hm
        · cases he
        · cases List.mem_singleton.1 hm
  · intro hs
    exact List.mem_append_left _ (List.mem_map.2 ⟨_, hs, rfl⟩)

/-- **The modes differ in refusing.**  In either mode the tokens are found in one pass.  The
permissive one always has tokens, those that the pieces of the text stand for, and reports what it
skips.  The strict one fails exactly if anything is skipped, with the first such character and its
column, and then that is the result for the tree too; otherwise it agrees with the permissive one on
the tokens and on all that comes of them. -/
theorem modes_differ_in_refusing (source : List Char) :
    ∃ pieces, (∀ other, IsCut source other ↔ other = pieces) ∧
      (∀ mode, tokenize mode source = scan mode true (cells source)) ∧
      tokenize .permissive source = .ok (completed [] pieces) ∧
      (∀ c column, .skipped c column ∈ noticesOfParse .permissive source ↔
        (.skipped c, column) ∈ pieces) ∧
      ((∃ e, tokenize .strict source = .error e) ↔ ∃ c column, (.skipped c, column) ∈ pieces) ∧
      (∀ e, tokenize .strict source = .error e ↔
        ∃ c column, FirstSkipped source pieces c column ∧ e = .unrecognizedCharacter c column) ∧
      (∀ e, tokenize .strict source = .error e → parse .strict source = .error e) ∧
      ((∀ c column, (.skipped c, column) ∉ pieces) →
        tokenize .strict source = tokenize .permissive source ∧
        parse .strict source = parse .permissive source ∧
        ∀ {σ : Type} (resolver : Resolver σ) (state : σ) (reads : Bool),
          valueOf .strict source resolver state = valueOf .permissive source resolver state ∧
          noticesOf .strict source reads resolver state =
            noticesOf .permissive source reads resolver state) := by
  have hcut : IsCut source (cut (cells source)) := isCut_iff.2 rfl
  refine ⟨cut (cells source), fun _ => isCut_iff, fun mode => tokenize_eq_scan mode source, ?_,
    fun _ _ => skipped_mem_noticesOfParse, ?_, fun _ => tokenize_strict_eq_error_iff hcut, ?_, ?_⟩
  · have hp : tokenize .permissive source = .ok (tokensFrom true (cut (cells source))) := rfl
    rw [hp, eq_completed_of_tokenize hp]
  · simp only [tokenize_strict_eq_error_iff hcut, firstSkipped_iff hcut, ← mem_skippedOf]
    constructor
    · rintro ⟨_, c, column, ⟨others, hs⟩, -⟩
      exact ⟨c, column, hs ▸ List.mem_cons_self⟩
    · rintro ⟨c, column, hm⟩
      rcases hs : skippedOf (cut (cells source)) with _ | ⟨⟨c', column'⟩, others⟩
      · rw [hs] at hm
        cases hm
      · exact ⟨_, c', column', ⟨others, rfl⟩, rfl⟩
  · intro e he
    unfold parse
    rw [he]
  · intro hnone
    have hs : skippedOf (cut (cells source)) = [] :=
      List.eq_nil_iff_forall_not_mem.2 fun cell hm => hnone cell.1 cell.2 (mem_skippedOf.1 hm)
    have ht : tokenize .strict source = tokenize .permissive source :=
      (tokenize_of_cut rfl hs .strict).trans (tokenize_of_cut rfl hs .permissive).symm
    exact ⟨ht, same_of_tokenize_eq ht⟩

/-- The parenthesis is wrong in both modes, but the strict one does not come to say so. -/
theorem modes_differ_in_refusing_closing :
    (∃ pieces, IsCut ") #".toList pieces ∧ FirstSkipped ") #".toList pieces '#' 3) ∧
      tokenize .strict ") #".toList = .error (.unrecognizedCharacter '#' 3) ∧
      parse .strict ") #".toList = .error (.unrecognizedCharacter '#' 3) ∧
      parse .permissive ") #".toList = .error (.unexpectedToken [')'] 1) ∧
      tokenize .strict "2 x".toList = tokenize .permissive "2 x".toList := by
  have hpieces : cut (cells ") #".toList) = [(.token .closing, 1), (.skipped '#', 3)] := by
    decide +kernel
  have hnone : cut (cells "2 x".toList) =
      [(.token (.number ['2']), 1), (.token (.identifier 'x'), 3)] := by
    decide +kernel
  have hcut : IsCut ") #".toList (cut (cells ") #".toList)) := isCut_iff.2 rfl
  have hfirst : FirstSkipped ") #".toList (cut (cells ") #".toList)) '#' 3 :=
    (firstSkipped_iff hcut).2 ⟨[], by rw [hpieces]; rfl⟩
  have hpermissive : parse .permissive ") #".toList = .error (.unexpectedToken [')'] 1) := by
    unfold parse tokenize
    rw [hpieces]
    show parseTokens [⟨.closing, 1⟩] = _
    refine parseTokens_eq_error.2 (.inl ?_)
    rw [bare_expression, bare_term, bare_factor_of_not rfl]
    rfl
  obtain ⟨pieces, hunique, -, -, -, -, herror, hparse, -⟩ := modes_differ_in_refusing ") #".toList
  obtain ⟨pieces', hunique', -, -, -, -, -, -, hsame⟩ := modes_differ_in_refusing "2 x".toList
  obtain rfl := (hunique _).1 hcut
  obtain rfl := (hunique' _).1 (isCut_iff.2 rfl)
  have hstrict := (herror _).2 ⟨'#', 3, hfirst, rfl⟩
  refine ⟨⟨_, hcut, hfirst⟩, hstrict, hparse _ hstrict, hpermissive,
    (hsame fun c column hm => ?_).1⟩
  rw [hnone] at hm
  simp at hm

end Argand
