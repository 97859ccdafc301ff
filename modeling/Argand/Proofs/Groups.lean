import Argand.Proofs.Blanks
import Argand.Proofs.Columns
import Argand.Proofs.Literal
import Argand.Proofs.Sums

/-!
What is put in parentheses is read as it would be alone.

Texts are put together at parentheses here, and so are their cells, their pieces, their tokens and
their trees:

| | |
| :-- | :-- |
| `cells_append` | the cells of the text behind another one, shifted by the length of that |
| `cut_append` | no piece goes on with a parenthesis, so the cut is local there |
| `tokensIn_grouped_append` | a sign begins a group exactly where it would begin a text of its own |
| `derives_inside` | a closing parenthesis takes nothing from what it closes |

A group is then a factor like any other.  An exponent behind it belongs to it, which in `(e₁)**(e₂)`
is all there is to belong to.

Main statement: a text that is parsed on its own is parsed to the same tree, shifted, in
parentheses, under a root, a conjugate and a minus sign, and on either side of each binary operator;
so every tree can be written whose leaves are numbers and letters as they stand in a text
(`parse_grouped`).
-/

namespace Argand

-- What holds of the members of a list is decided along the list, not character by character.
attribute [local instance (high)] List.decidableBAll

/-! ## Cells -/

/-- The column that is `n` further on. -/
def shift (n : Nat) : Nat → Nat := (· + n)

theorem shift_comp (m n : Nat) : shift m ∘ shift n = shift (n + m) := by
  funext column
  exact Nat.add_assoc column n m

theorem map_shift_map_shift {α : Type} (m n : Nat) (l : List (α × Nat)) :
    (l.map (Prod.map id (shift n))).map (Prod.map id (shift m)) =
      l.map (Prod.map id (shift (n + m))) := by
  rw [List.map_map, Prod.map_comp_map, shift_comp, Function.id_comp]

theorem cells_append (front back : List Char) :
    cells (front ++ back) = cells front ++ (cells back).map (Prod.map id (shift front.length)) := by
  have hz : back.zipIdx (1 + front.length) =
      (back.zipIdx 1).map (Prod.map id (shift front.length)) := by
    rw [List.zipIdx_eq_map_add, List.zipIdx_eq_map_add (i := 1), List.map_map]
    refine List.map_congr_left fun cell _ => ?_
    show (_, _) = (_, 1 + cell.2 + front.length)
    congr 1
    omega
  unfold cells
  rw [List.zipIdx_append, List.filter_append, hz, List.filter_map]
  rfl

/-! ## Pieces -/

/-- The character is a mark of its own, whatever is in front of it. -/
def Stops (c : Char) : Prop := c ∈ marks ∧ c ≠ '*'

theorem mem_head?_append {α : Type} {front back : List α} {x : α} (h : x ∈ (front ++ back).head?) :
    x ∈ front.head? ∨ x ∈ back.head? := by
  cases front with
  | nil => exact .inr h
  | cons y front => exact .inl h

theorem prefix_of_stops {word front back : List Char} (hw : ∀ c ∈ word, c ∉ marks)
    (hb : ∀ c ∈ back.head?, Stops c) (h : word <+: front ++ back) : word <+: front := by
  rcases List.prefix_or_prefix_of_prefix h (List.prefix_append front back) with hp | ⟨rest, rfl⟩
  · exact hp
  · have hr : rest <+: back := (List.prefix_append_right_inj front).1 h
    cases rest with
    | nil => simp
    | cons c rest =>
      obtain ⟨more, rfl⟩ := hr
      exact absurd (hb c rfl).1 (hw c (by simp))

namespace Piece

/-- A piece that could not be longer could not be either before what stops it. -/
theorem Maximal.append {piece : Piece} {rest back : List Char} (h : piece.Maximal rest)
    (hb : ∀ c ∈ back.head?, Stops c) : piece.Maximal (rest ++ back) := by
  have hdigit : ∀ c ∈ back.head?, c.isDigit = false := fun c hc =>
    not_isDigit_of_mem_marks (hb c hc).1
  cases piece with
  | skipped d =>
    obtain ⟨ha, hd, hm, hp⟩ := h
    refine ⟨ha, hd, hm, fun hpoint c hc => ?_⟩
    rcases mem_head?_append hc with hc | hc
    · exact hp hpoint c hc
    · exact hdigit c hc
  | token t =>
    cases t with
    | number lexeme =>
      refine ⟨h.1, fun c hc => ?_⟩
      rcases mem_head?_append hc with hc | hc
      · exact h.2 c hc
      · rintro (hd | rfl)
        · rw [hdigit c hc] at hd
          cases hd
        · exact absurd (hb _ hc).1 (by decide)
    | identifier d =>
      refine ⟨h.1, fun ⟨hc, hp⟩ => h.2 ⟨hc, ?_⟩⟩
      exact prefix_of_stops (by decide) hb hp
    | star =>
      intro hs
      rcases mem_head?_append hs with hc | hc
      · exact h hc
      · exact (hb _ hc).2 rfl
    | _ => trivial

end Piece

/-- The cut is local before a mark that stops what is in front of it. -/
theorem cut_append {front back : List Cell} (hb : ∀ c ∈ (back.map Prod.fst).head?, Stops c) :
    cut (front ++ back) = cut front ++ cut back := by
  fun_induction cut front with
  | case1 => rfl
  | case2 c column rest piece more h ih =>
    have hm := Piece.maximal_beginning c rest
    have ht := Piece.text_beginning_append c rest
    have hr := Piece.beginning_of_maximal hm ht
    rw [h] at hm ht hr
    -- What could not be longer in front of the rest cannot be longer in front of the mark behind
    -- it.
    have hb' : Piece.beginning c (rest ++ back) = (piece, more) := by
      rw [hr]
      refine Piece.beginning_of_maximal (hm.append hb) ?_
      rw [List.map_append, ← List.cons_append, ht, List.append_assoc]
    have hle : more ≤ rest.length := by
      have hl := congrArg List.length ht
      simp only [List.length_cons, List.length_append, List.length_map] at hl
      have hmore : more = piece.text.length - 1 := congrArg Prod.snd hr
      omega
    rw [List.cons_append, cut, hb']
    dsimp only
    rw [List.drop_append_of_le_length hle, ih, List.cons_append]

/-- The cut begins with a token that could not be longer. -/
theorem cut_token_append {t : Token} {more : List Char}
    (hb : ∀ c ∈ t.text, Text.isBlank c = false)
    (hm : (Piece.token t).Maximal (Text.withoutBlanks more)) :
    cut (cells (t.text ++ more)) =
      (.token t, 1) :: (cut (cells more)).map (Prod.map id (shift t.text.length)) := by
  obtain ⟨c, tail, ht⟩ : ∃ c tail, t.text = c :: tail :=
    List.exists_cons_of_ne_nil (Piece.text_ne_nil hm)
  have hc : cells t.text = (c, 1) :: tail.zipIdx 2 := by
    unfold cells
    rw [ht] at hb ⊢
    exact List.filter_eq_self.2 fun cell h => by
      simpa using hb cell.1 (List.fst_mem_of_mem_zipIdx h)
  have hfst : ((cells more).map (Prod.map id (shift t.text.length))).map Prod.fst =
      Text.withoutBlanks more := by
    rw [List.map_map, ← map_fst_cells]
    rfl
  have hbeg : Piece.beginning c
      (tail.zipIdx 2 ++ (cells more).map (Prod.map id (shift t.text.length))) =
      (Piece.token t, t.text.length - 1) := by
    refine Piece.beginning_of_maximal hm ?_
    rw [List.map_append, List.zipIdx_map_fst, hfst, ← List.cons_append, ← ht]
    rfl
  have hlen : t.text.length - 1 = (tail.zipIdx 2).length := by
    rw [ht, List.length_zipIdx, List.length_cons, Nat.add_sub_cancel]
  rw [cells_append, hc, List.cons_append, cut, hbeg]
  dsimp only
  rw [hlen, List.drop_left, cut_map]

/-! ## Tokens -/

/-- The tokens of a text.  The flag tells whether a sign at its beginning begins a group. -/
def tokensIn (beginsGroup : Bool) (source : List Char) : List Placed :=
  tokensFrom beginsGroup (cut (cells source))

theorem tokensIn_nil (flag : Bool) : tokensIn flag [] = [] := by
  unfold tokensIn cells
  rw [List.zipIdx_nil, List.filter_nil, cut, tokensFrom]

/-- The mode permits the characters of the text. -/
def Mode.Permits (mode : Mode) (source : List Char) : Prop :=
  mode = .strict → skippedOf (cut (cells source)) = []

theorem tokenize_eq_ok_iff {mode : Mode} {source : List Char} {tokens : List Placed} :
    tokenize mode source = .ok tokens ↔ mode.Permits source ∧ tokens = tokensIn true source := by
  constructor
  · intro h
    refine ⟨?_, eq_tokensFrom_of_tokenize h⟩
    rintro rfl
    unfold tokenize at h
    dsimp only at h
    split at h
    · cases h
    · next hn =>
      cases hs : skippedOf (cut (cells source)) with
      | nil => rfl
      | cons cell more => exact absurd hs (hn cell.1 cell.2 more rfl)
  · rintro ⟨hp, rfl⟩
    unfold tokenize
    cases mode with
    | permissive => rfl
    | strict =>
      dsimp only
      rw [hp rfl]
      rfl

/-- A text in parentheses. -/
def grouped (source : List Char) : List Char := '(' :: source ++ [')']

theorem cut_grouped_append (source more : List Char) :
    cut (cells (grouped source ++ more)) =
      (.token .opening, 1) :: ((cut (cells source)).map (Prod.map id (shift 1)) ++
        (.token .closing, source.length + 2) ::
          (cut (cells more)).map (Prod.map id (shift (source.length + 2)))) := by
  have ht : grouped source ++ more =
      Token.opening.text ++ (source ++ (Token.closing.text ++ more)) := by
    simp [grouped, Token.text]
  have hclosing : cut (cells (Token.closing.text ++ more)) =
      (.token .closing, 1) :: (cut (cells more)).map (Prod.map id (shift 1)) :=
    cut_token_append (by decide) trivial
  have hstops : ∀ c ∈ (((cells (Token.closing.text ++ more)).map
      (Prod.map id (shift source.length))).map Prod.fst).head?, Stops c := by
    rw [List.map_map]
    show ∀ c ∈ ((cells (Token.closing.text ++ more)).map Prod.fst).head?, Stops c
    rw [map_fst_cells]
    rintro c ⟨⟩
    exact ⟨by decide, by decide⟩
  have hopening : cut (cells (Token.opening.text ++ (source ++ (Token.closing.text ++ more)))) =
      (.token .opening, 1) ::
        (cut (cells (source ++ (Token.closing.text ++ more)))).map (Prod.map id (shift 1)) :=
    cut_token_append (by decide) trivial
  have hcolumn : shift (source.length + 1) 1 = source.length + 2 := Nat.add_comm 1 _
  rw [ht, hopening, cells_append, cut_append hstops, cut_map, hclosing, List.map_append,
    map_shift_map_shift, List.map_cons, map_shift_map_shift, Prod.map_apply, hcolumn,
    Nat.add_comm 1 (source.length + 1)]
  rfl

/-- Whether a sign begins a group is told by the token in front of it, so behind a token that is no
sign itself nothing depends on what is further in front. -/
theorem tokensFrom_append {t : Token} (ht : t.isSign = false) (flag : Bool)
    (front back : List (Piece × Nat)) (column : Nat) :
    tokensFrom flag (front ++ (.token t, column) :: back) =
      tokensFrom flag front ++ ⟨t, column⟩ :: tokensFrom (t = .opening) back := by
  induction front generalizing flag with
  | nil => simp [tokensFrom, ht]
  | cons first front ih =>
    obtain ⟨piece, column'⟩ := first
    cases piece with
    | skipped c => exact ih false
    | token t' =>
      rw [List.cons_append, tokensFrom, tokensFrom, ih, List.append_assoc, List.cons_append]

/-- The tokens of a text in parentheses, `n` columns further on. -/
def groupTokens (n : Nat) (source : List Char) : List Placed :=
  ⟨.opening, n + 1⟩ :: (tokensIn true source).map (Placed.mapColumn (shift (n + 1))) ++
    [⟨.closing, n + source.length + 2⟩]

/-- Inside the parentheses a sign at the beginning begins a group, and behind them it does not. -/
theorem tokensIn_grouped_append (flag : Bool) (source more : List Char) :
    tokensIn flag (grouped source ++ more) = groupTokens 0 source ++
      (tokensIn false more).map (Placed.mapColumn (shift (source.length + 2))) := by
  have hopening : Token.opening.isSign = false := rfl
  unfold tokensIn groupTokens tokensIn
  rw [cut_grouped_append, tokensFrom, hopening, Bool.and_false,
    tokensFrom_append (t := .closing) rfl, tokensFrom_map, tokensFrom_map]
  simp

theorem tokensIn_grouped (flag : Bool) (source : List Char) :
    tokensIn flag (grouped source) = groupTokens 0 source := by
  have h := tokensIn_grouped_append flag source []
  rwa [List.append_nil, tokensIn_nil, List.map_nil, List.append_nil] at h

theorem tokensIn_token {t : Token} {more : List Char}
    (hb : ∀ c ∈ t.text, Text.isBlank c = false)
    (hm : (Piece.token t).Maximal (Text.withoutBlanks more)) (flag : Bool) :
    tokensIn flag (t.text ++ more) =
      (if flag && t.isSign then [⟨.number ['0'], 1⟩] else []) ++
        ⟨t, 1⟩ :: (tokensIn (t = .opening) more).map (Placed.mapColumn (shift t.text.length)) := by
  unfold tokensIn
  rw [cut_token_append hb hm, tokensFrom, tokensFrom_map]

theorem mapColumn_shift_comp (m n : Nat) :
    Placed.mapColumn (shift m) ∘ Placed.mapColumn (shift n) = Placed.mapColumn (shift (n + m)) := by
  funext t
  exact congrArg (Placed.mk t.token) (congrFun (shift_comp m n) t.column)

theorem map_groupTokens (m n : Nat) (source : List Char) :
    (groupTokens n source).map (Placed.mapColumn (shift m)) = groupTokens (n + m) source := by
  have ho : shift m (n + 1) = n + m + 1 := Nat.add_right_comm n 1 m
  have hc : shift m (n + source.length + 2) = n + m + source.length + 2 := by
    unfold shift
    omega
  unfold groupTokens
  rw [List.map_append, List.map_cons, List.map_map, mapColumn_shift_comp, Nat.add_right_comm n 1 m,
    List.map_singleton, Placed.mapColumn, Placed.mapColumn, ho, hc]

/-- The tokens of a group behind one that is as long as it can be. -/
theorem tokensIn_token_grouped {t : Token} {source : List Char}
    (hb : ∀ c ∈ t.text, Text.isBlank c = false)
    (hm : (Piece.token t).Maximal (Text.withoutBlanks (grouped source))) (flag : Bool) :
    tokensIn flag (t.text ++ grouped source) =
      (if flag && t.isSign then [⟨.number ['0'], 1⟩] else []) ++
        ⟨t, 1⟩ :: groupTokens t.text.length source := by
  rw [tokensIn_token hb hm, tokensIn_grouped, map_groupTokens, Nat.zero_add]

theorem skippedOf_token (t : Token) (column : Nat) (pieces : List (Piece × Nat)) :
    skippedOf ((.token t, column) :: pieces) = skippedOf pieces :=
  rfl

theorem skippedOf_append (front back : List (Piece × Nat)) :
    skippedOf (front ++ back) = skippedOf front ++ skippedOf back :=
  List.filterMap_append

namespace Mode.Permits

variable {mode : Mode} {source more : List Char}

theorem nil : mode.Permits [] := fun _ => by
  unfold cells
  rw [List.zipIdx_nil, List.filter_nil, cut]
  rfl

theorem token (h : mode.Permits more) {t : Token} (hb : ∀ c ∈ t.text, Text.isBlank c = false)
    (hm : (Piece.token t).Maximal (Text.withoutBlanks more)) : mode.Permits (t.text ++ more) := by
  intro hs
  rw [cut_token_append hb hm, skippedOf_token, skippedOf_map, h hs, List.map_nil]

theorem group (h : mode.Permits source) (h' : mode.Permits more) :
    mode.Permits (grouped source ++ more) := by
  intro hs
  rw [cut_grouped_append, skippedOf_token, skippedOf_append, skippedOf_token, skippedOf_map,
    skippedOf_map, h hs, h' hs]
  rfl

end Mode.Permits

/-! ## Trees -/

section

variable {mode : Mode} {source : List Char} {tree : Expr}

theorem Numerals.map_mapColumn {tokens : List Placed} (h : Numerals tokens) (f : Nat → Nat) :
    Numerals (tokens.map (Placed.mapColumn f)) := by
  intro lexeme column hm
  obtain ⟨⟨token, column'⟩, ht, he⟩ := List.mem_map.1 hm
  cases he
  exact h lexeme column' ht

/-- What is read from a text alone is read from it before a closing parenthesis. -/
theorem derives_inside (h : parse mode source = .ok tree) (n : Nat) :
    Derives .greedy .expression ((tokensIn true source).map (Placed.mapColumn (shift n)))
      (some .closing) (tree.mapColumns (shift n)) := by
  obtain ⟨tokens, ht, hd⟩ := parse_eq_ok_iff.1 h
  obtain ⟨-, rfl⟩ := tokenize_eq_ok_iff.1 ht
  have hp := parseTokens_mapColumn (shift n) (tokensIn true source)
  rw [parseTokens_of_derives hd] at hp
  have hn := (numerals_of_tokenize ht).map_mapColumn (shift n)
  exact (derives_of_parseTokens hn hp).before (by simp) (by simp)

theorem permits_of_parse (h : parse mode source = .ok tree) : mode.Permits source := by
  obtain ⟨tokens, ht, -⟩ := parse_eq_ok_iff.1 h
  exact (tokenize_eq_ok_iff.1 ht).1

/-- A group is a factor. -/
theorem derives_groupTokens (h : parse mode source = .ok tree) (n : Nat) {next : Option Token}
    (hn : next ≠ some .power) :
    Derives .greedy .factor (groupTokens n source) next (tree.mapColumns (shift (n + 1))) :=
  .group (mayOmit_greedy.2 hn) (derives_inside h (n + 1))

/-- A group with another one behind an operator. -/
theorem derives_operator {source' : List Char} {tree' : Expr} (h : parse mode source = .ok tree)
    (h' : parse mode source' = .ok tree') {token : Token} {op : BinaryOperator}
    (hop : token.operator? = some op) (column n : Nat) :
    Derives .greedy .expression (groupTokens 0 source ++ ⟨token, column⟩ :: groupTokens n source')
      none (.binary op (tree.mapColumns (shift 1)) (tree'.mapColumns (shift (n + 1))) column) := by
  have hr : Derives .greedy .factor (groupTokens n source') none
      (tree'.mapColumns (shift (n + 1))) := derives_groupTokens h' n nofun
  have hl (hp : op ≠ .pow) : Derives .greedy .factor (groupTokens 0 source) (some token)
      (tree.mapColumns (shift 1)) := by
    refine derives_groupTokens h 0 ?_
    rintro ⟨⟩
    exact hp (Option.some.inj hop).symm
  cases op with
  | add => exact .sum hop (.inl rfl) (.ofTerm (.ofFactor (hl nofun))) (.ofFactor hr)
  | sub => exact .sum hop (.inr rfl) (.ofTerm (.ofFactor (hl nofun))) (.ofFactor hr)
  | mul => exact .ofTerm (.product hop (.inl rfl) (.ofFactor (hl nofun)) hr)
  | div => exact .ofTerm (.product hop (.inr rfl) (.ofFactor (hl nofun)) hr)
  | pow =>
    -- The exponent belongs to the group on its left, which is all that is there.
    obtain rfl := eq_power_of_operator? hop
    have hg : Derives .greedy .factor
        (⟨.opening, 1⟩ :: (tokensIn true source).map (Placed.mapColumn (shift 1)) ++
          ⟨.closing, 0 + source.length + 2⟩ :: ⟨.power, column⟩ :: groupTokens n source') none _ :=
      .raisedGroup (derives_inside h 1) (.base nofun hr)
    rw [groupTokens, List.append_assoc]
    exact .ofTerm (.ofFactor hg)

end

theorem exists_operator? (op : BinaryOperator) : ∃ token : Token, token.operator? = some op :=
  match op with
  | .add => ⟨.plus, rfl⟩
  | .sub => ⟨.minus, rfl⟩
  | .mul => ⟨.star, rfl⟩
  | .div => ⟨.slash, rfl⟩
  | .pow => ⟨.power, rfl⟩

section

variable {token : Token} {op : BinaryOperator} (hop : token.operator? = some op)
include hop

theorem isBlank_of_operator? : ∀ c ∈ token.text, Text.isBlank c = false := by
  rw [text_of_operator? hop]
  cases op <;> decide

theorem maximal_of_operator? (source : List Char) :
    (Piece.token token).Maximal (Text.withoutBlanks (grouped source)) := by
  cases token <;> cases hop
  case star =>
    rintro ⟨⟩
  all_goals trivial

/-- The tokens of two groups with an operator between them. -/
theorem tokensIn_operator (source source' : List Char) :
    tokensIn true (grouped source ++ (op.text ++ grouped source')) =
      groupTokens 0 source ++ ⟨token, source.length + 3⟩ ::
        groupTokens (source.length + op.text.length + 2) source' := by
  have ht : tokensIn false (op.text ++ grouped source') =
      ⟨token, 1⟩ :: groupTokens op.text.length source' := by
    rw [← text_of_operator? hop]
    exact tokensIn_token_grouped (isBlank_of_operator? hop) (maximal_of_operator? hop source') false
  have hcolumn : shift (source.length + 2) 1 = source.length + 3 := Nat.add_comm 1 _
  have hlength : op.text.length + (source.length + 2) = source.length + op.text.length + 2 := by
    omega
  rw [tokensIn_grouped_append, ht, List.map_cons, map_groupTokens, Placed.mapColumn, hcolumn,
    hlength]

end

theorem parse_of_derives {mode : Mode} {source : List Char} {tokens : List Placed} {tree : Expr}
    (hp : mode.Permits source) (ht : tokensIn true source = tokens)
    (hd : Derives .greedy .expression tokens none tree) : parse mode source = .ok tree :=
  parse_eq_ok_iff.2 ⟨tokens, tokenize_eq_ok_iff.2 ⟨hp, ht.symm⟩, hd⟩

section

variable {mode : Mode} {source : List Char} {tree : Expr} (h : parse mode source = .ok tree)
include h

theorem permits_grouped : mode.Permits (grouped source) := by
  have hp := (permits_of_parse h).group .nil
  rwa [List.append_nil] at hp

theorem parse_group : parse mode (grouped source) = .ok (tree.mapColumns (shift 1)) :=
  parse_of_derives (permits_grouped h) (tokensIn_grouped true source)
    (.ofTerm (.ofFactor (derives_groupTokens h 0 nofun)))

theorem parse_root :
    parse mode ('√' :: grouped source) = .ok (.unary .sqrt (tree.mapColumns (shift 2)) 1) := by
  have hb : ∀ c ∈ Token.radical.text, Text.isBlank c = false := by decide
  exact parse_of_derives ((permits_grouped h).token hb trivial)
    (tokensIn_token_grouped hb trivial true)
    (.ofTerm (.ofFactor (.root (derives_groupTokens h 1 nofun))))

theorem parse_conj :
    parse mode ('c' :: 'o' :: 'n' :: 'j' :: grouped source) =
      .ok (.unary .conj (tree.mapColumns (shift 5)) 1) := by
  have hb : ∀ c ∈ Token.conj.text, Text.isBlank c = false := by decide
  exact parse_of_derives ((permits_grouped h).token hb trivial)
    (tokensIn_token_grouped hb trivial true)
    (.ofTerm (.ofFactor (.conj (derives_inside h 5))))

/-- A minus sign takes what is in parentheses from a zero. -/
theorem parse_negation :
    parse mode ('-' :: grouped source) =
      .ok (.binary .sub (.literal .zero 1) (tree.mapColumns (shift 2)) 1) := by
  have hb : ∀ c ∈ Token.minus.text, Text.isBlank c = false := by decide
  have hzero : IsNumber ['0'] := ⟨.digit rfl nofun, by decide⟩
  have hl : Derives .greedy .expression [⟨.number ['0'], 1⟩] (some .minus) (.literal .zero 1) :=
    .ofTerm (.ofFactor (.real hzero nofun))
  exact parse_of_derives ((permits_grouped h).token hb trivial)
    (tokensIn_token_grouped hb trivial true)
    (.sum rfl (.inr rfl) hl (.ofFactor (derives_groupTokens h 1 nofun)))

theorem parse_operator {source' : List Char} {tree' : Expr} (h' : parse mode source' = .ok tree')
    (op : BinaryOperator) :
    parse mode (grouped source ++ (op.text ++ grouped source')) =
      .ok (.binary op (tree.mapColumns (shift 1))
        (tree'.mapColumns (shift (source.length + op.text.length + 3))) (source.length + 3)) := by
  obtain ⟨token, hop⟩ := exists_operator? op
  have hp' : mode.Permits (op.text ++ grouped source') := by
    rw [← text_of_operator? hop]
    exact (permits_grouped h').token (isBlank_of_operator? hop) (maximal_of_operator? hop source')
  exact parse_of_derives ((permits_of_parse h).group hp') (tokensIn_operator hop source source')
    (derives_operator h h' hop (source.length + 3) (source.length + op.text.length + 2))

end

/-! ## Trees that can be written -/

/-- A text is parsed to the tree, up to columns. -/
def Expr.Writable (mode : Mode) (tree : Expr) : Prop :=
  ∃ source tree', parse mode source = .ok tree' ∧
    tree'.mapColumns noColumn = tree.mapColumns noColumn

/-- A leaf as it can stand in a text: a number, a number of units, the unit, or any other letter. -/
inductive Expr.IsAtom : Expr → Prop
  | literal (m : Summand) (column : Nat) : IsAtom (.literal m.value column)
  | name {name} (column : Nat) : Text.isAlphabetic name → name ≠ 'i' → IsAtom (.var name column)

theorem isBlank_of_isAlphabetic {c : Char} (h : Text.isAlphabetic c) : Text.isBlank c = false := by
  have hapart : Text.alphabeticRanges.all (fun r =>
      Text.blankRanges.all fun b => decide (b.2 < r.1) || decide (r.2 < b.1)) = true := by
    decide +kernel
  obtain ⟨r, hr, hc⟩ := List.any_eq_true.1 h
  rw [Bool.eq_false_iff]
  intro hb
  obtain ⟨b, hb, hc'⟩ := List.any_eq_true.1 hb
  have := List.all_eq_true.1 (List.all_eq_true.1 hapart r hr) b hb
  simp only [Bool.or_eq_true, Bool.and_eq_true, decide_eq_true_eq] at this hc hc'
  omega

/-- Tokens that are written one behind the other and read as a factor. -/
theorem writable_of_spelled {ts : List Token} {tree : Expr} (hs : Separate ts)
    (hb : ∀ c ∈ spelled ts, Text.isBlank c = false) (hc : completedFrom true ts = ts)
    (hd : ∀ tokens, tokens.map Placed.token = ts → ∃ tree',
      Derives .greedy .factor tokens none tree' ∧
        tree'.mapColumns noColumn = tree.mapColumns noColumn) (mode : Mode) :
    tree.Writable mode := by
  have hw : Text.withoutBlanks (spelled ts) = spelled ts :=
    List.filter_eq_self.2 fun c hm => by rw [hb c hm, Bool.not_false]
  obtain ⟨tokens, ht, hm⟩ := tokenize_spelled hs hw mode
  obtain ⟨tree', hd, he⟩ := hd tokens (hm.trans hc)
  exact ⟨spelled ts, tree', parse_eq_ok_iff.2 ⟨tokens, ht, .ofTerm (.ofFactor hd)⟩, he⟩

theorem Summand.not_isBlank (m : Summand) : ∀ c ∈ spelled m.tokens, Text.isBlank c = false := by
  have hnumber (l : Number) : ∀ c ∈ l.1, Text.isBlank c = false := by
    intro c hc
    rcases isRun_of_isNumeral l.2.1 c hc with hd | rfl
    · exact isBlank_of_isDigit hd
    · decide
  have hunit : ∀ c ∈ spelled [.identifier 'i'], Text.isBlank c = false := by decide
  cases m with
  | real l =>
    show ∀ c ∈ spelled [.number l.1], Text.isBlank c = false
    rw [spelled_cons]
    exact List.forall_mem_append.2 ⟨hnumber l, nofun⟩
  | imaginary l =>
    show ∀ c ∈ spelled [.number l.1, .identifier 'i'], Text.isBlank c = false
    rw [spelled_cons]
    exact List.forall_mem_append.2 ⟨hnumber l, hunit⟩
  | unit => exact hunit

theorem Expr.IsAtom.writable {leaf : Expr} (h : leaf.IsAtom) (mode : Mode) :
    leaf.Writable mode := by
  cases h with
  | literal m column =>
    have hc : completedFrom true m.tokens = m.tokens := by
      cases m <;> rfl
    have hs : Separate m.tokens := by
      rw [← List.append_nil m.tokens]
      exact separate_summand m trivial nofun
    refine writable_of_spelled hs m.not_isBlank hc (fun tokens ht => ?_) mode
    have hnext : (none : Option Token) ≠ some (.identifier 'i') := nofun
    obtain ⟨column', hd⟩ := m.derives ht hnext
    exact ⟨_, hd, rfl⟩
  | @name name column ha hi =>
    have hs : Separate [.identifier name] := ⟨⟨ha, nofun⟩, trivial⟩
    have hb : ∀ c ∈ spelled [.identifier name], Text.isBlank c = false :=
      List.forall_mem_singleton.2 (isBlank_of_isAlphabetic ha)
    refine writable_of_spelled hs hb rfl (fun tokens ht => ?_) mode
    obtain ⟨⟨token, column'⟩, rfl, rfl⟩ := List.map_eq_singleton_iff.1 ht
    exact ⟨_, .name hi, rfl⟩

/-- The literals and variables of a tree. -/
def Expr.leaves : Expr → List Expr
  | .literal value column => [.literal value column]
  | .var name column => [.var name column]
  | .unary _ operand _ => operand.leaves
  | .binary _ left right _ => left.leaves ++ right.leaves

theorem Expr.mapColumns_noColumn (f : Nat → Nat) (tree : Expr) :
    (tree.mapColumns f).mapColumns noColumn = tree.mapColumns noColumn :=
  tree.mapColumns_mapColumns f noColumn

/-- Over leaves that can be written every tree can be. -/
theorem Expr.writable_of_leaves {mode : Mode} {tree : Expr}
    (h : ∀ leaf ∈ tree.leaves, leaf.IsAtom) : tree.Writable mode := by
  induction tree with
  | literal value column => exact (h _ (List.mem_singleton_self _)).writable mode
  | var name column => exact (h _ (List.mem_singleton_self _)).writable mode
  | unary op operand column ih =>
    obtain ⟨source, tree', hp, he⟩ := ih h
    cases op with
    | sqrt =>
      refine ⟨_, _, parse_root hp, ?_⟩
      rw [mapColumns, mapColumns_noColumn, he, mapColumns]
      rfl
    | conj =>
      refine ⟨_, _, parse_conj hp, ?_⟩
      rw [mapColumns, mapColumns_noColumn, he, mapColumns]
      rfl
  | binary op left right column ihl ihr =>
    obtain ⟨hl, hr⟩ := List.forall_mem_append.1 h
    obtain ⟨source, tree', hp, he⟩ := ihl hl
    obtain ⟨source', tree'', hp', he'⟩ := ihr hr
    refine ⟨_, _, parse_operator hp hp' op, ?_⟩
    rw [mapColumns, mapColumns_noColumn, mapColumns_noColumn, he, he', mapColumns]
    rfl

/-- **What is put in parentheses is read as it would be alone.**  A text that is parsed to a tree is
parsed to the same tree in parentheses, under a root, in a conjugate, behind a minus sign, which
takes it from a zero, and on either side of each operator; only the columns are shifted by what
stands in front.  So every tree can be written whose leaves are numbers and letters as they stand in
a text. -/
theorem parse_grouped (mode : Mode) :
    (∀ e t, parse mode e = .ok t →
      parse mode ("(".toList ++ e ++ ")".toList) = .ok (t.mapColumns (· + 1)) ∧
      parse mode ("√(".toList ++ e ++ ")".toList) =
        .ok (.unary .sqrt (t.mapColumns (· + 2)) 1) ∧
      parse mode ("conj(".toList ++ e ++ ")".toList) =
        .ok (.unary .conj (t.mapColumns (· + 5)) 1) ∧
      parse mode ("-(".toList ++ e ++ ")".toList) =
        .ok (.binary .sub (.literal .zero 1) (t.mapColumns (· + 2)) 1)) ∧
    (∀ e₁ t₁ e₂ t₂, parse mode e₁ = .ok t₁ → parse mode e₂ = .ok t₂ → ∀ op : BinaryOperator,
      parse mode ("(".toList ++ e₁ ++ ")".toList ++ op.text ++ "(".toList ++ e₂ ++ ")".toList) =
        .ok (.binary op (t₁.mapColumns (· + 1))
          (t₂.mapColumns (· + (e₁.length + op.text.length + 3))) (e₁.length + 3))) ∧
    ∀ tree : Expr, (∀ leaf ∈ tree.leaves, leaf.IsAtom) → tree.Writable mode := by
  refine ⟨fun e t h => ⟨parse_group h, parse_root h, parse_conj h, parse_negation h⟩, ?_,
    fun tree => Expr.writable_of_leaves⟩
  intro e₁ t₁ e₂ t₂ h₁ h₂ op
  have hs : "(".toList ++ e₁ ++ ")".toList ++ op.text ++ "(".toList ++ e₂ ++ ")".toList =
      grouped e₁ ++ (op.text ++ grouped e₂) := by simp [grouped]
  rw [hs]
  exact parse_operator h₁ h₂ op

/-- The sign of `- x` begins a group also where that is the base or the exponent of a power; and the
root of the conjugate of a variable can be written. -/
theorem parse_grouped_signs :
    let minus (column : Nat) : Expr :=
      .binary .sub (.literal .zero column) (.var 'x' (column + 2)) column
    (parse .strict "- x".toList = .ok (minus 1) ∧
      parse .strict "-(- x)".toList = .ok (.binary .sub (.literal .zero 1) (minus 3) 1) ∧
      parse .strict "(- x)**(- x)".toList = .ok (.binary .pow (minus 2) (minus 9) 6)) ∧
    (Expr.var 'x' 7).IsAtom ∧
      (Expr.unary .sqrt (.unary .conj (.var 'x' 7) 8) 9).Writable .strict := by
  intro minus
  have hcut : cut (cells "- x".toList) = [(.token .minus, 1), (.token (.identifier 'x'), 3)] := by
    decide +kernel
  have ht : tokenize .strict "- x".toList =
      .ok [⟨.number ['0'], 1⟩, ⟨.minus, 1⟩, ⟨.identifier 'x', 3⟩] := by
    unfold tokenize
    rw [hcut]
    rfl
  have hzero : Derives .greedy .expression [⟨.number ['0'], 1⟩] (some .minus) (.literal .zero 1) :=
    .ofTerm (.ofFactor (.real ⟨.digit rfl nofun, by decide⟩ nofun))
  have hx : Derives .greedy .term [⟨.identifier 'x', 3⟩] none (.var 'x' 3) :=
    .ofFactor (.name (by decide))
  have hp : parse .strict "- x".toList = .ok (minus 1) :=
    parse_eq_ok_iff.2 ⟨_, ht, .sum rfl (.inr rfl) hzero hx⟩
  have ha : (Expr.var 'x' 7).IsAtom := .name 7 (by decide +kernel) (by decide)
  obtain ⟨hone, htwo, htree⟩ := parse_grouped .strict
  exact ⟨⟨hp, (hone _ _ hp).2.2.2, htwo _ _ _ _ hp hp .pow⟩, ha,
    htree _ (List.forall_mem_singleton.2 ha)⟩

end Argand
