import Argand.Proofs.Columns

/-!
Groups that are said to be never closed.

Parentheses are counted: an opening one raises the height by one and a closing one lowers it.  A
group is never closed if from its parenthesis on the height does not come back to zero
(`NeverClosed`).  What a rule reads is balanced, since every group in it is closed
(`Derives.balanced`).

The descent says that a group is never closed when an expression has ended in it and the token
behind this is no closing parenthesis.  That is so where the text ends, but also in front of a token
that begins a factor, and then the group may well be closed further on: in `(2x)` it is.  So what
the error says depends on the tokens that have not been read.  It is true exactly if they do not
close what is open in front of them.

A column names one group only: it is true that the zeros that complete signs share their columns
with these, but of all other tokens no two stand at one column.

Main statement: `parse_unclosed`.
-/

namespace Argand

/-! ## Heights -/

/-- By how much a token changes the number of groups that are open. -/
def Token.rise : Token → Int
  | opening => 1
  | closing => -1
  | _ => 0

/-- How many more parentheses open than close. -/
def height : List Placed → Int
  | [] => 0
  | t :: tokens => t.token.rise + height tokens

theorem height_append (front back : List Placed) :
    height (front ++ back) = height front + height back := by
  induction front with
  | nil => exact (Int.zero_add _).symm
  | cons t front ih => rw [List.cons_append, height, height, ih, Int.add_assoc]

theorem height_take_append (front back : List Placed) (n : Nat) :
    height ((front ++ back).take n) =
      height (front.take n) + height (back.take (n - front.length)) := by
  rw [List.take_append, height_append]

/-- From its opening parenthesis on, the group is open behind every one of the tokens. -/
def NeverClosed (group : List Placed) : Prop := ∀ n, height (group.take (n + 1)) ≠ 0

/-- Every group is closed, and none that is not open. -/
structure Balanced (tokens : List Placed) : Prop where
  level : height tokens = 0
  above : ∀ n, 0 ≤ height (tokens.take n)

theorem Balanced.append {front back : List Placed} (hf : Balanced front) (hb : Balanced back) :
    Balanced (front ++ back) := by
  refine ⟨?_, fun n => ?_⟩
  · rw [height_append, hf.level, hb.level, Int.add_zero]
  · rw [height_take_append]
    exact Int.add_nonneg (hf.above n) (hb.above _)

theorem balanced_singleton {t : Placed} (h : t.token.rise = 0) : Balanced [t] := by
  refine ⟨?_, fun n => ?_⟩
  · rw [height, h, height, Int.add_zero]
  · cases n with
    | zero => exact Int.le_refl 0
    | succ n =>
      rw [List.take_succ_cons, List.take_nil, height, h]
      exact Int.le_refl 0

theorem Balanced.cons {t : Placed} {tokens : List Placed} (h : Balanced tokens)
    (ht : t.token.rise = 0) : Balanced (t :: tokens) :=
  (balanced_singleton ht).append h

/-- A group that is closed. -/
theorem Balanced.group {tokens : List Placed} (h : Balanced tokens) (opening closing : Nat) :
    Balanced (⟨.opening, opening⟩ :: tokens ++ [⟨.closing, closing⟩]) := by
  have hlast (n) : -1 ≤ height ([(⟨.closing, closing⟩ : Placed)].take n) := by
    cases n with
    | zero => exact Int.negSucc_le_zero 0
    | succ n =>
      rw [List.take_succ_cons, List.take_nil]
      exact Int.le_refl (-1)
  refine ⟨?_, fun n => ?_⟩
  · rw [height_append, height, h.level]
    rfl
  · cases n with
    | zero => exact Int.le_refl 0
    | succ n =>
      have := h.above n
      have := hlast (n - tokens.length)
      rw [List.cons_append, List.take_succ_cons, height, height_take_append]
      show 0 ≤ 1 + _
      omega

theorem rise_of_operator? {token : Token} {op : BinaryOperator} (h : token.operator? = some op) :
    token.rise = 0 := by
  cases token <;> cases h <;> rfl

/-- What a rule reads is balanced. -/
theorem Derives.balanced {reading : Reading} {rule : Rule} {tokens : List Placed}
    {next : Option Token} {tree : Expr} (h : Derives reading rule tokens next tree) :
    Balanced tokens := by
  induction h with
  | ofTerm _ ih => exact ih
  | sum hop _ _ _ ihl ihr => exact ihl.append (ihr.cons (rise_of_operator? hop))
  | ofFactor _ ih => exact ih
  | product hop _ _ _ ihl ihr => exact ihl.append (ihr.cons (rise_of_operator? hop))
  | exponent _ _ ihl ihr => exact ihl.append (ihr.cons rfl)
  | base _ _ ih => exact ih
  | chain _ _ ihl ihr => exact ihl.append (ihr.cons rfl)
  | group _ _ ih => exact ih.group _ _
  | @raisedGroup opening closing column ts us next l r _ _ ihl ihr =>
    have hgroup := (ihl.group opening closing).append (ihr.cons (t := ⟨.power, column⟩) rfl)
    rwa [List.append_assoc] at hgroup
  | root _ ih => exact ih.cons rfl
  | conj _ ih => exact (ih.group _ _).cons rfl
  | real _ _ => exact balanced_singleton rfl
  | imaginary _ => exact (balanced_singleton rfl).cons rfl
  | unit => exact balanced_singleton rfl
  | name _ => exact balanced_singleton rfl

/-- Behind balanced tokens, a group is never closed if the rest does not close it. -/
theorem neverClosed_iff {inner rest : List Placed} (h : Balanced inner) (opening : Nat) :
    NeverClosed (⟨.opening, opening⟩ :: inner ++ rest) ↔ ∀ n, height (rest.take n) ≠ -1 := by
  have hgroup (n) : height ((⟨.opening, opening⟩ :: inner ++ rest).take (n + 1)) =
      1 + (height (inner.take n) + height (rest.take (n - inner.length))) := by
    rw [List.cons_append, List.take_succ_cons, height, height_take_append]
    rfl
  constructor
  · intro hn n
    have hne := hn (inner.length + n)
    rw [hgroup, List.take_of_length_le (Nat.le_add_right ..), h.level,
      Nat.add_sub_cancel_left] at hne
    omega
  · intro hr n
    rw [hgroup]
    rcases Nat.le_total n inner.length with hn | hn
    · have := h.above n
      rw [Nat.sub_eq_zero_of_le hn, List.take_zero, height]
      omega
    · have := hr (n - inner.length)
      rw [List.take_of_length_le hn, h.level]
      omega

/-! ## Columns tell tokens apart -/

theorem pairwise_cells (source : List Char) : ((cells source).map Prod.snd).Pairwise (· < ·) := by
  have hall : ((source.zipIdx 1).map Prod.snd).Pairwise (· < ·) := by
    rw [List.zipIdx_map_snd]
    exact List.pairwise_lt_range' 1
  exact hall.sublist (List.filter_sublist.map Prod.snd)

theorem columns_cut_sublist (cells : List Cell) :
    ((cut cells).map Prod.snd).Sublist (cells.map Prod.snd) := by
  fun_induction cut cells with
  | case1 => exact .slnil
  | case2 c column rest piece more h ih =>
    exact (ih.trans ((List.drop_sublist more rest).map Prod.snd)).cons_cons column

/-- The tokens that are no zeros have the columns of their pieces. -/
theorem columns_tokensFrom_sublist {p : Placed → Bool}
    (hp : ∀ lexeme column, p ⟨.number lexeme, column⟩ = false) (flag : Bool)
    (pieces : List (Piece × Nat)) :
    (((tokensFrom flag pieces).filter p).map Placed.column).Sublist (pieces.map Prod.snd) := by
  induction pieces generalizing flag with
  | nil => exact .slnil
  | cons piece pieces ih =>
    obtain ⟨t | c, column⟩ := piece
    · have hzero : (if (flag && t.isSign) = true then [(⟨.number ['0'], column⟩ : Placed)]
          else []).filter p = [] := by
        split
        · rw [List.filter_cons_of_neg (by rw [hp]; exact Bool.false_ne_true), List.filter_nil]
        · rfl
      rw [tokensFrom, List.filter_append, hzero, List.nil_append, List.filter_cons, List.map_cons]
      split
      · exact (ih _).cons_cons column
      · exact (ih _).cons column
    · exact (ih false).cons column

/-- A token that is no number is where its column says, and nowhere else. -/
theorem notMem_of_tokenize {mode : Mode} {source : List Char} {before after : List Placed}
    {t : Placed} (h : tokenize mode source = .ok (before ++ t :: after))
    (ht : ∀ lexeme, t.token ≠ .number lexeme) : t ∉ before ∧ t ∉ after := by
  have hcolumns : (((before ++ t :: after).filter (· = t)).map Placed.column).Pairwise (· < ·) := by
    rw [eq_tokensFrom_of_tokenize h]
    refine (pairwise_cells source).sublist ?_
    refine (columns_tokensFrom_sublist ?_ true _).trans (columns_cut_sublist _)
    intro lexeme column
    exact decide_eq_false fun he => ht lexeme (he ▸ rfl)
  rw [List.pairwise_map, List.pairwise_filter, List.pairwise_append, List.pairwise_cons] at hcolumns
  have hself : decide (t = t) = true := decide_eq_true rfl
  obtain ⟨-, ⟨hafter, -⟩, hbefore⟩ := hcolumns
  constructor
  · intro hm
    exact Nat.lt_irrefl _ (hbefore t hm t List.mem_cons_self hself hself)
  · intro hm
    exact Nat.lt_irrefl _ (hafter t hm hself hself)

/-! ## Expressions that are interrupted -/

theorem operator?_eq_none_of_beginsFactor {token : Token} (h : token.beginsFactor = true) :
    token.operator? = none := by
  cases token with
  | power | plus | minus | star | slash => cases h
  | _ => rfl

/-- An expression that is interrupted is read as it is. -/
theorem Interrupted.expression {inner rest : List Placed} (h : Interrupted inner rest) :
    (∃ tree, bare (expression (inner ++ rest)) = .ok (tree, rest)) ∧ next rest ≠ some .closing := by
  obtain ⟨⟨tree, hd⟩, hf⟩ := h
  refine ⟨⟨tree, (completes hd).closed ?_ rfl⟩, ?_⟩
  · intro t ht
    exact operator?_eq_none_of_beginsFactor (hf t ht)
  · intro hc
    cases hf _ hc

/-- Whatever closes it further on, a group that an expression in it does not fill is said to be
never closed. -/
theorem parseTokens_of_interrupted {inner rest : List Placed} (h : Interrupted inner rest)
    (column opening : Nat) :
    parseTokens (⟨.opening, column⟩ :: (inner ++ rest)) = .error (.unclosedGroup column) ∧
      parseTokens (⟨.conj, column⟩ :: ⟨.opening, opening⟩ :: (inner ++ rest)) =
        .error (.unclosedConj column) := by
  obtain ⟨⟨tree, he⟩, hc⟩ := h.expression
  constructor
  · refine parseTokens_eq_error.2 (.inl ?_)
    rw [bare_expression, bare_term, bare_factor_opening, he]
    show ((afterGroup column (tree, rest)).bind _).bind _ = _
    rw [afterGroup_of_not hc]
    rfl
  · refine parseTokens_eq_error.2 (.inl ?_)
    rw [bare_expression, bare_term, bare_factor_conj, he]
    show ((afterConj column (tree, rest)).bind _).bind _ = _
    rw [afterConj_of_not hc]
    rfl

/-- A number with a name behind it. -/
theorem interrupted_two (column : Nat) {rest : List Placed}
    (hr : next rest = some (.identifier 'x')) :
    Interrupted [⟨.number ['2'], column⟩] rest := by
  refine ⟨⟨_, .ofTerm (.ofFactor (.real ⟨.digit rfl nofun, by decide⟩ ?_))⟩, ?_⟩
  · rw [hr]
    exact nofun
  · rw [hr]
    rintro t ⟨⟩
    rfl

/-! ## What the errors say -/

/-- The error says that this group is never closed: the tokens from the parenthesis on that opens at
the column, or that stands behind the `conj` at the column. -/
inductive ParseError.Blames (tokens : List Placed) : ParseError → List Placed → Prop
  | group {before column after} : tokens = before ++ ⟨.opening, column⟩ :: after →
      Blames tokens (.unclosedGroup column) (⟨.opening, column⟩ :: after)
  | conj {before column opening after} :
      tokens = before ++ ⟨.conj, column⟩ :: ⟨.opening, opening⟩ :: after →
      Blames tokens (.unclosedConj column) (⟨.opening, opening⟩ :: after)

/-- The error is about one group. -/
theorem ParseError.Blames.eq {mode : Mode} {source : List Char} {tokens group other : List Placed}
    {e : ParseError} (ht : tokenize mode source = .ok tokens) (h : e.Blames tokens group)
    (h' : e.Blames tokens other) : other = group := by
  cases h with
  | group hg =>
    cases h' with
    | group hg' =>
      rw [hg] at ht
      obtain ⟨hb, ha⟩ := notMem_of_tokenize ht nofun
      obtain ⟨-, -, hafter⟩ := (List.append_cons_inj_of_notMem hb ha).1 (hg.symm.trans hg')
      rw [hafter]
  | conj hg =>
    cases h' with
    | conj hg' =>
      rw [hg] at ht
      obtain ⟨hb, ha⟩ := notMem_of_tokenize ht nofun
      obtain ⟨-, -, hafter⟩ := (List.append_cons_inj_of_notMem hb ha).1 (hg.symm.trans hg')
      exact hafter.symm

theorem eq_unrecognizedCharacter_of_tokenize {mode : Mode} {source : List Char} {e : ParseError}
    (h : tokenize mode source = .error e) :
    ∃ character column, e = .unrecognizedCharacter character column := by
  unfold tokenize at h
  dsimp only at h
  split at h
  · next c column _ _ => exact ⟨c, column, (Except.error.inj h).symm⟩
  · cases h

/-- **When it is true that a group is never closed.**  An error that says so is about one group.  In
it stands an expression, and then either the text ends or a token follows that begins a factor; the
group is indeed never closed exactly if the tokens from there on do not close it. -/
theorem parse_unclosed {mode : Mode} {source : List Char} {e : ParseError}
    (h : parse mode source = .error e)
    (he : ∃ column, e = .unclosedGroup column ∨ e = .unclosedConj column) :
    ∃ tokens opening inner rest, tokenize mode source = .ok tokens ∧
      e.Blames tokens (⟨.opening, opening⟩ :: inner ++ rest) ∧
      (∀ other, e.Blames tokens other → other = ⟨.opening, opening⟩ :: inner ++ rest) ∧
      Interrupted inner rest ∧
      (NeverClosed (⟨.opening, opening⟩ :: inner ++ rest) ↔ ∀ n, height (rest.take n) ≠ -1) := by
  unfold parse at h
  cases ht : tokenize mode source with
  | error e' =>
    rw [ht] at h
    obtain rfl := Except.error.inj h
    obtain ⟨character, column, rfl⟩ := eq_unrecognizedCharacter_of_tokenize ht
    obtain ⟨_, he | he⟩ := he <;> cases he
  | ok tokens =>
    rw [ht] at h
    obtain ⟨seen, rest, hs, -, ha, -⟩ := fails_parseTokens (numerals_of_tokenize ht) h
    obtain ⟨opening, inner, hblames, hi⟩ : ∃ opening inner,
        e.Blames tokens (⟨.opening, opening⟩ :: inner ++ rest) ∧ Interrupted inner rest := by
      obtain ⟨column, rfl | rfl⟩ := he
      · cases ha with
        | unclosedGroup hi =>
          rw [List.append_assoc] at hs
          exact ⟨column, _, .group hs, hi⟩
      · cases ha with
        | unclosedConj hi =>
          rw [List.append_assoc] at hs
          exact ⟨_, _, .conj hs, hi⟩
    obtain ⟨tree, hd⟩ := hi.1
    exact ⟨tokens, opening, inner, rest, rfl, hblames, fun other => hblames.eq ht, hi,
      neverClosed_iff hd.balanced opening⟩

/-- In `(2x` a name interrupts the expression, and the group is not closed behind it. -/
theorem parse_unclosed_two :
    parse .strict "(2x".toList = .error (.unclosedGroup 1) ∧
      ∃ tokens opening inner rest, tokenize .strict "(2x".toList = .ok tokens ∧
        (ParseError.unclosedGroup 1).Blames tokens (⟨.opening, opening⟩ :: inner ++ rest) ∧
        (∀ other, (ParseError.unclosedGroup 1).Blames tokens other →
          other = ⟨.opening, opening⟩ :: inner ++ rest) ∧
        Interrupted inner rest ∧
        (NeverClosed (⟨.opening, opening⟩ :: inner ++ rest) ↔
          ∀ n, height (rest.take n) ≠ -1) := by
  have hcut : cut (cells "(2x".toList) = [(.token .opening, 1), (.token (.number ['2']), 2),
      (.token (.identifier 'x'), 3)] := by
    decide +kernel
  have hp : parse .strict "(2x".toList = .error (.unclosedGroup 1) := by
    unfold parse tokenize
    rw [hcut]
    exact (parseTokens_of_interrupted (interrupted_two 2 rfl) 1 1).1
  exact ⟨hp, parse_unclosed hp ⟨1, .inl rfl⟩⟩

/-- In `(2x)` and in `conj(2x)` the group that is said to be never closed is closed. -/
theorem closed_group_blamed :
    (∃ tokens group, tokenize .strict "(2x)".toList = .ok tokens ∧
      parse .strict "(2x)".toList = .error (.unclosedGroup 1) ∧
      (ParseError.unclosedGroup 1).Blames tokens group ∧ ¬NeverClosed group) ∧
    ∃ tokens group, tokenize .strict "conj(2x)".toList = .ok tokens ∧
      parse .strict "conj(2x)".toList = .error (.unclosedConj 1) ∧
      (ParseError.unclosedConj 1).Blames tokens group ∧ ¬NeverClosed group := by
  -- The height is zero again behind the fourth token.
  have hclosed (opening column column' column'' : Nat) : ¬NeverClosed [⟨.opening, opening⟩,
      ⟨.number ['2'], column⟩, ⟨.identifier 'x', column'⟩, ⟨.closing, column''⟩] :=
    fun h => h 3 rfl
  constructor
  · have hcut : cut (cells "(2x)".toList) = [(.token .opening, 1), (.token (.number ['2']), 2),
        (.token (.identifier 'x'), 3), (.token .closing, 4)] := by
      decide +kernel
    have ht : tokenize .strict "(2x)".toList = .ok [⟨.opening, 1⟩, ⟨.number ['2'], 2⟩,
        ⟨.identifier 'x', 3⟩, ⟨.closing, 4⟩] := by
      unfold tokenize
      rw [hcut]
      rfl
    refine ⟨_, _, ht, ?_, .group (List.nil_append _).symm, hclosed 1 2 3 4⟩
    unfold parse
    rw [ht]
    exact (parseTokens_of_interrupted (interrupted_two 2 rfl) 1 1).1
  · have hcut : cut (cells "conj(2x)".toList) = [(.token .conj, 1), (.token .opening, 5),
        (.token (.number ['2']), 6), (.token (.identifier 'x'), 7), (.token .closing, 8)] := by
      decide +kernel
    have ht : tokenize .strict "conj(2x)".toList = .ok [⟨.conj, 1⟩, ⟨.opening, 5⟩,
        ⟨.number ['2'], 6⟩, ⟨.identifier 'x', 7⟩, ⟨.closing, 8⟩] := by
      unfold tokenize
      rw [hcut]
      rfl
    refine ⟨_, _, ht, ?_, .conj (List.nil_append _).symm, hclosed 5 6 7 8⟩
    unfold parse
    rw [ht]
    exact (parseTokens_of_interrupted (interrupted_two 6 rfl) 1 5).2

end Argand
