import Argand.Evaluation.Evaluate
import Argand.Proofs.Failure
import Argand.Proofs.Questions

/-!
The columns that are reported.

A column is passed on from a character to a piece, from there to a token, to a node of the tree and
to an error.  `WrittenAt` says what it is to be right in the end: the word in question stands in the
text as it was written, and begins at the column.  Each step passes this on:

| | |
| :-- | :-- |
| `IsCut.writtenAt` | every piece of a cut stands at its column |
| `sourced_of_tokenize` | and so does every token, unless it is the zero that completes a sign |
| `Derives.located` | and what every node of a tree was read from |
| `ParseError.Arises.located` | and what every error is about, which is never such a zero |
| `Expr.Located.eval` | and the sign of a division that fails |

Main statement: `columns_located`, of the whole way from a text to its value.
-/

namespace Argand

variable {source : List Char}

/-! ## What is written where -/

/-- The word stands in the source and begins at the column; there may be blanks in it. -/
structure WrittenAt (source word : List Char) (column : Nat) : Prop where
  pos : 0 < column
  head : ∃ c ∈ word.head?, source[column - 1]? = some c
  text : word <+: Text.withoutBlanks (source.drop (column - 1))

/-- Every piece of a cut is written at its column. -/
theorem IsCut.writtenAt {pieces : List (Piece × Nat)} (h : IsCut source pieces) {piece : Piece}
    {column : Nat} (hp : (piece, column) ∈ pieces) : WrittenAt source piece.text column := by
  obtain ⟨before, after, hs⟩ := List.append_of_mem hp
  obtain ⟨-, c, hc, front, back, rfl, rfl, hf, -⟩ := h.each before piece column after hs
  have hdrop : (front ++ c :: back).drop (front.length + 1 - 1) = c :: back := List.drop_left
  have ht : textOf before ++ (piece.text ++ textOf after) =
      textOf before ++ Text.withoutBlanks (c :: back) := by
    calc textOf before ++ (piece.text ++ textOf after)
        = textOf pieces := by
          rw [hs, textOf, textOf, textOf, List.flatMap_append, List.flatMap_cons]
      _ = Text.withoutBlanks front ++ Text.withoutBlanks (c :: back) := by
          rw [h.text, Text.withoutBlanks, List.filter_append]
          rfl
      _ = textOf before ++ Text.withoutBlanks (c :: back) := by rw [hf]
  refine ⟨Nat.succ_pos _, ⟨c, hc, ?_⟩, ?_⟩
  · rw [← List.head?_drop, hdrop]
    rfl
  · rw [hdrop]
    exact ⟨textOf after, List.append_cancel_left ht⟩

/-! ## Tokens -/

/-- A zero that completes the sign written at its column. -/
def Placed.IsImplicit (source : List Char) (t : Placed) : Prop :=
  t.token = .number ['0'] ∧ ∃ sign : Token, sign.isSign ∧ WrittenAt source sign.text t.column

/-- The token is written at its column, or completes what is. -/
def Placed.Sourced (source : List Char) (t : Placed) : Prop :=
  WrittenAt source t.token.text t.column ∨ t.IsImplicit source

/-- Where a token with `before` in front of it comes from: it is one of the pieces, or it is the
zero that completes a sign among them, which has nothing in front of it or an opening
parenthesis. -/
inductive Placed.Origin (pieces : List (Piece × Nat)) (before : List Placed) (t : Placed) : Prop
  | piece : (.token t.token, t.column) ∈ pieces → Origin pieces before t
  | zero {sign : Token} : t.token = .number ['0'] → sign.isSign →
      (.token sign, t.column) ∈ pieces → ¬EndsUnopened before → Origin pieces before t

theorem Placed.Origin.cons {pieces : List (Piece × Nat)} {before : List Placed} {t : Placed}
    (h : t.Origin pieces before) (piece : Piece × Nat) : t.Origin (piece :: pieces) before := by
  cases h with
  | piece hm => exact .piece (List.mem_cons_of_mem piece hm)
  | zero hz hs hm hb => exact .zero hz hs (List.mem_cons_of_mem piece hm) hb

theorem not_endsUnopened_nil : ¬EndsUnopened [] := by
  rintro ⟨last, hl, -⟩
  cases hl

theorem not_endsUnopened_opening (front : List Placed) (column : Nat) :
    ¬EndsUnopened (front ++ [⟨.opening, column⟩]) := by
  rintro ⟨last, hl, ho⟩
  rw [List.getLast?_concat] at hl
  cases hl
  exact ho rfl

/-- Where the flag tells that a sign begins a group, there is nothing in front or an opening
parenthesis. -/
theorem origin_of_tokensFrom {flag : Bool} {pieces : List (Piece × Nat)}
    {front before after : List Placed} {t : Placed} (hf : flag = true → ¬EndsUnopened front)
    (h : tokensFrom flag pieces = before ++ t :: after) : t.Origin pieces (front ++ before) := by
  induction pieces generalizing flag front before with
  | nil => simp [tokensFrom] at h
  | cons first pieces ih =>
    obtain ⟨piece, column⟩ := first
    cases piece with
    | skipped c =>
      have h : tokensFrom false pieces = before ++ t :: after := h
      exact (ih (fun hc => absurd hc Bool.false_ne_true) h).cons _
    | token u =>
      -- From the token of the piece on, whether or not a zero stands in front of it.
      have from_u {front before : List Placed}
          (h : ⟨u, column⟩ :: tokensFrom (u = .opening) pieces = before ++ t :: after) :
          t.Origin ((.token u, column) :: pieces) (front ++ before) := by
        rcases before with _ | ⟨first, before⟩
        · cases h
          exact .piece List.mem_cons_self
        · obtain ⟨rfl, h'⟩ := List.cons.inj h
          rw [List.append_cons]
          refine (ih (fun ho => ?_) h').cons _
          obtain rfl := of_decide_eq_true ho
          exact not_endsUnopened_opening front column
      by_cases hz : (flag && u.isSign) = true
      · obtain ⟨hflag, hsign⟩ := (Bool.and_eq_true ..).mp hz
        rw [tokensFrom, if_pos hz] at h
        rcases before with _ | ⟨zero, before⟩
        · cases h
          rw [List.append_nil]
          exact .zero rfl hsign List.mem_cons_self (hf hflag)
        · rw [List.append_cons]
          exact from_u (List.cons.inj h).2
      · rw [tokensFrom, if_neg hz] at h
        exact from_u h

/-- The tokens of a text are written at their columns, but for zeros, and these come where nothing
is in front of them or an opening parenthesis. -/
theorem sourced_of_tokenize {mode : Mode} {tokens before after : List Placed} {t : Placed}
    (h : tokenize mode source = .ok tokens) (ht : tokens = before ++ t :: after) :
    WrittenAt source t.token.text t.column ∨ t.IsImplicit source ∧ ¬EndsUnopened before := by
  have hc : IsCut source (cut (cells source)) := isCut_iff.2 rfl
  have ho : t.Origin (cut (cells source)) ([] ++ before) :=
    origin_of_tokensFrom (fun _ => not_endsUnopened_nil)
      ((eq_tokensFrom_of_tokenize h).symm.trans ht)
  cases ho with
  | piece hm => exact .inl (hc.writtenAt hm)
  | zero hz hs hm hb => exact .inr ⟨⟨hz, _, hs, hc.writtenAt hm⟩, hb⟩

/-! ## Trees -/

/-- What every node was read from is written at its column. -/
inductive Expr.Located (source : List Char) : Expr → Prop
  | binary {op left right column} : WrittenAt source op.text column → Located source left →
      Located source right → Located source (.binary op left right column)
  | unary {op operand column} : WrittenAt source op.text column → Located source operand →
      Located source (.unary op operand column)
  | var {name column} : WrittenAt source [name] column → Located source (.var name column)
  | real {lexeme column} : IsNumber lexeme → WrittenAt source lexeme column →
      Located source (.literal (.ofReal (numeralValue lexeme)) column)
  | imaginary {lexeme column} : IsNumber lexeme → WrittenAt source lexeme column →
      Located source (.literal ⟨.zero, numeralValue lexeme⟩ column)
  | unit {column} : WrittenAt source ['i'] column → Located source (.literal .i column)
  /-- The zero that completes a sign. -/
  | zero {sign : Token} {column} : sign.isSign → WrittenAt source sign.text column →
      Located source (.literal .zero column)

theorem text_of_operator? {token : Token} {op : BinaryOperator} (h : token.operator? = some op) :
    token.text = op.text := by
  cases token <;> cases h <;> rfl

namespace Placed.Sourced

variable {token : Token} {column : Nat}

/-- A token that is no number is written at its column. -/
theorem writtenAt (h : Placed.Sourced source ⟨token, column⟩)
    (ht : ∀ lexeme, token ≠ .number lexeme) : WrittenAt source token.text column :=
  h.resolve_right fun hz => ht ['0'] hz.1

theorem operator (h : Placed.Sourced source ⟨token, column⟩) {op : BinaryOperator}
    (hop : token.operator? = some op) : WrittenAt source op.text column := by
  rw [← text_of_operator? hop]
  refine h.writtenAt ?_
  rintro lexeme rfl
  cases hop

end Placed.Sourced

theorem numeralValue_zero : numeralValue ['0'] = .zero := rfl

theorem located_binary {op : BinaryOperator} {token : Token} {column : Nat} {ts us : List Placed}
    {left right : Expr} (hop : token.operator? = some op)
    (hs : ∀ t ∈ ts ++ ⟨token, column⟩ :: us, t.Sourced source)
    (hl : (∀ t ∈ ts, t.Sourced source) → left.Located source)
    (hr : (∀ t ∈ us, t.Sourced source) → right.Located source) :
    (Expr.binary op left right column).Located source := by
  obtain ⟨hts, hs⟩ := List.forall_mem_append.1 hs
  obtain ⟨ht, hus⟩ := List.forall_mem_cons.1 hs
  exact .binary (ht.operator hop) (hl hts) (hr hus)

/-- The nodes of a tree stand where the tokens do that it was read from. -/
theorem Derives.located {reading : Reading} {rule : Rule} {tokens : List Placed}
    {next : Option Token} {tree : Expr} (h : Derives reading rule tokens next tree)
    (hs : ∀ t ∈ tokens, t.Sourced source) : tree.Located source := by
  induction h with
  | ofTerm _ ih => exact ih hs
  | sum hop _ _ _ ihl ihr => exact located_binary hop hs ihl ihr
  | ofFactor _ ih => exact ih hs
  | product hop _ _ _ ihl ihr => exact located_binary hop hs ihl ihr
  | exponent _ _ ihl ihr => exact located_binary rfl hs ihl ihr
  | base _ _ ih => exact ih hs
  | chain _ _ ihl ihr => exact located_binary rfl hs ihl ihr
  | group _ _ ih =>
    obtain ⟨hs, -⟩ := List.forall_mem_append.1 hs
    exact ih (List.forall_mem_cons.1 hs).2
  | raisedGroup _ _ ihl ihr =>
    obtain ⟨hts, hs⟩ := List.forall_mem_append.1 hs
    obtain ⟨ht, hus⟩ := List.forall_mem_cons.1 (List.forall_mem_cons.1 hs).2
    exact .binary (ht.operator rfl) (ihl (List.forall_mem_cons.1 hts).2) (ihr hus)
  | root _ ih =>
    obtain ⟨ht, hs⟩ := List.forall_mem_cons.1 hs
    exact .unary (ht.writtenAt nofun) (ih hs)
  | conj _ ih =>
    obtain ⟨hs, -⟩ := List.forall_mem_append.1 hs
    obtain ⟨ht, hs⟩ := List.forall_mem_cons.1 hs
    exact .unary (ht.writtenAt nofun) (ih (List.forall_mem_cons.1 hs).2)
  | real hl _ =>
    rcases hs _ List.mem_cons_self with hw | ⟨hz, sign, hsign, hw⟩
    · exact .real hl hw
    · cases hz
      rw [numeralValue_zero]
      exact .zero hsign hw
  | imaginary hl =>
    rcases hs _ List.mem_cons_self with hw | ⟨hz, sign, hsign, hw⟩
    · exact .imaginary hl hw
    · cases hz
      rw [numeralValue_zero]
      exact .zero hsign hw
  | unit => exact .unit ((hs _ List.mem_cons_self).writtenAt nofun)
  | name _ => exact .var ((hs _ List.mem_cons_self).writtenAt nofun)

/-! ## Errors -/

/-- What the error is about is written at its column. -/
def ParseError.Located (source : List Char) : ParseError → Prop
  | endOfInput => True
  | unexpectedToken token column => WrittenAt source token column
  | unclosedGroup column => WrittenAt source ['('] column
  | conjWithoutGroup column => WrittenAt source ['c', 'o', 'n', 'j'] column
  | unclosedConj column => WrittenAt source ['c', 'o', 'n', 'j'] column
  | trailingTokens token column => WrittenAt source token column
  | unrecognizedCharacter character column => WrittenAt source [character] column

/-- A zero is no token to be refused. -/
theorem not_isRefused_zero : ¬Token.IsRefused (.number ['0']) := by
  intro h
  cases h with
  | kind h => cases h
  | number h =>
    rw [ofText?_of_isNumber isNumber_zero] at h
    cases h

/-- An error of the tokens of a text is about one of them, and never about a zero that completes a
sign: no zero is refused, and none comes where an expression has ended. -/
theorem ParseError.Arises.located {mode : Mode} {seen rest : List Placed} {e : ParseError}
    (h : e.Arises seen rest) (ht : tokenize mode source = .ok (seen ++ rest)) :
    e.Located source := by
  have of_mem {token : Token} {column : Nat} (hm : ⟨token, column⟩ ∈ seen)
      (hn : ∀ lexeme, token ≠ .number lexeme) : WrittenAt source token.text column := by
    obtain ⟨before, after, rfl⟩ := List.append_of_mem hm
    rw [List.append_assoc] at ht
    exact Placed.Sourced.writtenAt ((sourced_of_tokenize ht rfl).imp_right And.left) hn
  cases h with
  | endOfInput => trivial
  | unexpectedToken hr =>
    refine (sourced_of_tokenize ht rfl).resolve_right ?_
    rintro ⟨⟨rfl, -⟩, -⟩
    exact not_isRefused_zero hr
  | unclosedGroup _ => exact of_mem (List.mem_append_right _ List.mem_cons_self) nofun
  | conjWithoutGroup hm => exact of_mem hm nofun
  | unclosedConj _ => exact of_mem (List.mem_append_right _ List.mem_cons_self) nofun
  | trailingTokens hs => exact (sourced_of_tokenize ht rfl).resolve_right fun hz => hz.2 hs

theorem located_of_tokenize {mode : Mode} {e : ParseError} (h : tokenize mode source = .error e) :
    e.Located source := by
  have hc : IsCut source (cut (cells source)) := isCut_iff.2 rfl
  unfold tokenize at h
  dsimp only at h
  split at h
  · next c column _ hs =>
    cases h
    obtain ⟨⟨piece, column'⟩, hm, hp⟩ :=
      List.mem_filterMap.1 (show (c, column) ∈ skippedOf _ from hs ▸ List.mem_cons_self)
    cases piece with
    | token t => cases hp
    | skipped c' =>
      cases hp
      exact hc.writtenAt hm
  · cases h

theorem located_of_parse_error {mode : Mode} {e : ParseError} (h : parse mode source = .error e) :
    e.Located source := by
  unfold parse at h
  cases ht : tokenize mode source with
  | error e' =>
    rw [ht] at h
    cases h
    exact located_of_tokenize ht
  | ok tokens =>
    rw [ht] at h
    obtain ⟨seen, rest, rfl, -, ha, -⟩ := fails_parseTokens (numerals_of_tokenize ht) h
    exact ha.located ht

theorem located_of_parse {mode : Mode} {tree : Expr} (h : parse mode source = .ok tree) :
    tree.Located source := by
  obtain ⟨tokens, ht, hd⟩ := parse_eq_ok_iff.1 h
  refine hd.located fun t hm => ?_
  obtain ⟨before, after, hs⟩ := List.append_of_mem hm
  exact (sourced_of_tokenize ht hs).imp_right And.left

/-! ## Divisions by zero -/

variable {σ : Type}

theorem BinaryOperator.eq_div_of_apply {op : BinaryOperator} {z w : Complex} {column : Nat}
    {e : EvaluationError} (h : op.apply z w column = .error e) :
    op = .div ∧ e = .divisionByZero column := by
  cases op with
  | div =>
    by_cases hz : w.isZero = true
    · rw [BinaryOperator.apply, if_pos hz] at h
      cases h
      exact ⟨rfl, rfl⟩
    · rw [BinaryOperator.apply, if_neg hz] at h
      cases h
  | _ => cases h

/-- The columns of the divisions in a tree. -/
def Expr.divisions : Expr → List Nat
  | literal _ _ => []
  | var _ _ => []
  | unary _ operand _ => operand.divisions
  | binary op left right column =>
    (if op = .div then [column] else []) ++ (left.divisions ++ right.divisions)

/-- An evaluation fails with an answer of the resolver, or with one of its divisions. -/
theorem Expr.eval_error (resolver : Resolver σ) (tree : Expr) (environment : Environment)
    (state : σ) {e : EvaluationError}
    (he : (tree.eval resolver environment state).result = .error e) :
    (∃ name, (name, .error e) ∈ (tree.eval resolver environment state).asked) ∨
      ∃ column ∈ tree.divisions, e = .divisionByZero column := by
  induction tree generalizing environment state with
  | literal value column => cases he
  | var name column =>
    rw [Expr.eval] at he ⊢
    rcases resolve_cases resolver name environment state with
      ⟨value, -, hr⟩ | ⟨-, ⟨value, -, hr⟩ | ⟨error, -, hr⟩⟩
    · rw [hr] at he
      cases he
    · rw [hr] at he
      cases he
    · rw [hr] at he ⊢
      cases he
      exact .inl ⟨name, List.mem_singleton.2 rfl⟩
  | unary op operand column ih =>
    rw [Expr.eval_unary] at he ⊢
    rcases bind_eq_error.1 he with he | ⟨w, -, ha⟩
    · exact ih environment state he
    · cases ha
  | binary op left right column ihl ihr =>
    rcases Expr.eval_binary_cases resolver op left right column environment state with
      ⟨_, -, hb⟩ | ⟨z, -, hb⟩
    · rw [hb] at he ⊢
      refine (ihl environment state he).imp_right ?_
      rintro ⟨column', hc, heq⟩
      exact ⟨column', List.mem_append_right _ (List.mem_append_left _ hc), heq⟩
    · rw [hb] at he ⊢
      rw [Evaluation.asked_bind, Evaluation.asked_after]
      rcases bind_eq_error.1 he with he | ⟨w, -, ha⟩
      · refine (ihr _ _ he).imp ?_ ?_
        · rintro ⟨name, hm⟩
          exact ⟨name, List.mem_append_right _ hm⟩
        · rintro ⟨column', hc, heq⟩
          exact ⟨column', List.mem_append_right _ (List.mem_append_right _ hc), heq⟩
      · obtain ⟨rfl, heq⟩ := BinaryOperator.eq_div_of_apply ha
        exact .inr ⟨column, List.mem_append_left _ (List.mem_singleton_self column), heq⟩

/-- There is the sign of a division at the column of every division. -/
theorem Expr.Located.writtenAt_of_mem_divisions {tree : Expr} (h : tree.Located source)
    {column : Nat}
    (hc : column ∈ tree.divisions) : WrittenAt source ['/'] column := by
  induction h with
  | @binary op left right column' hw _ _ ihl ihr =>
    rcases List.mem_append.1 hc with hc | hc
    · by_cases hop : op = .div
      · subst hop
        cases List.mem_singleton.1 hc
        exact hw
      · rw [if_neg hop] at hc
        cases hc
    · exact (List.mem_append.1 hc).elim ihl ihr
  | unary _ _ ih => exact ih hc
  | _ => cases hc

/-- A division by zero is an answer of the resolver, or there is the sign of a division at its
column. -/
theorem Expr.Located.eval {tree : Expr} (h : tree.Located source) (resolver : Resolver σ)
    (environment : Environment) (state : σ) {column : Nat}
    (he : (tree.eval resolver environment state).result = .error (.divisionByZero column)) :
    (∃ name, (name, .error (.divisionByZero column)) ∈
        (tree.eval resolver environment state).asked) ∨ WrittenAt source ['/'] column := by
  refine (tree.eval_error resolver environment state he).imp_right ?_
  rintro ⟨column', hc, heq⟩
  cases heq
  exact h.writtenAt_of_mem_divisions hc

/-! ## The whole way -/

/-- **Every column that is reported is right.**  What an error of a text is about, and what a node
of its tree was read from, is written at the column given, and so is the sign of a division by zero,
unless the resolver came up with this error itself. -/
theorem columns_located (mode : Mode) (source : List Char) :
    (∀ e, parse mode source = .error e → e.Located source) ∧
    ∀ tree, parse mode source = .ok tree → tree.Located source ∧
      ∀ (σ : Type) (resolver : Resolver σ) (environment : Environment) (state : σ) (column : Nat),
        (tree.eval resolver environment state).result = .error (.divisionByZero column) →
          (∃ name, (name, .error (.divisionByZero column)) ∈
            (tree.eval resolver environment state).asked) ∨ WrittenAt source ['/'] column := by
  refine ⟨fun e => located_of_parse_error, fun tree h => ⟨located_of_parse h, ?_⟩⟩
  intro σ resolver environment state column
  exact (located_of_parse h).eval resolver environment state

/-- The tree of `1 / 0`. -/
def ratioToZero : Expr :=
  .binary .div (.literal (.ofReal (numeralValue ['1'])) 1)
    (.literal (.ofReal (numeralValue ['0'])) 5) 3

/-- The columns count the blanks: of a division that fails, and of a group that is not closed. -/
theorem columns_located_ratio :
    (parse .strict "1 / 0".toList = .ok ratioToZero ∧ ratioToZero.Located "1 / 0".toList ∧
      (ratioToZero.eval .ofAnswers [] ⟨[], []⟩).result = .error (.divisionByZero 3) ∧
      WrittenAt "1 / 0".toList ['/'] 3) ∧
    parse .strict " (i".toList = .error (.unclosedGroup 2) ∧
      (ParseError.unclosedGroup 2).Located " (i".toList := by
  constructor
  · have hcut : cut (cells "1 / 0".toList) =
        [(.token (.number ['1']), 1), (.token .slash, 3), (.token (.number ['0']), 5)] := by
      decide +kernel
    have ht : tokenize .strict "1 / 0".toList =
        .ok [⟨.number ['1'], 1⟩, ⟨.slash, 3⟩, ⟨.number ['0'], 5⟩] := by
      unfold tokenize
      rw [hcut]
      rfl
    have hone : Derives .greedy .term [⟨.number ['1'], 1⟩] (some .slash) _ :=
      .ofFactor (.real ⟨.digit rfl nofun, by decide⟩ nofun)
    have hp : parse .strict "1 / 0".toList = .ok ratioToZero := parse_eq_ok_iff.2
      ⟨_, ht, .ofTerm (.product rfl (.inr rfl) hone (.real isNumber_zero nofun))⟩
    have he : (ratioToZero.eval .ofAnswers [] ⟨[], []⟩).result = .error (.divisionByZero 3) := by
      have hz : (Complex.ofReal .zero).isZero = true := by decide +kernel
      rw [ratioToZero, numeralValue_zero]
      show BinaryOperator.apply .div (.ofReal (numeralValue ['1'])) (.ofReal .zero) 3 = _
      rw [BinaryOperator.apply, if_pos hz]
    obtain ⟨hl, hd⟩ := (columns_located .strict "1 / 0".toList).2 ratioToZero hp
    refine ⟨hp, hl, he, (hd _ .ofAnswers [] ⟨[], []⟩ 3 he).resolve_left ?_⟩
    rintro ⟨name, hm⟩
    cases hm
  · have hcut : cut (cells " (i".toList) =
        [(.token .opening, 2), (.token (.identifier 'i'), 3)] := by
      decide +kernel
    have ht : tokenize .strict " (i".toList = .ok [⟨.opening, 2⟩, ⟨.identifier 'i', 3⟩] := by
      unfold tokenize
      rw [hcut]
      rfl
    have hd : Derives .greedy .expression [⟨.identifier 'i', 3⟩] none (.literal .i 3) :=
      .ofTerm (.ofFactor .unit)
    have hi : bare (expression [⟨.identifier 'i', 3⟩]) = .ok (.literal .i 3, []) :=
      (completes hd).closed nofun next_nil
    have hp : parse .strict " (i".toList = .error (.unclosedGroup 2) := by
      unfold parse
      rw [ht]
      refine parseTokens_eq_error.2 (.inl ?_)
      rw [bare_expression, bare_term, bare_factor_opening, hi]
      rfl
    exact ⟨hp, (columns_located .strict " (i".toList).1 _ hp⟩

end Argand
