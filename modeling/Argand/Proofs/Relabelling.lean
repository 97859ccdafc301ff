import Argand.Proofs.Cut
import Argand.Proofs.Descent
import Argand.Proofs.Questions

/-!
Columns are carried along and never looked at.

Pieces, tokens, trees and errors have columns, and no step from a text to a value depends on them.
So each step commutes with every change of the columns, be it one that moves them to another text or
one that drops them all:

| | |
| :-- | :-- |
| `cut_map` | cells with other columns are cut into the same pieces |
| `tokensFrom_map` | and these stand for the same tokens |
| `parseTokens_mapColumn` | which are read as the same tree, or refused for the same reason |
| `Expr.eval_mapColumns` | and the tree is evaluated with the same questions |

An evaluation is the one place where columns of two origins meet, since a resolver may come up with
an error that has a column of its own.  There the errors are compared with no columns at all.  A
resolver whose errors have none makes the same evaluation, with an error at its other column
(`Expr.eval_mapColumns_eq`).
-/

namespace Argand

/-! ## Other columns -/

namespace Expr

/-- The tree with other columns. -/
def mapColumns (f : Nat → Nat) : Expr → Expr
  | literal value column => literal value (f column)
  | var name column => var name (f column)
  | unary op operand column => unary op (operand.mapColumns f) (f column)
  | binary op left right column => binary op (left.mapColumns f) (right.mapColumns f) (f column)

theorem mapColumns_mapColumns (f g : Nat → Nat) (tree : Expr) :
    (tree.mapColumns f).mapColumns g = tree.mapColumns fun column => g (f column) := by
  induction tree with
  | literal value column => rfl
  | var name column => rfl
  | unary op operand column ih => simp only [mapColumns, ih]
  | binary op left right column ihl ihr => simp only [mapColumns, ihl, ihr]

/-- The printed form of a tree has no columns. -/
theorem text_mapColumns (f : Nat → Nat) (tree : Expr) : (tree.mapColumns f).text = tree.text := by
  induction tree with
  | literal value column => rfl
  | var name column => rfl
  | unary op operand column ih => simp only [mapColumns, text, ih]
  | binary op left right column ihl ihr => simp only [mapColumns, text, ihl, ihr]

end Expr

/-- The token at another column. -/
def Placed.mapColumn (f : Nat → Nat) (t : Placed) : Placed := ⟨t.token, f t.column⟩

/-- The error at another column. -/
def ParseError.mapColumn (f : Nat → Nat) : ParseError → ParseError
  | endOfInput => endOfInput
  | unexpectedToken token column => unexpectedToken token (f column)
  | unclosedGroup column => unclosedGroup (f column)
  | conjWithoutGroup column => conjWithoutGroup (f column)
  | unclosedConj column => unclosedConj (f column)
  | trailingTokens token column => trailingTokens token (f column)
  | unrecognizedCharacter character column => unrecognizedCharacter character (f column)

/-- The error at another column. -/
def EvaluationError.mapColumn (f : Nat → Nat) : EvaluationError → EvaluationError
  | divisionByZero column => divisionByZero (f column)
  | unresolved name reason => unresolved name reason

/-- The failure at another column. -/
def Failure.mapColumn (f : Nat → Nat) : Failure → Failure
  | parse error => parse (error.mapColumn f)
  | evaluation error => evaluation (error.mapColumn f)

/-- What came of a text, with other columns. -/
def relabelled {α : Type} (f : Nat → Nat) (relabel : α → α) :
    Except ParseError α → Except ParseError α
  | .ok a => .ok (relabel a)
  | .error e => .error (e.mapColumn f)

/-- What was read from tokens and what was left, with other columns. -/
def Placed.mapRead (f : Nat → Nat) (r : Expr × List Placed) : Expr × List Placed :=
  (r.1.mapColumns f, r.2.map (Placed.mapColumn f))

/-- No columns: what is the same with these differs in columns only. -/
def noColumn : Nat → Nat := fun _ => 0

variable (f : Nat → Nat)

/-! ## Pieces and tokens -/

namespace Piece

/-- The piece at the front and the characters behind it are all there is. -/
theorem text_beginning_append (c : Char) (rest : List Cell) :
    c :: rest.map Prod.fst =
      (beginning c rest).1.text ++ (rest.drop (beginning c rest).2).map Prod.fst := by
  rw [text_beginning, List.cons_append, ← List.map_append, List.take_append_drop]

/-- The piece at the front depends on the characters alone. -/
theorem beginning_congr {c : Char} {rest rest' : List Cell}
    (h : rest'.map Prod.fst = rest.map Prod.fst) : beginning c rest' = beginning c rest := by
  have hm := maximal_beginning c rest
  have ht := text_beginning_append c rest
  rw [beginning_of_maximal hm (h ▸ ht), ← beginning_of_maximal hm ht]

end Piece

theorem cut_map (cells : List Cell) :
    cut (cells.map (Prod.map id f)) = (cut cells).map (Prod.map id f) := by
  fun_induction cut cells with
  | case1 =>
    rw [List.map_nil, cut]
    rfl
  | case2 c column rest piece more h ih =>
    have hb : Piece.beginning c (rest.map (Prod.map id f)) = (piece, more) := by
      rw [← h]
      refine Piece.beginning_congr ?_
      rw [List.map_map]
      rfl
    rw [List.map_cons, Prod.map_apply, cut, id, hb]
    dsimp only
    rw [← List.map_drop, ih]
    rfl

theorem tokensFrom_map (flag : Bool) (pieces : List (Piece × Nat)) :
    tokensFrom flag (pieces.map (Prod.map id f)) =
      (tokensFrom flag pieces).map (Placed.mapColumn f) := by
  induction pieces generalizing flag with
  | nil => rfl
  | cons first pieces ih =>
    obtain ⟨piece, column⟩ := first
    cases piece with
    | skipped c => exact ih false
    | token t =>
      rw [List.map_cons, Prod.map_apply, id, tokensFrom, tokensFrom, ih, List.map_append]
      split <;> rfl

theorem skippedOf_map (pieces : List (Piece × Nat)) :
    skippedOf (pieces.map (Prod.map id f)) = (skippedOf pieces).map (Prod.map id f) := by
  induction pieces with
  | nil => rfl
  | cons first pieces ih =>
    obtain ⟨piece, column⟩ := first
    cases piece with
    | skipped c => exact congrArg ((c, f column) :: ·) ih
    | token t => exact ih

/-- Texts with the same characters at other columns have the same tokens at these. -/
theorem tokenize_of_cells {source source' : List Char}
    (h : cells source' = (cells source).map (Prod.map id f)) (mode : Mode) :
    tokenize mode source' =
      relabelled f (List.map (Placed.mapColumn f)) (tokenize mode source) := by
  unfold tokenize
  dsimp only
  rw [h, cut_map, skippedOf_map, tokensFrom_map]
  cases mode with
  | permissive => rfl
  | strict => cases skippedOf (cut (cells source)) <;> rfl

/-! ## Reading -/

theorem next_map (tokens : List Placed) : next (tokens.map (Placed.mapColumn f)) = next tokens := by
  cases tokens <;> rfl

/-- Rules that are read one behind the other. -/
theorem relabelled_bind {x : Except ParseError (Expr × List Placed)}
    {g g' : Expr × List Placed → Except ParseError (Expr × List Placed)}
    (h : ∀ tree rest, x = .ok (tree, rest) →
      g' (tree.mapColumns f, rest.map (Placed.mapColumn f)) =
        relabelled f (Placed.mapRead f) (g (tree, rest))) :
    (relabelled f (Placed.mapRead f) x).bind g' = relabelled f (Placed.mapRead f) (x.bind g) := by
  cases x with
  | error e => rfl
  | ok r => exact h r.1 r.2 rfl

theorem relabelled_map {x : Except ParseError (Expr × List Placed)}
    {g g' : Expr × List Placed → Expr × List Placed}
    (h : ∀ r, g' (Placed.mapRead f r) = Placed.mapRead f (g r)) :
    (relabelled f (Placed.mapRead f) x).map g' = relabelled f (Placed.mapRead f) (x.map g) := by
  cases x with
  | error e => rfl
  | ok r => exact congrArg Except.ok (h r)

-- The induction is that of the descent: over the tokens and, with the same tokens, the rule.
mutual

theorem expression_mapColumn (tokens : List Placed) :
    bare (expression (tokens.map (Placed.mapColumn f))) =
      relabelled f (Placed.mapRead f) (bare (expression tokens)) := by
  rw [bare_expression, bare_expression, term_mapColumn]
  refine relabelled_bind f fun left rest hl => ?_
  have hlt : rest.length < tokens.length := bound_of_bare hl
  exact sums_mapColumn left rest
termination_by (tokens.length, 4)

theorem sums_mapColumn (left : Expr) (tokens : List Placed) :
    bare (sums (left.mapColumns f) (tokens.map (Placed.mapColumn f))) =
      relabelled f (Placed.mapRead f) (bare (sums left tokens)) := by
  rcases sums_step left tokens with ⟨hc, hs⟩ | ⟨token, op, column, after, ht, hop, ha, hs⟩
  · rw [hs]
    exact bare_sums_of_not (by rwa [next_map]) _
  · have hlt : after.length < tokens.length := by rw [ht]; exact Nat.lt_succ_self _
    rw [hs, ht, List.map_cons]
    show bare (sums _ (⟨token, f column⟩ :: _)) = _
    rw [bare_sums_of_operator hop (isAdditive_of_eq ha), term_mapColumn]
    refine relabelled_bind f fun right rest hr => ?_
    have hlt' : rest.length < after.length := bound_of_bare hr
    exact sums_mapColumn (.binary op left right column) rest
termination_by (tokens.length, 3)

theorem term_mapColumn (tokens : List Placed) :
    bare (term (tokens.map (Placed.mapColumn f))) =
      relabelled f (Placed.mapRead f) (bare (term tokens)) := by
  rw [bare_term, bare_term, factor_mapColumn]
  refine relabelled_bind f fun left rest hl => ?_
  have hlt : rest.length < tokens.length := bound_of_bare hl
  exact products_mapColumn left rest
termination_by (tokens.length, 3)

theorem products_mapColumn (left : Expr) (tokens : List Placed) :
    bare (products (left.mapColumns f) (tokens.map (Placed.mapColumn f))) =
      relabelled f (Placed.mapRead f) (bare (products left tokens)) := by
  rcases products_step left tokens with
    ⟨hc, hs⟩ | ⟨token, op, column, after, operand, ht, hop, ho, hs⟩
  · rw [hs]
    exact bare_products_of_not (by rwa [next_map]) _
  · have hlt : after.length < tokens.length := by rw [ht]; exact Nat.lt_succ_self _
    rw [hs, ht, List.map_cons]
    show bare (products _ (⟨token, f column⟩ :: _)) = _
    rcases ho with ⟨hm, rfl⟩ | ⟨rfl, rfl⟩
    · rw [bare_products_of_operator hop hm, factor_mapColumn]
      refine relabelled_bind f fun right rest hr => ?_
      have hlt' : rest.length < after.length := bound_of_bare hr
      exact products_mapColumn (.binary op left right column) rest
    · obtain rfl := eq_power_of_operator? hop
      rw [bare_products_of_power, power_mapColumn]
      refine relabelled_bind f fun right rest hr => ?_
      have hlt' : rest.length < after.length := bound_of_bare hr
      exact products_mapColumn (.binary .pow left right column) rest
termination_by (tokens.length, 2)

theorem power_mapColumn (tokens : List Placed) :
    bare (power (tokens.map (Placed.mapColumn f))) =
      relabelled f (Placed.mapRead f) (bare (power tokens)) := by
  rw [bare_power, bare_power, factor_mapColumn]
  refine relabelled_bind f fun base rest hb => ?_
  have hlt : rest.length < tokens.length := bound_of_bare hb
  exact raised_mapColumn base rest
termination_by (tokens.length, 2)

theorem raised_mapColumn (base : Expr) (tokens : List Placed) :
    bare (raised (base.mapColumns f) (tokens.map (Placed.mapColumn f))) =
      relabelled f (Placed.mapRead f) (bare (raised base tokens)) := by
  by_cases hp : next tokens = some .power
  · obtain ⟨column, after, rfl⟩ := eq_cons_of_next hp
    rw [bare_raised_of_power, List.map_cons]
    show bare (raised _ (⟨.power, f column⟩ :: _)) = _
    rw [bare_raised_of_power, power_mapColumn]
    exact relabelled_map f fun r => rfl
  · rw [bare_raised_of_not hp]
    exact bare_raised_of_not (by rwa [next_map]) _
termination_by (tokens.length, 1)

theorem factor_mapColumn (tokens : List Placed) :
    bare (factor (tokens.map (Placed.mapColumn f))) =
      relabelled f (Placed.mapRead f) (bare (factor tokens)) := by
  by_cases ht : tokens = []
  · rw [ht, List.map_nil, bare_factor_nil]
    rfl
  obtain ⟨⟨token, column⟩, after, ht⟩ := List.exists_cons_of_ne_nil ht
  have hlt : after.length < tokens.length := by rw [ht]; exact Nat.lt_succ_self _
  rw [ht, List.map_cons]
  show bare (factor (⟨token, f column⟩ :: _)) = _
  cases token with
  | opening =>
    rw [bare_factor_opening, bare_factor_opening, expression_mapColumn]
    refine relabelled_bind f fun inner rest hi => ?_
    by_cases hc : next rest = some .closing
    · obtain ⟨closing, rest, rfl⟩ := eq_cons_of_next hc
      have hlt' : rest.length + 1 < after.length := bound_of_bare hi
      exact raised_mapColumn inner rest
    · rw [afterGroup_of_not hc, afterGroup_of_not (by rwa [next_map])]
      rfl
  | radical =>
    rw [bare_factor_radical, bare_factor_radical, factor_mapColumn]
    exact relabelled_map f fun r => rfl
  | conj =>
    by_cases ho : next after = some .opening
    · obtain ⟨opening, after', rfl⟩ := eq_cons_of_next ho
      have hlt' : after'.length + 1 < tokens.length := hlt
      rw [bare_factor_conj, List.map_cons]
      show bare (factor (_ :: ⟨.opening, f opening⟩ :: _)) = _
      rw [bare_factor_conj, expression_mapColumn]
      refine relabelled_bind f fun operand rest _ => ?_
      by_cases hc : next rest = some .closing
      · obtain ⟨closing, rest, rfl⟩ := eq_cons_of_next hc
        rfl
      · rw [afterConj_of_not hc, afterConj_of_not (by rwa [next_map])]
        rfl
    · rw [bare_factor_conj_of_not ho, bare_factor_conj_of_not (by rwa [next_map])]
      rfl
  | number lexeme =>
    cases hx : Binary64.ofText? lexeme with
    | none =>
      rw [bare_factor_number_of_none hx, bare_factor_number_of_none hx]
      rfl
    | some x =>
      by_cases hi : next after = some (.identifier 'i')
      · obtain ⟨unit, after', rfl⟩ := eq_cons_of_next hi
        rw [bare_factor_imaginary hx, List.map_cons]
        exact bare_factor_imaginary hx _ _ _
      · rw [bare_factor_number hx hi]
        exact bare_factor_number hx (by rwa [next_map]) _
  | identifier name =>
    rw [bare_factor_identifier, bare_factor_identifier]
    by_cases hi : name = 'i'
    · rw [if_pos hi, if_pos hi]
      rfl
    · rw [if_neg hi, if_neg hi]
      rfl
  | _ =>
    rw [bare_factor_of_not rfl, bare_factor_of_not rfl]
    rfl
termination_by (tokens.length, 0)

end

/-- The end of an expression that is the whole of its tokens. -/
def atEnd (r : Expr × List Placed) : Except ParseError Expr :=
  match r.2 with
  | [] => .ok r.1
  | ⟨token, column⟩ :: _ => .error (.trailingTokens token.text column)

theorem parseTokens_eq (tokens : List Placed) :
    parseTokens tokens = (bare (expression tokens)).bind atEnd := by
  unfold parseTokens
  cases expression tokens with
  | error e => rfl
  | ok r =>
    obtain ⟨tree, rest, h⟩ := r
    cases rest <;> rfl

/-- Tokens at other columns are read as the tree with these columns, or refused at one of them. -/
theorem parseTokens_mapColumn (tokens : List Placed) :
    parseTokens (tokens.map (Placed.mapColumn f)) =
      relabelled f (Expr.mapColumns f) (parseTokens tokens) := by
  rw [parseTokens_eq, parseTokens_eq, expression_mapColumn]
  cases bare (expression tokens) with
  | error e => rfl
  | ok r =>
    obtain ⟨tree, rest⟩ := r
    cases rest <;> rfl

/-- Texts with the same characters at other columns are parsed alike. -/
theorem parse_of_cells {source source' : List Char}
    (h : cells source' = (cells source).map (Prod.map id f)) (mode : Mode) :
    parse mode source' = relabelled f (Expr.mapColumns f) (parse mode source) := by
  unfold parse
  rw [tokenize_of_cells f h]
  cases tokenize mode source with
  | error e => rfl
  | ok tokens => exact parseTokens_mapColumn f tokens

/-! ## Evaluation -/

variable {σ : Type}

/-- A result with no column in its error. -/
def withoutColumn (result : Except EvaluationError Complex) : Except EvaluationError Complex :=
  result.mapError (EvaluationError.mapColumn noColumn)

/-- The run with no column in the error that it ends with. -/
def Evaluation.withoutColumn (run : Evaluation σ) : Evaluation σ :=
  { run with result := Argand.withoutColumn run.result }

namespace Evaluation

/-- What is the same without columns: everything but the column of an error. -/
theorem withoutColumn_eq_iff {run run' : Evaluation σ} :
    run.withoutColumn = run'.withoutColumn ↔
      Argand.withoutColumn run.result = Argand.withoutColumn run'.result ∧
        run.environment = run'.environment ∧ run.state = run'.state ∧ run.lookups = run'.lookups :=
  Evaluation.mk.injEq .. ▸ Iff.rfl

theorem withoutColumn_bind {run run' : Evaluation σ}
    {g g' : Complex → Except EvaluationError Complex} (h : run.withoutColumn = run'.withoutColumn)
    (hg : ∀ z, Argand.withoutColumn (g z) = Argand.withoutColumn (g' z)) :
    (run.bind g).withoutColumn = (run'.bind g').withoutColumn := by
  obtain ⟨hr, he, hs, hl⟩ := withoutColumn_eq_iff.1 h
  refine withoutColumn_eq_iff.2 ⟨?_, he, hs, hl⟩
  show Argand.withoutColumn (run.result.bind g) = Argand.withoutColumn (run'.result.bind g')
  cases hz : run.result with
  | error e =>
    cases hz' : run'.result with
    | error e' => rwa [hz, hz'] at hr
    | ok z' =>
      rw [hz, hz'] at hr
      cases hr
  | ok z =>
    cases hz' : run'.result with
    | error e' =>
      rw [hz, hz'] at hr
      cases hr
    | ok z' =>
      rw [hz, hz'] at hr
      cases hr
      exact hg z

end Evaluation

namespace Expr

/-- A tree with other columns is evaluated with the same questions to the same result, the column of
an error apart. -/
theorem eval_mapColumns (resolver : Resolver σ) (tree : Expr) (environment : Environment)
    (state : σ) :
    ((tree.mapColumns f).eval resolver environment state).withoutColumn =
      (tree.eval resolver environment state).withoutColumn := by
  induction tree generalizing environment state with
  | literal value column => rfl
  | var name column => rfl
  | unary op operand column ih =>
    rw [mapColumns, eval_unary, eval_unary]
    exact Evaluation.withoutColumn_bind (ih environment state) fun z => rfl
  | binary op left right column ihl ihr =>
    have hl := ihl environment state
    obtain ⟨hr, he, hs, hk⟩ := Evaluation.withoutColumn_eq_iff.1 hl
    have hg (z w : Complex) : Argand.withoutColumn (op.apply z w (f column)) =
        Argand.withoutColumn (op.apply z w column) := by
      cases op with
      | div =>
        simp only [BinaryOperator.apply]
        split <;> rfl
      | _ => rfl
    rw [mapColumns]
    rcases eval_binary_cases resolver op left right column environment state with
      ⟨e, hz, hb⟩ | ⟨z, hz, hb⟩
    · rw [hz] at hr
      rcases eval_binary_cases resolver op (left.mapColumns f) (right.mapColumns f) (f column)
        environment state with ⟨e', hz', hb'⟩ | ⟨z', hz', hb'⟩
      · rw [hb, hb', hl]
      · rw [hz'] at hr
        cases hr
    · rw [hz] at hr
      rcases eval_binary_cases resolver op (left.mapColumns f) (right.mapColumns f) (f column)
        environment state with ⟨e', hz', hb'⟩ | ⟨z', hz', hb'⟩
      · rw [hz'] at hr
        cases hr
      · rw [hz'] at hr
        cases hr
        rw [hb, hb', he, hs]
        refine Evaluation.withoutColumn_bind ?_ (hg z)
        obtain ⟨hr', he', hs', hk'⟩ := Evaluation.withoutColumn_eq_iff.1
          (ihr (left.eval resolver environment state).environment
            (left.eval resolver environment state).state)
        refine Evaluation.withoutColumn_eq_iff.2 ⟨hr', he', hs', ?_⟩
        show _ ++ _ = _ ++ _
        rw [hk, hk']

end Expr

/-! ### Errors without columns -/

/-- The run with the error that it ends with at another column. -/
def Evaluation.mapColumn (run : Evaluation σ) : Evaluation σ :=
  { run with result := run.result.mapError (EvaluationError.mapColumn f) }

theorem Evaluation.mapColumn_bind (run : Evaluation σ)
    {g g' : Complex → Except EvaluationError Complex}
    (h : ∀ z, g' z = (g z).mapError (EvaluationError.mapColumn f)) :
    (run.mapColumn f).bind g' = (run.bind g).mapColumn f := by
  obtain ⟨_ | z, environment, state, lookups⟩ := run
  · rfl
  · exact congrArg (Evaluation.mk · environment state lookups) (h z)

/-- The one error that an operator makes is at its column. -/
theorem BinaryOperator.apply_mapColumn (op : BinaryOperator) (z w : Complex) (column : Nat) :
    op.apply z w (f column) = (op.apply z w column).mapError (EvaluationError.mapColumn f) := by
  cases op with
  | div =>
    simp only [BinaryOperator.apply]
    split <;> rfl
  | _ => rfl

/-- If the errors of the resolver have no columns, a tree with other columns is evaluated to the
same, with the error at its other column. -/
theorem Expr.eval_mapColumns_eq {resolver : Resolver σ}
    (h : ∀ name state, (resolver name state).1.mapError (EvaluationError.mapColumn f) =
      (resolver name state).1)
    (tree : Expr) (environment : Environment) (state : σ) :
    (tree.mapColumns f).eval resolver environment state =
      (tree.eval resolver environment state).mapColumn f := by
  induction tree generalizing environment state with
  | literal value column => rfl
  | var name column =>
    have hn := h name state
    show resolve resolver name environment state =
      (resolve resolver name environment state).mapColumn f
    unfold resolve
    cases environment.lookup name with
    | some value => rfl
    | none =>
      generalize resolver name state = answer at hn ⊢
      obtain ⟨e | value, next⟩ := answer
      · exact congrArg (Evaluation.mk · environment next _) hn.symm
      · rfl
  | unary op operand column ih =>
    rw [mapColumns, eval_unary, eval_unary, ih]
    exact Evaluation.mapColumn_bind f _ fun z => rfl
  | binary op left right column ihl ihr =>
    rw [mapColumns, Expr.eval, Expr.eval, ihl]
    obtain ⟨_ | z, environment, state, lookups⟩ := left.eval resolver environment state
    · rfl
    · dsimp only [Evaluation.mapColumn, Except.mapError]
      rw [ihr]
      obtain ⟨_ | w, environment, state, more⟩ := right.eval resolver environment state
      · rfl
      · exact congrArg (Evaluation.mk · environment state (lookups ++ more))
          (op.apply_mapColumn f z w column)

end Argand
