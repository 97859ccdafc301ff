import Mathlib.Data.List.Basic
import Argand.Proofs.Grammar

/-!
Where an error is noticed.

Tokens that are no expression may still begin one.  They are `Viable` if they do: with some tokens
behind them they are parsed.  An error comes at the first token that ends this.  The tokens in front
of it are viable, and neither they nor it can be followed by anything that changes the error; and
where every token is viable, the error says that something is missing at the end
(`parseTokens_error_at_longest_viable`).

An error of one rule is noticed behind some tokens `seen`, in front of `rest`.  `ParseError.Arises`
says what each error means there.  That a rule `Fails` on its tokens says, besides, that `seen` can
be completed by the rule (`Opens`) and that of `rest` only the first token matters.  The rules fail
as they read, one by the other: the part of a rule that was read already is a greedy reading, which
stays what it is as long as the next token does, and what is missing of the rule can be put behind
the rest.
-/

namespace Argand

/-! ## Where the rules stop -/

theorem not_continuesProduct_of_products {left tree : Expr} {tokens rest : List Placed}
    (h : bare (products left tokens) = .ok (tree, rest)) :
    ∀ t ∈ next rest, ¬t.continuesProduct := by
  rcases products_cases h with ⟨-, rfl, hc⟩ | ⟨_, _, _, after, _, rest', ht, -, hr, hs⟩
  · exact hc
  · have hlt : rest'.length < after.length := hr.elim (bound_of_bare ·.2) (bound_of_bare ·.2)
    have hlt' : after.length < tokens.length := by rw [ht]; exact Nat.lt_succ_self _
    exact not_continuesProduct_of_products hs
termination_by tokens.length

theorem not_continuesProduct_of_term {tree : Expr} {tokens rest : List Placed}
    (h : bare (term tokens) = .ok (tree, rest)) : ∀ t ∈ next rest, ¬t.continuesProduct := by
  rw [bare_term, bind_eq_ok] at h
  obtain ⟨_, -, hp⟩ := h
  exact not_continuesProduct_of_products hp

theorem operator?_eq_none_of_not {token : Token} (hs : ¬token.continuesSum)
    (hp : ¬token.continuesProduct) : token.operator? = none := by
  refine Option.eq_none_iff_forall_ne_some.2 fun op hop => ?_
  by_cases ha : op.isAdditive
  · exact hs ⟨op, hop, ha⟩
  · exact hp ⟨op, hop, ha⟩

theorem operator?_eq_none_of_sums {left tree : Expr} {tokens rest : List Placed}
    (hp : ∀ t ∈ next tokens, ¬t.continuesProduct)
    (h : bare (sums left tokens) = .ok (tree, rest)) : ∀ t ∈ next rest, t.operator? = none := by
  rcases sums_cases h with ⟨-, rfl, hc⟩ | ⟨_, _, _, after, _, rest', ht, -, -, hr, hs⟩
  · exact fun t ht => operator?_eq_none_of_not (hc t ht) (hp t ht)
  · have hlt : rest'.length < after.length := bound_of_bare hr
    have hlt' : after.length < tokens.length := by rw [ht]; exact Nat.lt_succ_self _
    exact operator?_eq_none_of_sums (not_continuesProduct_of_term hr) hs
termination_by tokens.length

/-- An expression goes on as long as there are operators. -/
theorem operator?_eq_none_of_expression {tree : Expr} {tokens rest : List Placed}
    (h : bare (expression tokens) = .ok (tree, rest)) : ∀ t ∈ next rest, t.operator? = none := by
  rw [bare_expression, bind_eq_ok] at h
  obtain ⟨_, ht, hs⟩ := h
  exact operator?_eq_none_of_sums (not_continuesProduct_of_term ht) hs

/-! ## What an error says -/

/-- No factor begins with the token, or it is a run of digits and points that is no number. -/
inductive Token.IsRefused : Token → Prop
  | kind {token : Token} : token.beginsFactor = false → token.IsRefused
  | number {lexeme : List Char} : Binary64.ofText? lexeme = none → IsRefused (.number lexeme)

/-- There is a last token, and it opens no group. -/
def EndsUnopened (tokens : List Placed) : Prop := ∃ last ∈ tokens.getLast?, last.token ≠ .opening

theorem EndsUnopened.behind {tokens : List Placed} (h : EndsUnopened tokens)
    (front : List Placed) : EndsUnopened (front ++ tokens) := by
  obtain ⟨last, hl, ho⟩ := h
  exact ⟨last, List.mem_getLast?_append_of_mem_getLast? hl, ho⟩

/-- The tokens are an expression, and a token behind them neither goes on with it nor closes the
group that it stands in. -/
def Interrupted (inner rest : List Placed) : Prop :=
  (∃ tree, Derives .greedy .expression inner (next rest) tree) ∧
    ∀ t ∈ next rest, t.beginsFactor = true

/-- Behind the tokens `seen` and in front of `rest`, the error is what there is to say. -/
inductive ParseError.Arises : (seen rest : List Placed) → ParseError → Prop
  | endOfInput {seen} : Arises seen [] .endOfInput
  | unexpectedToken {seen token column rest} : token.IsRefused →
      Arises seen (⟨token, column⟩ :: rest) (.unexpectedToken token.text column)
  | unclosedGroup {front column inner rest} : Interrupted inner rest →
      Arises (front ++ ⟨.opening, column⟩ :: inner) rest (.unclosedGroup column)
  | conjWithoutGroup {seen column rest} : ⟨.conj, column⟩ ∈ seen →
      Arises seen rest (.conjWithoutGroup column)
  | unclosedConj {front column opening inner rest} : Interrupted inner rest →
      Arises (front ++ ⟨.conj, column⟩ :: ⟨.opening, opening⟩ :: inner) rest
        (.unclosedConj column)
  | trailingTokens {seen token column rest} : EndsUnopened seen →
      Arises seen (⟨token, column⟩ :: rest) (.trailingTokens token.text column)

/-- Something is missing at the end. -/
inductive ParseError.IsUnfinished : ParseError → Prop
  | endOfInput : IsUnfinished .endOfInput
  | unclosedGroup {column} : IsUnfinished (.unclosedGroup column)
  | conjWithoutGroup {column} : IsUnfinished (.conjWithoutGroup column)
  | unclosedConj {column} : IsUnfinished (.unclosedConj column)

namespace ParseError

theorem Arises.behind {seen rest : List Placed} {e : ParseError} (h : e.Arises seen rest)
    (front : List Placed) : e.Arises (front ++ seen) rest := by
  cases h with
  | endOfInput => exact .endOfInput
  | unexpectedToken ht => exact .unexpectedToken ht
  | unclosedGroup hi =>
    rw [← List.append_assoc]
    exact .unclosedGroup hi
  | conjWithoutGroup hm => exact .conjWithoutGroup (List.mem_append_right front hm)
  | unclosedConj hi =>
    rw [← List.append_assoc]
    exact .unclosedConj hi
  | trailingTokens hs => exact .trailingTokens (hs.behind front)

theorem Arises.isUnfinished {seen : List Placed} {e : ParseError} (h : e.Arises seen []) :
    e.IsUnfinished := by
  cases h with
  | endOfInput => exact .endOfInput
  | unclosedGroup _ => exact .unclosedGroup
  | conjWithoutGroup _ => exact .conjWithoutGroup
  | unclosedConj _ => exact .unclosedConj

end ParseError

/-! ## Readings and what stands behind them -/

/-- A reading stays as it is before any other token that nothing could be taken with. -/
theorem Derives.before {rule : Rule} {tokens : List Placed} {next next' : Option Token}
    {tree : Expr} (h : Derives .greedy rule tokens next tree) (hp : next' ≠ some .power)
    (hi : next' ≠ some (.identifier 'i')) : Derives .greedy rule tokens next' tree := by
  induction h with
  | ofTerm _ ih => exact .ofTerm ih
  | sum hop ha hl _ _ ihr => exact .sum hop ha hl ihr
  | ofFactor _ ih => exact .ofFactor ih
  | product hop hm hl _ _ ihr => exact .product hop hm hl ihr
  | exponent hl _ _ ihr => exact .exponent hl ihr
  | base _ _ ih => exact .base (mayOmit_greedy.2 hp) ih
  | chain hl _ _ ihr => exact .chain hl ihr
  | group _ hd _ => exact .group (mayOmit_greedy.2 hp) hd
  | raisedGroup hl _ _ ihr => exact .raisedGroup hl ihr
  | root _ ih => exact .root ih
  | conj hd _ => exact .conj hd
  | real hl _ => exact .real hl (mayOmit_greedy.2 hi)
  | imaginary hl => exact .imaginary hl
  | unit => exact .unit
  | name hn => exact .name hn

/-- A reading ends with a token that opens no group. -/
theorem Derives.endsUnopened {reading : Reading} {rule : Rule} {tokens : List Placed}
    {next : Option Token} {tree : Expr} (h : Derives reading rule tokens next tree) :
    EndsUnopened tokens := by
  induction h with
  | ofTerm _ ih => exact ih
  | sum _ _ _ _ _ ihr => exact (ihr.behind [_]).behind _
  | ofFactor _ ih => exact ih
  | product _ _ _ _ _ ihr => exact (ihr.behind [_]).behind _
  | exponent _ _ _ ihr => exact (ihr.behind [_]).behind _
  | base _ _ ih => exact ih
  | chain _ _ _ ihr => exact (ihr.behind [_]).behind _
  | group _ _ _ => exact ⟨_, List.getLast?_concat, nofun⟩
  | raisedGroup _ _ _ ihr => exact (ihr.behind [_, _]).behind _
  | root _ ih => exact ih.behind [_]
  | conj _ _ => exact ⟨_, List.getLast?_concat, nofun⟩
  | real _ _ => exact ⟨_, rfl, nofun⟩
  | imaginary _ => exact ⟨_, rfl, nofun⟩
  | unit => exact ⟨_, rfl, nofun⟩
  | name _ => exact ⟨_, rfl, nofun⟩

/-! ## Tokens that can be completed -/

/-- Before a closing parenthesis, the tokens can be completed by the rule. -/
def Opens (rule : Rule) (tokens : List Placed) : Prop :=
  ∃ more tree, Numerals more ∧ Derives .greedy rule (tokens ++ more) (some .closing) tree

theorem Numerals.closed {tokens : List Placed} (h : Numerals tokens) (closing : Nat) :
    Numerals (tokens ++ [⟨.closing, closing⟩]) := by
  intro lexeme column hm
  rcases List.mem_append.1 hm with hm | hm
  · exact h lexeme column hm
  · cases List.mem_singleton.1 hm

namespace Opens

variable {rule rule' : Rule} {tokens front : List Placed}

/-- A rule that begins with another one is open where that one is. -/
theorem lift (h : Opens rule tokens)
    (hd : ∀ {us tree}, Derives .greedy rule us (some .closing) tree →
      ∃ tree', Derives .greedy rule' us (some .closing) tree') : Opens rule' tokens := by
  obtain ⟨more, tree, hm, h⟩ := h
  obtain ⟨tree', h'⟩ := hd h
  exact ⟨more, tree', hm, h'⟩

/-- A rule that ends with another one is open where that one is. -/
theorem behind (h : Opens rule tokens) {t : Placed}
    (hd : ∀ {us tree}, Derives .greedy rule us (some .closing) tree →
      ∃ tree', Derives .greedy rule' (front ++ t :: us) (some .closing) tree') :
    Opens rule' (front ++ t :: tokens) := by
  obtain ⟨more, tree, hm, h⟩ := h
  obtain ⟨tree', h'⟩ := hd h
  exact ⟨more, tree', hm, by rwa [List.append_assoc]⟩

/-- What has been read is open, with nothing missing. -/
theorem of_derives {next : Option Token} {tree : Expr}
    (h : Derives .greedy rule tokens next tree) : Opens rule tokens :=
  ⟨[], tree, nofun, by rw [List.append_nil]; exact h.before nofun nofun⟩

theorem nil : Opens .factor [] :=
  ⟨[⟨.identifier 'i', 1⟩], .literal .i 1, by simp [Numerals], .unit⟩

theorem group {column : Nat} (h : Opens .expression tokens) :
    Opens .factor (⟨.opening, column⟩ :: tokens) := by
  obtain ⟨more, tree, hm, hd⟩ := h
  refine ⟨more ++ [⟨.closing, 1⟩], tree, hm.closed 1, ?_⟩
  rw [List.cons_append, ← List.append_assoc, ← List.cons_append]
  exact .group (mayOmit_greedy.2 nofun) hd

theorem root {column : Nat} (h : Opens .factor tokens) :
    Opens .factor (⟨.radical, column⟩ :: tokens) := by
  obtain ⟨more, tree, hm, hd⟩ := h
  exact ⟨more, .unary .sqrt tree column, hm, .root hd⟩

theorem conj {column opening : Nat} (h : Opens .expression tokens) :
    Opens .factor (⟨.conj, column⟩ :: ⟨.opening, opening⟩ :: tokens) := by
  obtain ⟨more, tree, hm, hd⟩ := h
  refine ⟨more ++ [⟨.closing, 1⟩], .unary .conj tree column, hm.closed 1, ?_⟩
  rw [List.cons_append, List.cons_append, ← List.append_assoc, ← List.cons_append,
    ← List.cons_append]
  exact .conj hd

theorem conjAlone {column : Nat} : Opens .factor [⟨.conj, column⟩] :=
  ⟨[⟨.opening, 1⟩, ⟨.identifier 'i', 1⟩, ⟨.closing, 1⟩], .unary .conj (.literal .i 1) column,
    by simp [Numerals], .conj (.ofTerm (.ofFactor .unit))⟩

end Opens

/-! ## Failing -/

/-- Some of the tokens can be completed by the rule, the error arises behind them, and it does so
whatever follows the token there. -/
def Fails {α : Type} (reads : List Placed → Except ParseError α) (rule : Rule)
    (tokens : List Placed) (e : ParseError) : Prop :=
  ∃ seen rest, tokens = seen ++ rest ∧ Opens rule seen ∧ e.Arises seen rest ∧
    ∀ rest', rest'.head? = rest.head? → reads (seen ++ rest') = .error e

namespace Fails

variable {reads reads' : List Placed → Except ParseError (Expr × List Placed)} {rule rule' : Rule}
  {tokens : List Placed} {e : ParseError}

/-- A rule that goes on with another one fails if that one does. -/
theorem append (h : Fails reads rule tokens e) (front : List Placed)
    (ho : ∀ {seen}, Opens rule seen → Opens rule' (front ++ seen))
    (hr : ∀ {tokens'}, reads tokens' = .error e → reads' (front ++ tokens') = .error e) :
    Fails reads' rule' (front ++ tokens) e := by
  obtain ⟨seen, rest, rfl, hs, ha, hf⟩ := h
  refine ⟨front ++ seen, rest, (List.append_assoc ..).symm, ho hs, ha.behind front, ?_⟩
  intro rest' hh
  rw [List.append_assoc]
  exact hr (hf rest' hh)

theorem behind (h : Fails reads rule tokens e) {front : List Placed} {t : Placed}
    (ho : ∀ {seen}, Opens rule seen → Opens rule' (front ++ t :: seen))
    (hr : ∀ {tokens'}, reads tokens' = .error e → reads' (front ++ t :: tokens') = .error e) :
    Fails reads' rule' (front ++ t :: tokens) e := by
  rw [List.append_cons]
  refine h.append (front ++ [t]) (fun hs => ?_) (fun hf => ?_)
  · rw [← List.append_cons]
    exact ho hs
  · rw [← List.append_cons]
    exact hr hf

end Fails

theorem next_eq_of_head? {tokens tokens' : List Placed} (h : tokens'.head? = tokens.head?) :
    next tokens' = next tokens :=
  congrArg (Option.map Placed.token) h

/-- An expression is read alike in front of everything that begins with the same token. -/
theorem expression_append {tokens rest : List Placed} {tree : Expr} (hn : Numerals tokens)
    (h : bare (expression tokens) = .ok (tree, rest)) :
    ∃ taken, tokens = taken ++ rest ∧ Derives .greedy .expression taken (next rest) tree ∧
      ∀ rest', next rest' = next rest → bare (expression (taken ++ rest')) = .ok (tree, rest') := by
  obtain ⟨taken, ht, hd⟩ := derives_expression hn h
  exact ⟨taken, ht, hd, fun rest' hr =>
    (completes hd).closed (operator?_eq_none_of_expression h) hr⟩

theorem beginsFactor_of_not {token : Token} (ho : token.operator? = none) (hc : token ≠ .closing) :
    token.beginsFactor = true := by
  cases token with
  | closing => exact absurd rfl hc
  | power | plus | minus | star | slash => cases ho
  | _ => rfl

/-- An expression in a group that is not closed behind it is interrupted there. -/
theorem interrupted_of_expression {tokens taken rest : List Placed} {tree : Expr}
    (h : bare (expression tokens) = .ok (tree, rest))
    (hd : Derives .greedy .expression taken (next rest) tree) (hc : next rest ≠ some .closing) :
    Interrupted taken rest := by
  refine ⟨⟨tree, hd⟩, ?_⟩
  intro t ht
  refine beginsFactor_of_not (operator?_eq_none_of_expression h t ht) ?_
  rintro rfl
  exact hc ht

/-- A token that no factor begins with is refused where a factor is to be read. -/
theorem fails_refused {token : Token} {column : Nat} {rest : List Placed} (ht : token.IsRefused)
    (h : ∀ rest', bare (factor (⟨token, column⟩ :: rest')) =
      .error (.unexpectedToken token.text column)) :
    Fails (bare <| factor ·) .factor (⟨token, column⟩ :: rest)
      (.unexpectedToken token.text column) := by
  refine ⟨[], ⟨token, column⟩ :: rest, rfl, .nil, .unexpectedToken ht, fun rest' hh => ?_⟩
  obtain ⟨rest', rfl⟩ := List.head?_eq_some_iff.1 hh
  exact h rest'

theorem fails_unclosedGroup {column : Nat} {tokens rest : List Placed} {tree : Expr}
    (hn : Numerals tokens) (h : bare (expression tokens) = .ok (tree, rest))
    (hc : next rest ≠ some .closing) :
    Fails (bare <| factor ·) .factor (⟨.opening, column⟩ :: tokens) (.unclosedGroup column) := by
  obtain ⟨taken, rfl, hd, hr⟩ := expression_append hn h
  have hi : Interrupted taken rest := interrupted_of_expression h hd hc
  refine ⟨[] ++ ⟨.opening, column⟩ :: taken, rest, rfl, (Opens.of_derives hd).group,
    .unclosedGroup hi, fun rest' hh => ?_⟩
  have hn := next_eq_of_head? hh
  show bare (factor (⟨.opening, column⟩ :: (taken ++ rest'))) = _
  rw [bare_factor_opening, hr rest' hn]
  exact afterGroup_of_not (hn ▸ hc)

theorem fails_unclosedConj {column opening : Nat} {tokens rest : List Placed} {tree : Expr}
    (hn : Numerals tokens) (h : bare (expression tokens) = .ok (tree, rest))
    (hc : next rest ≠ some .closing) :
    Fails (bare <| factor ·) .factor (⟨.conj, column⟩ :: ⟨.opening, opening⟩ :: tokens)
      (.unclosedConj column) := by
  obtain ⟨taken, rfl, hd, hr⟩ := expression_append hn h
  have hi : Interrupted taken rest := interrupted_of_expression h hd hc
  refine ⟨[] ++ ⟨.conj, column⟩ :: ⟨.opening, opening⟩ :: taken, rest, rfl,
    (Opens.of_derives hd).conj, .unclosedConj hi, fun rest' hh => ?_⟩
  have hn := next_eq_of_head? hh
  show bare (factor (⟨.conj, column⟩ :: ⟨.opening, opening⟩ :: (taken ++ rest'))) = _
  rw [bare_factor_conj, hr rest' hn]
  exact afterConj_of_not (hn ▸ hc)

theorem fails_conjWithoutGroup {column : Nat} {tokens : List Placed}
    (h : next tokens ≠ some .opening) :
    Fails (bare <| factor ·) .factor (⟨.conj, column⟩ :: tokens) (.conjWithoutGroup column) :=
  ⟨[⟨.conj, column⟩], tokens, rfl, .conjAlone, .conjWithoutGroup List.mem_cons_self,
    fun _ hh => bare_factor_conj_of_not (next_eq_of_head? hh ▸ h) column⟩

/-- Behind a group, the exponent fails. -/
theorem fails_raisedGroup {opening closing column : Nat} {taken tokens : List Placed} {inner : Expr}
    {e : ParseError} (hd : Derives .greedy .expression taken (some .closing) inner)
    (h : Fails (bare <| power ·) .power tokens e) :
    Fails (bare <| factor ·) .factor
      (⟨.opening, opening⟩ :: taken ++ ⟨.closing, closing⟩ :: ⟨.power, column⟩ :: tokens) e := by
  rw [List.append_cons]
  refine h.behind (·.behind fun hd' => ?_) fun {tokens'} h' => ?_
  · rw [← List.append_cons]
    exact ⟨_, .raisedGroup hd hd'⟩
  · have hi : bare (expression (taken ++ ⟨.closing, closing⟩ :: ⟨.power, column⟩ :: tokens')) =
        .ok (inner, ⟨.closing, closing⟩ :: ⟨.power, column⟩ :: tokens') :=
      (completes hd).closed no_operator_closing rfl
    rw [← List.append_cons, List.cons_append, bare_factor_opening, hi]
    show bare (raised _ _) = _
    rw [bare_raised_of_power, h']
    rfl

/-- Behind a term, an operator and its operand go on with it. -/
theorem derives_products_step {token : Token} {op : BinaryOperator} {column : Nat}
    {front after rest : List Placed} {left right : Expr}
    {operand : Except ParseError (Expr × List Placed)} (hn : Numerals after)
    (hd : Derives .greedy .term front (some token) left) (hop : token.operator? = some op)
    (ho : (op = .mul ∨ op = .div) ∧ operand = bare (factor after) ∨
      op = .pow ∧ operand = bare (power after))
    (hr : operand = .ok (right, rest)) :
    rest.length < after.length ∧ ∃ middle, after = middle ++ rest ∧
      Derives .greedy .term (front ++ ⟨token, column⟩ :: middle) (next rest)
        (.binary op left right column) := by
  rcases ho with ⟨hm, rfl⟩ | ⟨rfl, rfl⟩
  · obtain ⟨middle, ht, hd'⟩ := derives_factor hn hr
    exact ⟨bound_of_bare hr, middle, ht, .product hop hm hd hd'⟩
  · obtain rfl := eq_power_of_operator? hop
    obtain ⟨middle, ht, hd'⟩ := derives_power hn hr
    exact ⟨bound_of_bare hr, middle, ht, .exponent hd hd'⟩

-- The induction is that of the descent: over the tokens and, with the same tokens, the rule.  A
-- loop fails as the rule that it belongs to, on what was read before it and what it is given.
mutual

theorem fails_expression {tokens : List Placed} {e : ParseError} (hn : Numerals tokens)
    (h : bare (expression tokens) = .error e) :
    Fails (bare <| expression ·) .expression tokens e := by
  rw [bare_expression, bind_eq_error] at h
  rcases h with h | ⟨⟨left, rest⟩, hl, hs⟩
  · refine (fails_term hn h).append [] (·.lift fun hd => ⟨_, .ofTerm hd⟩) fun {tokens'} h' => ?_
    rw [List.nil_append, bare_expression, h']
    rfl
  · obtain ⟨front, ht, hd⟩ := derives_term hn hl
    have hlt : rest.length < tokens.length := bound_of_bare hl
    rw [ht]
    exact fails_sums (hn.tail ⟨front, ht.symm⟩) (.ofTerm hd) hs
termination_by (tokens.length, 4)

theorem fails_sums {tokens front : List Placed} {left : Expr} {e : ParseError}
    (hn : Numerals tokens) (hd : Derives .greedy .expression front (next tokens) left)
    (h : bare (sums left tokens) = .error e) :
    Fails (bare <| expression ·) .expression (front ++ tokens) e := by
  obtain ⟨token, op, column, after, ht, hop, ha, h⟩ := sums_eq_error h
  have hlt : after.length < tokens.length := by rw [ht]; exact Nat.lt_succ_self _
  rw [ht] at hn hd ⊢
  have hafter : Numerals after := hn.tail (List.suffix_cons ..)
  rcases h with h | ⟨right, rest, hr, hs⟩
  · refine (fails_term hafter h).behind (·.behind fun hd' => ⟨_, .sum hop ha hd hd'⟩)
      fun {tokens'} h' => ?_
    have hc : bare (expression (front ++ ⟨token, column⟩ :: tokens')) = _ :=
      completes hd (⟨token, column⟩ :: tokens') rfl fun t ht =>
        Option.some.inj ht ▸ not_continuesProduct hop ha
    rw [hc, bare_sums_of_operator hop (isAdditive_of_eq ha), h']
    rfl
  · obtain ⟨middle, ht', hd'⟩ := derives_term hafter hr
    have hlt' : rest.length < after.length := bound_of_bare hr
    have := fails_sums (hafter.tail ⟨middle, ht'.symm⟩) (.sum hop ha hd hd') hs
    rwa [ht', ← List.cons_append, ← List.append_assoc]
termination_by (tokens.length, 3)

theorem fails_term {tokens : List Placed} {e : ParseError} (hn : Numerals tokens)
    (h : bare (term tokens) = .error e) : Fails (bare <| term ·) .term tokens e := by
  rw [bare_term, bind_eq_error] at h
  rcases h with h | ⟨⟨left, rest⟩, hl, hp⟩
  · refine (fails_factor hn h).append [] (·.lift fun hd => ⟨_, .ofFactor hd⟩) fun {tokens'} h' => ?_
    rw [List.nil_append, bare_term, h']
    rfl
  · obtain ⟨front, ht, hd⟩ := derives_factor hn hl
    have hlt : rest.length < tokens.length := bound_of_bare hl
    rw [ht]
    exact fails_products (hn.tail ⟨front, ht.symm⟩) (.ofFactor hd) hp
termination_by (tokens.length, 3)

theorem fails_products {tokens front : List Placed} {left : Expr} {e : ParseError}
    (hn : Numerals tokens) (hd : Derives .greedy .term front (next tokens) left)
    (h : bare (products left tokens) = .error e) :
    Fails (bare <| term ·) .term (front ++ tokens) e := by
  obtain ⟨token, op, column, after, operand, ht, hop, ho, h⟩ := products_eq_error h
  have hlt : after.length < tokens.length := by rw [ht]; exact Nat.lt_succ_self _
  rw [ht] at hn hd ⊢
  have hafter : Numerals after := hn.tail (List.suffix_cons ..)
  have hc (tokens') : bare (term (front ++ ⟨token, column⟩ :: tokens')) = _ :=
    completes hd (⟨token, column⟩ :: tokens') rfl
  rcases h with h | ⟨right, rest, hr, hs⟩
  · rcases ho with ⟨hm, rfl⟩ | ⟨rfl, rfl⟩
    · refine (fails_factor hafter h).behind (·.behind fun hd' => ⟨_, .product hop hm hd hd'⟩)
        fun {tokens'} h' => ?_
      rw [hc, bare_products_of_operator hop hm, h']
      rfl
    · obtain rfl := eq_power_of_operator? hop
      refine (fails_power hafter h).behind (·.behind fun hd' => ⟨_, .exponent hd hd'⟩)
        fun {tokens'} h' => ?_
      rw [hc, bare_products_of_power, h']
      rfl
  · obtain ⟨hlt', middle, ht', hd'⟩ := derives_products_step hafter hd hop ho hr
    have := fails_products (hafter.tail ⟨middle, ht'.symm⟩) hd' hs
    rwa [ht', ← List.cons_append, ← List.append_assoc]
termination_by (tokens.length, 2)

theorem fails_power {tokens : List Placed} {e : ParseError} (hn : Numerals tokens)
    (h : bare (power tokens) = .error e) : Fails (bare <| power ·) .power tokens e := by
  rw [bare_power, bind_eq_error] at h
  rcases h with h | ⟨⟨base, rest⟩, hb, hr⟩
  · refine (fails_factor hn h).append []
      (·.lift fun hd => ⟨_, .base (mayOmit_greedy.2 nofun) hd⟩) fun {tokens'} h' => ?_
    rw [List.nil_append, bare_power, h']
    rfl
  · obtain ⟨front, ht, hd⟩ := derives_factor hn hb
    obtain ⟨column, after, rfl, he⟩ := raised_eq_error hr
    have hlt : after.length + 1 < tokens.length := bound_of_bare hb
    have hafter : Numerals after := hn.tail ⟨front ++ [⟨.power, column⟩], by simp [ht]⟩
    rw [ht]
    refine (fails_power hafter he).behind (·.behind fun hd' => ⟨_, .chain hd hd'⟩)
      fun {tokens'} h' => ?_
    have hc : bare (factor (front ++ ⟨.power, column⟩ :: tokens')) = _ := completes hd _ rfl
    rw [bare_power, hc]
    show bare (raised _ _) = _
    rw [bare_raised_of_power, h']
    rfl
termination_by (tokens.length, 2)

theorem fails_factor {tokens : List Placed} {e : ParseError} (hn : Numerals tokens)
    (h : bare (factor tokens) = .error e) : Fails (bare <| factor ·) .factor tokens e := by
  by_cases ht : tokens = []
  · rw [ht, bare_factor_nil] at h
    cases h
    refine ⟨[], [], ht, .nil, .endOfInput, fun rest' hh => ?_⟩
    rw [List.head?_eq_none_iff.1 hh]
    exact bare_factor_nil
  obtain ⟨⟨token, column⟩, after, ht⟩ := List.exists_cons_of_ne_nil ht
  have hlt : after.length < tokens.length := by rw [ht]; exact Nat.lt_succ_self _
  rw [ht] at hn h ⊢
  have hafter : Numerals after := hn.tail (List.suffix_cons ..)
  cases token with
  | opening =>
    rw [bare_factor_opening, bind_eq_error] at h
    rcases h with h | ⟨⟨inner, rest⟩, hi, hg⟩
    · refine (fails_expression hafter h).append [_] Opens.group fun {tokens'} h' => ?_
      rw [List.singleton_append, bare_factor_opening, h']
      rfl
    by_cases hc : next rest = some .closing
    · obtain ⟨closing, rest, rfl⟩ := eq_cons_of_next hc
      obtain ⟨power, after', rfl, he⟩ := raised_eq_error hg
      obtain ⟨taken, ht', hd⟩ := derives_expression hafter hi
      have hlt' : after'.length + 2 < after.length := bound_of_bare hi
      have hafter' : Numerals after' :=
        hafter.tail ⟨taken ++ [⟨.closing, closing⟩, ⟨.power, power⟩], by simp [ht']⟩
      rw [ht']
      exact fails_raisedGroup hd (fails_power hafter' he)
    · rw [afterGroup_of_not hc] at hg
      cases hg
      exact fails_unclosedGroup hafter hi hc
  | radical =>
    rw [bare_factor_radical, map_eq_error] at h
    refine (fails_factor hafter h).append [_] Opens.root fun {tokens'} h' => ?_
    rw [List.singleton_append, bare_factor_radical, h']
    rfl
  | conj =>
    by_cases ho : next after = some .opening
    · obtain ⟨opening, after', ht'⟩ := eq_cons_of_next ho
      have hlt' : after'.length < after.length := by rw [ht']; exact Nat.lt_succ_self _
      rw [ht'] at h hafter ⊢
      rw [bare_factor_conj, bind_eq_error] at h
      have hafter' : Numerals after' := hafter.tail (List.suffix_cons ..)
      rcases h with h | ⟨⟨operand, rest⟩, hi, hc⟩
      · refine (fails_expression hafter' h).append [_, _] Opens.conj fun {tokens'} h' => ?_
        rw [List.cons_append, List.singleton_append, bare_factor_conj, h']
        rfl
      · by_cases hc' : next rest = some .closing
        · obtain ⟨closing, rest, rfl⟩ := eq_cons_of_next hc'
          cases hc
        · rw [afterConj_of_not hc'] at hc
          cases hc
          exact fails_unclosedConj hafter' hi hc'
    · rw [bare_factor_conj_of_not ho] at h
      cases h
      exact fails_conjWithoutGroup ho
  | number lexeme =>
    cases hx : Binary64.ofText? lexeme with
    | none =>
      rw [bare_factor_number_of_none hx] at h
      cases h
      exact fails_refused (.number hx) (bare_factor_number_of_none hx column)
    | some x =>
      by_cases hi : next after = some (.identifier 'i')
      · obtain ⟨unit, after', rfl⟩ := eq_cons_of_next hi
        rw [bare_factor_imaginary hx] at h
        cases h
      · rw [bare_factor_number hx hi] at h
        cases h
  | identifier name =>
    rw [bare_factor_identifier] at h
    cases h
  | _ =>
    rw [bare_factor_of_not rfl] at h
    cases h
    exact fails_refused (.kind rfl) (bare_factor_of_not rfl column)
termination_by (tokens.length, 0)

end

/-! ## The whole of the tokens -/

theorem parseTokens_eq_error {tokens : List Placed} {e : ParseError} :
    parseTokens tokens = .error e ↔ bare (expression tokens) = .error e ∨
      ∃ tree token column rest, bare (expression tokens) = .ok (tree, ⟨token, column⟩ :: rest) ∧
        e = .trailingTokens token.text column := by
  unfold parseTokens
  cases expression tokens with
  | error e' => simp [bare, Except.map]
  | ok r =>
    obtain ⟨tree, rest, h⟩ := r
    rcases rest with _ | ⟨⟨token, column⟩, rest⟩
    · simp [bare, Except.map]
    · simp [bare, Except.map, eq_comm]

/-- Where the tokens are no expression, the error is decided by those that can be completed and the
one behind them. -/
theorem fails_parseTokens {tokens : List Placed} {e : ParseError} (hn : Numerals tokens)
    (h : parseTokens tokens = .error e) : Fails parseTokens .expression tokens e := by
  rcases parseTokens_eq_error.1 h with h | ⟨tree, token, column, rest, hp, rfl⟩
  · obtain ⟨seen, rest, ht, ho, ha, hf⟩ := fails_expression hn h
    exact ⟨seen, rest, ht, ho, ha, fun rest' hh => parseTokens_eq_error.2 (.inl (hf rest' hh))⟩
  · obtain ⟨taken, ht, hd, hr⟩ := expression_append hn hp
    refine ⟨taken, ⟨token, column⟩ :: rest, ht, .of_derives hd, .trailingTokens hd.endsUnopened, ?_⟩
    intro rest' hh
    obtain ⟨rest', rfl⟩ := List.head?_eq_some_iff.1 hh
    exact parseTokens_eq_error.2 (.inr ⟨tree, token, column, rest', hr _ rfl, rfl⟩)

/-- With some tokens behind them, the tokens are parsed. -/
def Viable (tokens : List Placed) : Prop :=
  ∃ more tree, Numerals more ∧ parseTokens (tokens ++ more) = .ok tree

/-- The length of the longest front of the tokens that is viable. -/
def IsLongestViable (tokens : List Placed) (k : Nat) : Prop :=
  k ≤ tokens.length ∧ Viable (tokens.take k) ∧
    ∀ j ≤ tokens.length, Viable (tokens.take j) → j ≤ k

theorem Opens.viable {tokens : List Placed} (h : Opens .expression tokens) : Viable tokens := by
  obtain ⟨more, tree, hm, hd⟩ := h
  exact ⟨more, tree, hm, parseTokens_of_derives (hd.before nofun nofun)⟩

/-- What begins like `seen ++ rest`, up to the first token of the rest. -/
theorem eq_append_of_take {seen rest other : List Placed} (hr : rest ≠ [])
    (h : other.take (seen.length + 1) = (seen ++ rest).take (seen.length + 1)) :
    ∃ rest', other = seen ++ rest' ∧ rest'.head? = rest.head? := by
  obtain ⟨t, after, rfl⟩ := List.exists_cons_of_ne_nil hr
  rw [List.take_length_add_append, List.take_succ_cons, List.take_zero] at h
  refine ⟨t :: other.drop (seen.length + 1), ?_, rfl⟩
  calc other
      = other.take (seen.length + 1) ++ other.drop (seen.length + 1) :=
        (List.take_append_drop ..).symm
    _ = seen ++ t :: other.drop (seen.length + 1) := by
        rw [h, List.append_assoc, List.singleton_append]

/-- An error comes at the first token that no expression has there, and nothing behind that token
matters.  If there is none, the error is that the tokens end too soon. -/
theorem parseTokens_error_at_longest_viable {tokens : List Placed} (hn : Numerals tokens)
    {e : ParseError} (h : parseTokens tokens = .error e) :
    ∃ k, IsLongestViable tokens k ∧
      (k < tokens.length → ∀ other : List Placed, other.take (k + 1) = tokens.take (k + 1) →
        parseTokens other = .error e) ∧
      (k = tokens.length → e.IsUnfinished) := by
  obtain ⟨seen, rest, rfl, ho, ha, hf⟩ := fails_parseTokens hn h
  have hlength : (seen ++ rest).length = seen.length + rest.length := List.length_append
  have hsame : seen.length < (seen ++ rest).length → ∀ other : List Placed,
      other.take (seen.length + 1) = (seen ++ rest).take (seen.length + 1) →
        parseTokens other = .error e := by
    intro hk other ht
    have hr : rest ≠ [] := List.ne_nil_of_length_pos (by omega)
    obtain ⟨rest', rfl, hh⟩ := eq_append_of_take hr ht
    exact hf rest' hh
  refine ⟨seen.length, ⟨by omega, ?_, ?_⟩, hsame, ?_⟩
  · rw [List.take_left]
    exact ho.viable
  · rintro j hj ⟨more, tree, -, hp⟩
    refine Nat.le_of_not_lt fun hk => ?_
    have hm : seen.length + 1 ≤ ((seen ++ rest).take j).length := by
      rw [List.length_take]
      omega
    have ht : ((seen ++ rest).take j ++ more).take (seen.length + 1) =
        (seen ++ rest).take (seen.length + 1) := by
      rw [List.take_append_of_le_length hm, List.take_take, Nat.min_eq_left hk]
    rw [hsame (by omega) _ ht] at hp
    cases hp
  · intro hk
    have hr : rest = [] := List.eq_nil_of_length_eq_zero (by omega)
    exact (hr ▸ ha).isUnfinished

/-- The tokens of `(x*)2`. -/
def starBeforeClosing : List Placed :=
  [⟨.opening, 1⟩, ⟨.identifier 'x', 2⟩, ⟨.star, 3⟩, ⟨.closing, 4⟩, ⟨.number ['2'], 5⟩]

/-- The closing parenthesis is at fault, not that the number follows. -/
theorem parseTokens_starBeforeClosing :
    Numerals starBeforeClosing ∧
      parseTokens starBeforeClosing = .error (.unexpectedToken [')'] 4) ∧
      ∃ k, IsLongestViable starBeforeClosing k ∧
        (k < starBeforeClosing.length → ∀ other : List Placed,
          other.take (k + 1) = starBeforeClosing.take (k + 1) →
            parseTokens other = .error (.unexpectedToken [')'] 4)) ∧
        (k = starBeforeClosing.length →
          (ParseError.unexpectedToken [')'] 4).IsUnfinished) := by
  have hn : Numerals starBeforeClosing := by
    intro lexeme column hm
    simp only [starBeforeClosing, List.mem_cons, Placed.mk.injEq, Token.number.injEq, reduceCtorEq,
      false_and, false_or, or_false, List.not_mem_nil] at hm
    rw [hm.1]
    exact .digit rfl nofun
  have hx (rest) : bare (factor (⟨.identifier 'x', 2⟩ :: rest)) = .ok (.var 'x' 2, rest) :=
    bare_factor_identifier ..
  have hp : parseTokens starBeforeClosing = .error (.unexpectedToken [')'] 4) := by
    refine parseTokens_eq_error.2 (.inl ?_)
    rw [starBeforeClosing, bare_expression, bare_term, bare_factor_opening, bare_expression,
      bare_term, hx]
    show ((((bare (products _ _)).bind _).bind _).bind _).bind _ = _
    rw [bare_products_of_operator (show Token.star.operator? = some .mul from rfl) (.inl rfl),
      bare_factor_of_not rfl]
    rfl
  exact ⟨hn, hp, parseTokens_error_at_longest_viable hn hp⟩

end Argand
