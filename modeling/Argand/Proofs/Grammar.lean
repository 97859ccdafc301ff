import Argand.Proofs.Cut
import Argand.Proofs.Descent

/-!
The grammar of expressions, and that the descent reads it.

`Derives reading rule tokens next tree` is the grammar itself: by `rule`, the tokens have the
reading `tree` where the token `next` stands behind them.  The rules are those of the language and
know nothing of the functions that read it:

    expression = term, or expression ("+" | "-") term
    term       = factor, or term ("*" | "/") factor, or term "**" power
    power      = factor, or factor "**" power
    factor     = "(" expression ")", or "(" expression ")" "**" power
               | "√" factor | "conj" "(" expression ")"
               | number, or number "i" | "i" | identifier

Taken `free`ly, they leave a choice wherever a rule has a longer and a shorter form: `2**3**2` has
two readings, and so has `2*(3)**2`.  The `greedy` reading settles it by the token that follows: the
shorter form stands only where that token does not begin the longer one.

Main statement: the descent gives a tree exactly if the tokens have it as their greedy reading, so
there is at most one (`parseTokens_eq_ok_iff_derives`).  Soundness follows the functions,
completeness the derivation.  For the two rules that recur on the left a derivation does not say
what the function returns, since the function goes on; it says what is left to do, which is the loop
with the tree so far (`Completes`).
-/

namespace Argand

/-! ## The grammar -/

/-- How an optional part of a rule is read. -/
inductive Reading where
  /-- It is taken whenever the next token permits it. -/
  | greedy
  /-- It is taken or left. -/
  | free

/-- Whether an optional part that begins with the token `first` may be left out before `next`. -/
def Reading.MayOmit : Reading → (first : Token) → (next : Option Token) → Prop
  | greedy, first, next => next ≠ some first
  | free, _, _ => True

theorem mayOmit_greedy {first : Token} {next : Option Token} :
    Reading.greedy.MayOmit first next ↔ next ≠ some first := Iff.rfl

inductive Rule where
  | expression
  | term
  | power
  | factor

/-- A number of the grammar: it has the form of a number token, and at most one point. -/
def IsNumber (lexeme : List Char) : Prop := IsNumeral lexeme ∧ lexeme.count '.' ≤ 1

/-- By the rule, the tokens with `next` behind them are read as the tree. -/
inductive Derives (reading : Reading) :
    Rule → (tokens : List Placed) → (next : Option Token) → (tree : Expr) → Prop
  | ofTerm {ts next t} : Derives reading .term ts next t → Derives reading .expression ts next t
  | sum {token op column ts us next l r} : token.operator? = some op → op = .add ∨ op = .sub →
      Derives reading .expression ts (some token) l → Derives reading .term us next r →
      Derives reading .expression (ts ++ ⟨token, column⟩ :: us) next (.binary op l r column)
  | ofFactor {ts next t} : Derives reading .factor ts next t → Derives reading .term ts next t
  | product {token op column ts us next l r} : token.operator? = some op → op = .mul ∨ op = .div →
      Derives reading .term ts (some token) l → Derives reading .factor us next r →
      Derives reading .term (ts ++ ⟨token, column⟩ :: us) next (.binary op l r column)
  | exponent {column ts us next l r} :
      Derives reading .term ts (some .power) l → Derives reading .power us next r →
      Derives reading .term (ts ++ ⟨.power, column⟩ :: us) next (.binary .pow l r column)
  | base {ts next t} : reading.MayOmit .power next →
      Derives reading .factor ts next t → Derives reading .power ts next t
  | chain {column ts us next l r} :
      Derives reading .factor ts (some .power) l → Derives reading .power us next r →
      Derives reading .power (ts ++ ⟨.power, column⟩ :: us) next (.binary .pow l r column)
  | group {opening closing ts next t} : reading.MayOmit .power next →
      Derives reading .expression ts (some .closing) t →
      Derives reading .factor (⟨.opening, opening⟩ :: ts ++ [⟨.closing, closing⟩]) next t
  | raisedGroup {opening closing column ts us next l r} :
      Derives reading .expression ts (some .closing) l → Derives reading .power us next r →
      Derives reading .factor
        (⟨.opening, opening⟩ :: ts ++ ⟨.closing, closing⟩ :: ⟨.power, column⟩ :: us) next
        (.binary .pow l r column)
  | root {column ts next t} : Derives reading .factor ts next t →
      Derives reading .factor (⟨.radical, column⟩ :: ts) next (.unary .sqrt t column)
  | conj {column opening closing ts next t} : Derives reading .expression ts (some .closing) t →
      Derives reading .factor
        (⟨.conj, column⟩ :: ⟨.opening, opening⟩ :: ts ++ [⟨.closing, closing⟩]) next
        (.unary .conj t column)
  | real {lexeme column next} : IsNumber lexeme → reading.MayOmit (.identifier 'i') next →
      Derives reading .factor [⟨.number lexeme, column⟩] next
        (.literal (.ofReal (numeralValue lexeme)) column)
  | imaginary {lexeme column unit next} : IsNumber lexeme →
      Derives reading .factor [⟨.number lexeme, column⟩, ⟨.identifier 'i', unit⟩] next
        (.literal ⟨.zero, numeralValue lexeme⟩ column)
  | unit {column next} :
      Derives reading .factor [⟨.identifier 'i', column⟩] next (.literal .i column)
  | name {name column next} : name ≠ 'i' →
      Derives reading .factor [⟨.identifier name, column⟩] next (.var name column)

/-- The greedy readings are among the free ones. -/
theorem derives_free {rule : Rule} {tokens : List Placed} {next : Option Token} {tree : Expr}
    (h : Derives .greedy rule tokens next tree) : Derives .free rule tokens next tree := by
  induction h with
  | ofTerm _ ih => exact .ofTerm ih
  | sum hop ha _ _ ihl ihr => exact .sum hop ha ihl ihr
  | ofFactor _ ih => exact .ofFactor ih
  | product hop hm _ _ ihl ihr => exact .product hop hm ihl ihr
  | exponent _ _ ihl ihr => exact .exponent ihl ihr
  | base _ _ ih => exact .base trivial ih
  | chain _ _ ihl ihr => exact .chain ihl ihr
  | group _ _ ih => exact .group trivial ih
  | raisedGroup _ _ ihl ihr => exact .raisedGroup ihl ihr
  | root _ ih => exact .root ih
  | conj _ ih => exact .conj ih
  | real hl _ => exact .real hl trivial
  | imaginary hl => exact .imaginary hl
  | unit => exact .unit
  | name hi => exact .name hi

/-! ## Soundness -/

theorem IsNumeral.isNumber {lexeme : List Char} {x : Binary64} (h : IsNumeral lexeme)
    (hx : Binary64.ofText? lexeme = some x) : IsNumber lexeme ∧ x = numeralValue lexeme := by
  rw [ofText?_of_isNumeral h] at hx
  by_cases hc : lexeme.count '.' ≤ 1
  · rw [if_pos hc] at hx
    exact ⟨⟨h, hc⟩, (Option.some.inj hx).symm⟩
  · rw [if_neg hc] at hx
    cases hx

mutual

theorem derives_expression {tokens rest : List Placed} {tree : Expr} (hn : Numerals tokens)
    (h : bare (expression tokens) = .ok (tree, rest)) :
    ∃ taken, tokens = taken ++ rest ∧ Derives .greedy .expression taken (next rest) tree := by
  rw [bare_expression, bind_eq_ok] at h
  obtain ⟨⟨left, rest'⟩, hl, hs⟩ := h
  obtain ⟨front, ht, hd⟩ := derives_term hn hl
  have hlt : rest'.length < tokens.length := bound_of_bare hl
  obtain ⟨taken, ht', hd'⟩ := derives_sums (hn.tail ⟨front, ht.symm⟩) (.ofTerm hd) hs
  exact ⟨front ++ taken, by rw [ht, ht', List.append_assoc], hd'⟩
termination_by (tokens.length, 4)

theorem derives_sums {tokens rest front : List Placed} {left tree : Expr} (hn : Numerals tokens)
    (hd : Derives .greedy .expression front (next tokens) left)
    (h : bare (sums left tokens) = .ok (tree, rest)) :
    ∃ taken, tokens = taken ++ rest ∧
      Derives .greedy .expression (front ++ taken) (next rest) tree := by
  rcases sums_cases h with ⟨rfl, rfl, -⟩ |
    ⟨token, op, column, after, right, rest', ht, hop, ha, hr, hs⟩
  · exact ⟨[], rfl, by rwa [List.append_nil]⟩
  · rw [ht] at hn hd
    have hn : Numerals after := hn.tail (List.suffix_cons ..)
    obtain ⟨middle, ht', hr'⟩ := derives_term hn hr
    have hlt : after.length < tokens.length := by rw [ht]; exact Nat.lt_succ_self _
    have hlt' : rest'.length < after.length := bound_of_bare hr
    have hd' : Derives .greedy .expression (front ++ ⟨token, column⟩ :: middle) (next rest')
        (.binary op left right column) := .sum hop ha hd hr'
    obtain ⟨taken, ht'', hs'⟩ := derives_sums (hn.tail ⟨middle, ht'.symm⟩) hd' hs
    refine ⟨⟨token, column⟩ :: middle ++ taken, ?_, ?_⟩
    · rw [ht, ht', ht'', List.cons_append, List.cons_append, List.append_assoc]
    · simpa using hs'
termination_by (tokens.length, 3)

theorem derives_term {tokens rest : List Placed} {tree : Expr} (hn : Numerals tokens)
    (h : bare (term tokens) = .ok (tree, rest)) :
    ∃ taken, tokens = taken ++ rest ∧ Derives .greedy .term taken (next rest) tree := by
  rw [bare_term, bind_eq_ok] at h
  obtain ⟨⟨left, rest'⟩, hl, hs⟩ := h
  obtain ⟨front, ht, hd⟩ := derives_factor hn hl
  have hlt : rest'.length < tokens.length := bound_of_bare hl
  obtain ⟨taken, ht', hd'⟩ := derives_products (hn.tail ⟨front, ht.symm⟩) (.ofFactor hd) hs
  exact ⟨front ++ taken, by rw [ht, ht', List.append_assoc], hd'⟩
termination_by (tokens.length, 3)

theorem derives_products {tokens rest front : List Placed} {left tree : Expr}
    (hn : Numerals tokens) (hd : Derives .greedy .term front (next tokens) left)
    (h : bare (products left tokens) = .ok (tree, rest)) :
    ∃ taken, tokens = taken ++ rest ∧ Derives .greedy .term (front ++ taken) (next rest) tree := by
  rcases products_cases h with ⟨rfl, rfl, -⟩ |
    ⟨token, op, column, after, right, rest', ht, hop, hright, hs⟩
  · exact ⟨[], rfl, by rwa [List.append_nil]⟩
  · rw [ht] at hn hd
    have hafter : Numerals after := hn.tail (List.suffix_cons ..)
    have hlt : after.length < tokens.length := by rw [ht]; exact Nat.lt_succ_self _
    obtain ⟨middle, ht', hlt', hd'⟩ : ∃ middle, after = middle ++ rest' ∧
        rest'.length < after.length ∧ Derives .greedy .term (front ++ ⟨token, column⟩ :: middle)
          (next rest') (.binary op left right column) := by
      rcases hright with ⟨hm, hr⟩ | ⟨rfl, hr⟩
      · obtain ⟨middle, ht', hr'⟩ := derives_factor hafter hr
        exact ⟨middle, ht', bound_of_bare hr, .product hop hm hd hr'⟩
      · obtain rfl := eq_power_of_operator? hop
        obtain ⟨middle, ht', hr'⟩ := derives_power hafter hr
        exact ⟨middle, ht', bound_of_bare hr, .exponent hd hr'⟩
    obtain ⟨taken, ht'', hs'⟩ := derives_products (hafter.tail ⟨middle, ht'.symm⟩) hd' hs
    refine ⟨⟨token, column⟩ :: middle ++ taken, ?_, ?_⟩
    · rw [ht, ht', ht'', List.cons_append, List.cons_append, List.append_assoc]
    · simpa using hs'
termination_by (tokens.length, 2)

theorem derives_power {tokens rest : List Placed} {tree : Expr} (hn : Numerals tokens)
    (h : bare (power tokens) = .ok (tree, rest)) :
    ∃ taken, tokens = taken ++ rest ∧ Derives .greedy .power taken (next rest) tree := by
  rw [bare_power, bind_eq_ok] at h
  obtain ⟨⟨base, rest'⟩, hb, hr⟩ := h
  obtain ⟨front, ht, hd⟩ := derives_factor hn hb
  have hlt : rest'.length < tokens.length := bound_of_bare hb
  rcases raised_cases hr with ⟨rfl, rfl, ho⟩ | ⟨column, after, exponent, ht', he, rfl⟩
  · exact ⟨front, ht, .base (mayOmit_greedy.2 ho) hd⟩
  · subst ht'
    have hn : Numerals after := hn.tail ⟨front ++ [⟨.power, column⟩], by simp [ht]⟩
    rw [List.length_cons] at hlt
    obtain ⟨taken, ht', hd'⟩ := derives_power hn he
    refine ⟨front ++ ⟨.power, column⟩ :: taken, ?_, .chain hd hd'⟩
    rw [ht, ht', List.append_assoc, List.cons_append]
termination_by (tokens.length, 2)

theorem derives_factor {tokens rest : List Placed} {tree : Expr} (hn : Numerals tokens)
    (h : bare (factor tokens) = .ok (tree, rest)) :
    ∃ taken, tokens = taken ++ rest ∧ Derives .greedy .factor taken (next rest) tree := by
  obtain ⟨token, column, after, ht⟩ := eq_cons_of_factor h
  have hlt : after.length < tokens.length := by rw [ht]; exact Nat.lt_succ_self _
  rw [ht] at hn h
  have hn' : Numerals after := hn.tail (List.suffix_cons ..)
  cases token with
  | opening =>
    rw [bare_factor_opening, bind_eq_ok] at h
    obtain ⟨⟨inner, rest'⟩, hi, hg⟩ := h
    obtain ⟨taken, ht', hd⟩ := derives_expression hn' hi
    obtain ⟨closing, after', rfl, hr⟩ := afterGroup_eq_ok hg
    rcases raised_cases hr with ⟨rfl, rfl, ho⟩ | ⟨power, after'', exponent, rfl, he, rfl⟩
    · refine ⟨⟨.opening, column⟩ :: taken ++ [⟨.closing, closing⟩], ?_,
        .group (mayOmit_greedy.2 ho) hd⟩
      simp [ht, ht']
    · have hn' : Numerals after'' :=
        hn'.tail ⟨taken ++ [⟨.closing, closing⟩, ⟨.power, power⟩], by simp [ht']⟩
      have hlt' : after''.length + 2 < after.length := bound_of_bare hi
      obtain ⟨taken', ht'', hd'⟩ := derives_power hn' he
      refine ⟨⟨.opening, column⟩ :: taken ++ ⟨.closing, closing⟩ :: ⟨.power, power⟩ :: taken', ?_,
        .raisedGroup hd hd'⟩
      simp [ht, ht', ht'']
  | radical =>
    rw [bare_factor_radical, map_eq_ok] at h
    obtain ⟨⟨operand, rest'⟩, ho, h⟩ := h
    cases h
    obtain ⟨taken, ht', hd⟩ := derives_factor hn' ho
    exact ⟨⟨.radical, column⟩ :: taken, by rw [ht, ht', List.cons_append], .root hd⟩
  | conj =>
    by_cases ho : next after = some .opening
    · obtain ⟨opening, after', ht'⟩ := eq_cons_of_next ho
      have hlt' : after'.length < after.length := by rw [ht']; exact Nat.lt_succ_self _
      rw [ht'] at h hn'
      rw [bare_factor_conj, bind_eq_ok] at h
      obtain ⟨⟨operand, rest'⟩, hi, hc⟩ := h
      obtain ⟨closing, rfl, rfl⟩ := afterConj_eq_ok hc
      obtain ⟨taken, ht'', hd⟩ := derives_expression (hn'.tail (List.suffix_cons ..)) hi
      refine ⟨⟨.conj, column⟩ :: ⟨.opening, opening⟩ :: taken ++ [⟨.closing, closing⟩],
        ?_, .conj hd⟩
      simp [ht, ht', ht'']
    · rw [bare_factor_conj_of_not ho] at h
      cases h
  | number lexeme =>
    cases hx : Binary64.ofText? lexeme with
    | none =>
      rw [bare_factor_number_of_none hx] at h
      cases h
    | some x =>
      obtain ⟨hl, rfl⟩ := (hn lexeme column List.mem_cons_self).isNumber hx
      by_cases hi : next after = some (.identifier 'i')
      · obtain ⟨unit, after', ht'⟩ := eq_cons_of_next hi
        rw [ht', bare_factor_imaginary hx] at h
        cases h
        exact ⟨[⟨.number lexeme, column⟩, ⟨.identifier 'i', unit⟩], by rw [ht, ht']; rfl,
          .imaginary hl⟩
      · rw [bare_factor_number hx hi] at h
        cases h
        exact ⟨[⟨.number lexeme, column⟩], by rw [ht]; rfl, .real hl (mayOmit_greedy.2 hi)⟩
  | identifier name =>
    rw [bare_factor_identifier] at h
    cases h
    refine ⟨[⟨.identifier name, column⟩], by rw [ht]; rfl, ?_⟩
    by_cases hi : name = 'i'
    · rw [if_pos hi, hi]
      exact .unit
    · rw [if_neg hi]
      exact .name hi
  | _ =>
    rw [bare_factor_of_not rfl] at h
    cases h
termination_by (tokens.length, 0)

end

/-! ## Completeness -/

/-- What a reading of tokens by a rule says of the function that reads the rule, whatever stands
behind the tokens.  A sum or a product may go on, so there the loop is still to come. -/
def Completes : Rule → List Placed → Option Token → Expr → Prop
  | .expression, tokens, next', tree => ∀ rest, next rest = next' →
      (∀ t ∈ next', ¬t.continuesProduct) →
      bare (expression (tokens ++ rest)) = bare (sums tree rest)
  | .term, tokens, next', tree => ∀ rest, next rest = next' →
      bare (term (tokens ++ rest)) = bare (products tree rest)
  | .power, tokens, next', tree => ∀ rest, next rest = next' →
      bare (power (tokens ++ rest)) = .ok (tree, rest)
  | .factor, tokens, next', tree => ∀ rest, next rest = next' →
      bare (factor (tokens ++ rest)) = .ok (tree, rest)

theorem not_continuesProduct {token : Token} {op : BinaryOperator} (h : token.operator? = some op)
    (ha : op = .add ∨ op = .sub) : ¬token.continuesProduct := by
  rintro ⟨op', hop, hn⟩
  obtain rfl : op = op' := Option.some.inj (h.symm.trans hop)
  rcases ha with rfl | rfl
  · exact hn rfl
  · exact hn rfl

theorem ofText?_of_isNumber {lexeme : List Char} (h : IsNumber lexeme) :
    Binary64.ofText? lexeme = some (numeralValue lexeme) := by
  rw [ofText?_of_isNumeral h.1, if_pos h.2]

theorem isNumber_zero : IsNumber ['0'] := ⟨.digit rfl nofun, by decide⟩

/-- An expression before a closing parenthesis, or at the end, is read as a whole. -/
theorem Completes.closed {tokens : List Placed} {next' : Option Token} {tree : Expr}
    (h : Completes .expression tokens next' tree) (ho : ∀ t ∈ next', t.operator? = none)
    {rest : List Placed} (hr : next rest = next') :
    bare (expression (tokens ++ rest)) = .ok (tree, rest) := by
  have hp : ∀ t ∈ next', ¬t.continuesProduct := by
    rintro t ht ⟨op, hop, -⟩
    rw [ho t ht] at hop
    cases hop
  have hs : ∀ t ∈ next rest, ¬t.continuesSum := by
    rintro t ht ⟨op, hop, -⟩
    rw [ho t (hr ▸ ht)] at hop
    cases hop
  rw [h rest hr hp, bare_sums_of_not hs]

theorem no_operator_closing : ∀ t ∈ some Token.closing, t.operator? = none := by
  rintro t ⟨⟩
  rfl

/-- A greedy reading says what the functions return. -/
theorem completes {rule : Rule} {tokens : List Placed} {next' : Option Token} {tree : Expr}
    (h : Derives .greedy rule tokens next' tree) : Completes rule tokens next' tree := by
  induction h with
  | ofTerm _ ih =>
    intro rest hr hp
    rw [bare_expression, ih rest hr, bare_products_of_not (hr ▸ hp)]
    rfl
  | @sum token op column ts us next' l r hop ha _ _ ihl ihr =>
    intro rest hr hp
    rw [List.append_assoc, List.cons_append, ihl _ rfl]
    · rw [bare_sums_of_operator hop (isAdditive_of_eq ha), ihr rest hr,
        bare_products_of_not (hr ▸ hp)]
      rfl
    · rintro t ⟨⟩
      exact not_continuesProduct hop ha
  | ofFactor _ ih =>
    intro rest hr
    rw [bare_term, ih rest hr]
    rfl
  | product hop hm _ _ ihl ihr =>
    intro rest hr
    rw [List.append_assoc, List.cons_append, ihl _ rfl, bare_products_of_operator hop hm,
      ihr rest hr]
    rfl
  | exponent _ _ ihl ihr =>
    intro rest hr
    rw [List.append_assoc, List.cons_append, ihl _ rfl, bare_products_of_power, ihr rest hr]
    rfl
  | base ho _ ih =>
    intro rest hr
    rw [bare_power, ih rest hr]
    exact bare_raised_of_not (hr ▸ mayOmit_greedy.1 ho) _
  | chain _ _ ihl ihr =>
    intro rest hr
    rw [bare_power, List.append_assoc, List.cons_append, ihl _ rfl]
    show bare (raised _ _) = _
    rw [bare_raised_of_power, ihr rest hr]
    rfl
  | @group opening closing ts next' t ho _ ih =>
    intro rest hr
    have hi : bare (expression (ts ++ ⟨.closing, closing⟩ :: rest)) =
        .ok (t, ⟨.closing, closing⟩ :: rest) := Completes.closed ih no_operator_closing rfl
    rw [List.append_assoc, List.cons_append, List.singleton_append, bare_factor_opening, hi]
    exact bare_raised_of_not (hr ▸ mayOmit_greedy.1 ho) t
  | @raisedGroup opening closing column ts us next' l r _ _ ihl ihr =>
    intro rest hr
    have hi : bare (expression (ts ++ ⟨.closing, closing⟩ :: ⟨.power, column⟩ :: (us ++ rest))) =
        .ok (l, ⟨.closing, closing⟩ :: ⟨.power, column⟩ :: (us ++ rest)) :=
      Completes.closed ihl no_operator_closing rfl
    rw [List.append_assoc, List.cons_append, List.cons_append, List.cons_append,
      bare_factor_opening, hi]
    show bare (raised _ _) = _
    rw [bare_raised_of_power, ihr rest hr]
    rfl
  | root _ ih =>
    intro rest hr
    rw [List.cons_append, bare_factor_radical, ih rest hr]
    rfl
  | @conj column opening closing ts next' t _ ih =>
    intro rest _
    have hi : bare (expression (ts ++ ⟨.closing, closing⟩ :: rest)) =
        .ok (t, ⟨.closing, closing⟩ :: rest) := Completes.closed ih no_operator_closing rfl
    rw [List.append_assoc, List.cons_append, List.cons_append, List.singleton_append,
      bare_factor_conj, hi]
    rfl
  | real hl ho =>
    intro rest hr
    exact bare_factor_number (ofText?_of_isNumber hl) (hr ▸ mayOmit_greedy.1 ho) _
  | imaginary hl =>
    intro rest _
    exact bare_factor_imaginary (ofText?_of_isNumber hl) _ _ rest
  | unit =>
    intro rest _
    exact bare_factor_identifier 'i' _ rest
  | name hi =>
    intro rest _
    rw [List.cons_append, bare_factor_identifier, if_neg hi]
    rfl

/-! ## The whole of the tokens -/

theorem parseTokens_eq_ok {tokens : List Placed} {tree : Expr} :
    parseTokens tokens = .ok tree ↔ bare (expression tokens) = .ok (tree, []) := by
  unfold parseTokens
  cases expression tokens with
  | error e => exact ⟨nofun, nofun⟩
  | ok r =>
    obtain ⟨tree', rest, h⟩ := r
    cases rest with
    | nil =>
      constructor
      · rintro ⟨⟩
        rfl
      · rintro ⟨⟩
        rfl
    | cons token rest => exact ⟨nofun, nofun⟩

theorem derives_of_parseTokens {tokens : List Placed} (hn : Numerals tokens) {tree : Expr}
    (h : parseTokens tokens = .ok tree) : Derives .greedy .expression tokens none tree := by
  obtain ⟨taken, ht, hd⟩ := derives_expression hn (parseTokens_eq_ok.1 h)
  rw [List.append_nil] at ht
  exact ht ▸ hd

theorem parseTokens_of_derives {tokens : List Placed} {tree : Expr}
    (h : Derives .greedy .expression tokens none tree) : parseTokens tokens = .ok tree := by
  have hc := (completes h).closed nofun next_nil
  rw [List.append_nil] at hc
  exact parseTokens_eq_ok.2 hc

/-- Tokens are parsed to a tree exactly if it is their greedy reading, and they have at most one. -/
theorem parseTokens_eq_ok_iff_derives {tokens : List Placed} (hn : Numerals tokens) :
    (∀ tree, parseTokens tokens = .ok tree ↔ Derives .greedy .expression tokens none tree) ∧
      ∀ tree tree', Derives .greedy .expression tokens none tree →
        Derives .greedy .expression tokens none tree' → tree = tree' := by
  refine ⟨fun tree => ⟨derives_of_parseTokens hn, parseTokens_of_derives⟩, ?_⟩
  intro tree tree' h h'
  have hp := parseTokens_of_derives h
  rw [parseTokens_of_derives h'] at hp
  exact (Except.ok.inj hp).symm

/-- A text is parsed to a tree exactly if its tokens have it as their greedy reading. -/
theorem parse_eq_ok_iff {mode : Mode} {source : List Char} {tree : Expr} :
    parse mode source = .ok tree ↔
      ∃ tokens, tokenize mode source = .ok tokens ∧
        Derives .greedy .expression tokens none tree := by
  unfold parse
  cases ht : tokenize mode source with
  | error e => exact ⟨nofun, fun ⟨_, h, _⟩ => nomatch h⟩
  | ok tokens =>
    constructor
    · exact fun h => ⟨tokens, rfl, derives_of_parseTokens (numerals_of_tokenize ht) h⟩
    · rintro ⟨_, ⟨⟩, h⟩
      exact parseTokens_of_derives h

/-- The tokens of `2*(3)**x`. -/
def timesRaisedGroup : List Placed :=
  [⟨.number ['2'], 1⟩, ⟨.star, 2⟩, ⟨.opening, 3⟩, ⟨.number ['3'], 4⟩, ⟨.closing, 5⟩, ⟨.power, 6⟩,
    ⟨.identifier 'x', 8⟩]

/-- The exponent belongs to the group, although `2*3**x` is a power of `2*3`. -/
theorem parseTokens_timesRaisedGroup :
    Numerals timesRaisedGroup ∧
      parseTokens timesRaisedGroup =
        .ok (.binary .mul (.literal (.ofReal (numeralValue ['2'])) 1)
          (.binary .pow (.literal (.ofReal (numeralValue ['3'])) 4) (.var 'x' 8) 6) 2) := by
  have number : ∀ {c : Char}, c.isDigit → IsNumber [c] := fun {c} hc =>
    ⟨.digit hc nofun, Nat.le_trans List.count_le_length (Nat.le_refl 1)⟩
  have hn : Numerals timesRaisedGroup := by
    intro lexeme column hm
    simp only [timesRaisedGroup, List.mem_cons, Placed.mk.injEq, Token.number.injEq, reduceCtorEq,
      false_and, false_or, or_false, List.not_mem_nil] at hm
    rcases hm with ⟨rfl, -⟩ | ⟨rfl, -⟩
    · exact .digit rfl nofun
    · exact .digit rfl nofun
  refine ⟨hn, ((parseTokens_eq_ok_iff_derives hn).1 _).2 ?_⟩
  have hthree : Derives .greedy .expression [⟨.number ['3'], 4⟩] (some .closing) _ :=
    .ofTerm (.ofFactor (.real (number rfl) nofun))
  have hx : Derives .greedy .power [⟨.identifier 'x', 8⟩] none (.var 'x' 8) :=
    .base nofun (.name (by decide))
  have htwo : Derives .greedy .term [⟨.number ['2'], 1⟩] (some .star) _ :=
    .ofFactor (.real (number rfl) nofun)
  exact .ofTerm (.product rfl (.inl rfl) htwo (.raisedGroup hthree hx))

end Argand
