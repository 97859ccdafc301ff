import Argand.Proofs.Failure
import Argand.Proofs.Nesting

/-!
What a reading depends on.

A rule of the descent takes a front of its tokens and leaves the others.  It looks at one token
beyond that front and at no more.  If the rest is exchanged for one that begins with the same token,
nothing changes; nor does it if the new rest is empty or begins with a token that nothing could be
taken with, which is any but a binary operator and the letter `i` (`Exchanges`).

`IsLocal` says this of a reading of some tokens.  A reading behind a token, behind another reading
or followed by a change of the tree is local where its parts are, since what the second part takes,
or the first token of the rest, stands behind the first part on either side.  The procedures are put
together from these, so they are local by induction on the depth of their calls
(`Procedure.isLocal`).

Main statement: `Rule.reads_front`.
-/

namespace Argand

/-! ## Where a power ends -/

theorem next_ne_power_of_power {tokens rest : List Placed} {tree : Expr}
    (h : bare (power tokens) = .ok (tree, rest)) : next rest ≠ some .power := by
  rw [bare_power, bind_eq_ok] at h
  obtain ⟨⟨base, middle⟩, hb, hr⟩ := h
  have hlt : middle.length < tokens.length := bound_of_bare hb
  rcases raised_cases hr with ⟨-, rfl, hp⟩ | ⟨column, after, exponent, rfl, he, -⟩
  · exact hp
  · exact next_ne_power_of_power he
termination_by tokens.length
decreasing_by exact Nat.lt_of_succ_lt hlt

/-! ## Exchanging what is left -/

/-- Nothing that was read can be gone on with by the token. -/
def Token.IsNeutral (token : Token) : Prop := token.operator? = none ∧ token ≠ .identifier 'i'

/-- The second rest begins as the first does, or with nothing that could be taken. -/
def Exchanges (rest rest' : List Placed) : Prop :=
  next rest' = next rest ∨ ∀ t ∈ next rest', t.IsNeutral

/-- Behind the same tokens, rests can be exchanged if they can be exchanged alone. -/
theorem Exchanges.behind {rest rest' : List Placed} (h : Exchanges rest rest')
    (taken : List Placed) : Exchanges (taken ++ rest) (taken ++ rest') := by
  cases taken with
  | nil => exact h
  | cons t taken => exact .inl rfl

/-- What does not stand in front of one rest does not stand in front of the other, if it would be
taken. -/
theorem Exchanges.forall_next {rest rest' : List Placed} {P : Token → Prop}
    (h : Exchanges rest rest') (hP : ∀ t, t.IsNeutral → P t) (hr : ∀ t ∈ next rest, P t) :
    ∀ t ∈ next rest', P t := by
  rcases h with h | h
  · rwa [h]
  · exact fun t ht => hP t (h t ht)

/-- What is read of the tokens is read of the same front before any rest that the one there can be
exchanged for. -/
def IsLocal (reads : List Placed → Except ParseError (Expr × List Placed))
    (tokens : List Placed) : Prop :=
  ∀ tree rest, reads tokens = .ok (tree, rest) → ∃ taken, tokens = taken ++ rest ∧
    ∀ rest', Exchanges rest rest' → reads (taken ++ rest') = .ok (tree, rest')

namespace IsLocal

variable {reads first : List Placed → Except ParseError (Expr × List Placed)} {tokens : List Placed}

/-- A failure is local. -/
theorem of_error {e : ParseError} (h : reads tokens = .error e) : IsLocal reads tokens := by
  intro tree rest hr
  rw [h] at hr
  cases hr

/-- A reading that takes nothing is local if it takes nothing of what can be exchanged for it. -/
theorem of_none {tree : Expr}
    (h : ∀ tokens', Exchanges tokens tokens' → reads tokens' = .ok (tree, tokens')) :
    IsLocal reads tokens := by
  intro tree' rest hr
  rw [h tokens (.inl rfl)] at hr
  cases hr
  exact ⟨[], rfl, h⟩

theorem of_eq (h : IsLocal first tokens) (hr : ∀ tokens', reads tokens' = first tokens') :
    IsLocal reads tokens := by
  obtain rfl : reads = first := funext hr
  exact h

theorem cons {t : Placed} (h : IsLocal first tokens)
    (hr : ∀ tokens', reads (t :: tokens') = first tokens') : IsLocal reads (t :: tokens) := by
  intro tree rest ho
  rw [hr] at ho
  obtain ⟨taken, rfl, hk⟩ := h tree rest ho
  refine ⟨t :: taken, rfl, fun rest' he => ?_⟩
  rw [List.cons_append, hr]
  exact hk rest' he

theorem map (h : IsLocal first tokens) (change : Expr → Expr) :
    IsLocal (fun tokens' => (first tokens').map fun r => (change r.1, r.2)) tokens := by
  intro tree rest ho
  obtain ⟨⟨inner, middle⟩, hi, ho⟩ := map_eq_ok.1 ho
  cases ho
  obtain ⟨taken, ht, hk⟩ := h inner middle hi
  exact ⟨taken, ht, fun rest' he => map_eq_ok.2 ⟨_, hk rest' he, rfl⟩⟩

/-- One reading behind another: what the first one leaves is the same front for the second. -/
theorem bind {second : Expr × List Placed → Except ParseError (Expr × List Placed)}
    (h : IsLocal first tokens)
    (hs : ∀ tree rest, first tokens = .ok (tree, rest) →
      IsLocal (fun tokens' => second (tree, tokens')) rest) :
    IsLocal (fun tokens' => (first tokens').bind second) tokens := by
  intro tree rest ho
  obtain ⟨⟨inner, middle⟩, hi, ho⟩ := bind_eq_ok.1 ho
  obtain ⟨front, ht, hk⟩ := h inner middle hi
  obtain ⟨taken, rfl, hk'⟩ := hs inner middle hi tree rest ho
  refine ⟨front ++ taken, by rw [ht, List.append_assoc], fun rest' he => ?_⟩
  rw [List.append_assoc]
  exact bind_eq_ok.2 ⟨_, hk _ (he.behind taken), hk' rest' he⟩

end IsLocal

/-! ## The procedures -/

namespace Procedure

section

variable {tokens : List Placed}

/-- All calls less deep than this are local. -/
def LocalBelow (depth : Nat) : Prop :=
  ∀ procedure tokens, Procedure.depth procedure tokens < depth → IsLocal procedure.run tokens

/-- A procedure that goes on with what another one has read. -/
theorem isLocal_sequence (procedure first : Procedure) (second : Expr → Procedure)
    (hr : ∀ tokens', procedure.run tokens' = (first.run tokens').bind fun r => (second r.1).run r.2)
    (hf : first.rank < procedure.rank)
    (hs : ∀ tree rest, first.run tokens = .ok (tree, rest) → rest.length < tokens.length)
    (h : LocalBelow (procedure.depth tokens)) : IsLocal procedure.run tokens := by
  refine IsLocal.of_eq (IsLocal.bind (h first tokens (depth_lt_of_rank tokens hf))
    fun tree rest ho => ?_) hr
  exact h (second tree) rest (depth_lt_of_length (hs tree rest ho))

theorem isLocal_sums (left : Expr) (h : LocalBelow ((sums left).depth tokens)) :
    IsLocal (sums left).run tokens := by
  rcases sums_step left tokens with ⟨hc, -⟩ | ⟨token, op, column, after, rfl, hop, ha, -⟩
  · refine .of_none fun tokens' he => bare_sums_of_not (he.forall_next ?_ hc) left
    rintro t ht ⟨op, hop, -⟩
    rw [ht.1] at hop
    cases hop
  · have hs : IsLocal (fun tokens' => (term.run tokens').bind fun r =>
        (sums (.binary op left r.1 column)).run r.2) after := by
      refine .bind (h term after (depth_tail_lt ..)) fun right rest hr => ?_
      have hlt : rest.length < after.length := bound_of_bare hr
      exact h (sums (.binary op left right column)) rest
        (depth_lt_of_length (Nat.lt_succ_of_lt hlt))
    exact hs.cons (bare_sums_of_operator hop (isAdditive_of_eq ha) left column)

theorem isLocal_products (left : Expr) (h : LocalBelow ((products left).depth tokens)) :
    IsLocal (products left).run tokens := by
  rcases products_step left tokens with ⟨hc, -⟩ |
    ⟨token, op, column, after, operand, rfl, hop, ho, -⟩
  · refine .of_none fun tokens' he => bare_products_of_not (he.forall_next ?_ hc) left
    rintro t ht ⟨op, hop, -⟩
    rw [ht.1] at hop
    cases hop
  · have hs (procedure : Procedure) (hp : ∀ right rest, procedure.run after = .ok (right, rest) →
        rest.length < after.length) : IsLocal (fun tokens' => (procedure.run tokens').bind fun r =>
          (products (.binary op left r.1 column)).run r.2) after := by
      refine .bind (h procedure after (depth_tail_lt ..)) fun right rest hr => ?_
      exact h (products (.binary op left right column)) rest
        (depth_lt_of_length (Nat.lt_succ_of_lt (hp right rest hr)))
    rcases ho with ⟨hm, -⟩ | ⟨rfl, -⟩
    · exact (hs factor fun _ _ => bound_of_bare).cons (bare_products_of_operator hop hm left column)
    · obtain rfl := eq_power_of_operator? hop
      exact (hs power fun _ _ => bound_of_bare).cons (bare_products_of_power left column)

theorem isLocal_raised (base : Expr) (h : LocalBelow ((raised base).depth tokens)) :
    IsLocal (raised base).run tokens := by
  by_cases hp : next tokens = some .power
  · obtain ⟨column, after, rfl⟩ := eq_cons_of_next hp
    have he := h power after (depth_tail_lt ..)
    exact (he.map fun exponent => .binary .pow base exponent column).cons
      (bare_raised_of_power base column)
  · refine .of_none fun tokens' he => bare_raised_of_not (fun hp' => ?_) base
    have hn := he.forall_next (P := (· ≠ .power)) (fun t ht => ?_) fun t ht hp' => hp (hp' ▸ ht)
    · exact hn .power hp' rfl
    · rintro rfl
      cases ht.1

/-- What follows a group is local. -/
theorem isLocal_afterGroup {column : Nat} {inner : Expr}
    (h : ∀ closing after, tokens = ⟨.closing, closing⟩ :: after →
      IsLocal (raised inner).run after) :
    IsLocal (fun tokens' => afterGroup column (inner, tokens')) tokens := by
  by_cases hc : next tokens = some .closing
  · obtain ⟨closing, after, rfl⟩ := eq_cons_of_next hc
    exact .cons (h closing after rfl) fun _ => rfl
  · exact .of_error (afterGroup_of_not hc)

theorem isLocal_afterConj {column : Nat} {operand : Expr} :
    IsLocal (fun tokens' => afterConj column (operand, tokens')) tokens := by
  intro tree rest h
  obtain ⟨closing, rfl, rfl⟩ := afterConj_eq_ok h
  exact ⟨[⟨.closing, closing⟩], rfl, fun _ _ => rfl⟩

theorem isLocal_number (lexeme : List Char) (column : Nat) (tokens : List Placed) :
    IsLocal factor.run (⟨.number lexeme, column⟩ :: tokens) := by
  cases hx : Binary64.ofText? lexeme with
  | none => exact .of_error (bare_factor_number_of_none hx column tokens)
  | some x =>
    by_cases hi : next tokens = some (.identifier 'i')
    · obtain ⟨unit, after, rfl⟩ := eq_cons_of_next hi
      intro tree rest h
      obtain ⟨rfl, rfl⟩ := Prod.mk.inj (Except.ok.inj ((bare_factor_imaginary hx ..).symm.trans h))
      exact ⟨[_, _], rfl, fun rest' _ => bare_factor_imaginary hx column unit rest'⟩
    · intro tree rest h
      obtain ⟨rfl, rfl⟩ := Prod.mk.inj
        (Except.ok.inj ((bare_factor_number hx hi column).symm.trans h))
      refine ⟨[_], rfl, fun rest' he => bare_factor_number hx (fun hi' => ?_) column⟩
      have hn := he.forall_next (P := (· ≠ .identifier 'i')) (fun t ht => ht.2)
        fun t ht hi' => hi (hi' ▸ ht)
      exact hn _ hi' rfl

theorem isLocal_factor (h : LocalBelow (factor.depth tokens)) : IsLocal factor.run tokens := by
  rcases tokens with _ | ⟨⟨token, column⟩, after⟩
  · exact .of_error bare_factor_nil
  have hafter (procedure : Procedure) : IsLocal procedure.run after :=
    h procedure after (depth_tail_lt ..)
  cases token with
  | opening =>
    have hg : IsLocal (fun tokens' => (expression.run tokens').bind (afterGroup column)) after := by
      refine .bind (hafter expression) fun inner rest hi => ?_
      have hlt : rest.length < after.length := bound_of_bare hi
      refine isLocal_afterGroup fun closing rest' hr => ?_
      rw [hr] at hlt
      exact h (raised inner) rest' (depth_lt_of_length (Nat.lt_succ_of_lt (Nat.lt_of_succ_lt hlt)))
    exact hg.cons (bare_factor_opening column)
  | radical =>
    exact ((hafter factor).map fun operand => .unary .sqrt operand column).cons
      (bare_factor_radical column)
  | conj =>
    by_cases ho : next after = some .opening
    · obtain ⟨opening, after', rfl⟩ := eq_cons_of_next ho
      have hi := h expression after' (depth_lt_of_length (Nat.lt_succ_of_lt (Nat.lt_succ_self _)))
      have hc : IsLocal (fun tokens' => (expression.run tokens').bind (afterConj column)) after' :=
        hi.bind fun _ _ _ => isLocal_afterConj
      have hg : IsLocal (fun tokens' => factor.run (⟨.conj, column⟩ :: tokens'))
          (⟨.opening, opening⟩ :: after') := hc.cons (bare_factor_conj column opening)
      exact hg.cons fun _ => rfl
    · exact .of_error (bare_factor_conj_of_not ho column)
  | number lexeme => exact isLocal_number lexeme column after
  | identifier name =>
    intro tree rest hr
    cases (bare_factor_identifier name column after).symm.trans hr
    exact ⟨[_], rfl, fun rest' _ => bare_factor_identifier name column rest'⟩
  | _ => exact .of_error (bare_factor_of_not rfl column after)

end

/-- What a procedure reads depends on the tokens that it takes and on no others. -/
theorem isLocal (procedure : Procedure) (tokens : List Placed) : IsLocal procedure.run tokens := by
  generalize hd : procedure.depth tokens = depth
  induction depth using Nat.strongRecOn generalizing procedure tokens with
  | _ depth ih =>
    subst hd
    have h : LocalBelow (procedure.depth tokens) := fun procedure' tokens' hlt =>
      ih _ hlt procedure' tokens' rfl
    cases procedure with
    | expression =>
      exact isLocal_sequence expression term sums bare_expression (Nat.lt_succ_self 3)
        (fun _ _ => bound_of_bare) h
    | sums left => exact isLocal_sums left h
    | term =>
      exact isLocal_sequence term factor products bare_term (Nat.succ_pos 2)
        (fun _ _ => bound_of_bare) h
    | products left => exact isLocal_products left h
    | power =>
      exact isLocal_sequence power factor raised bare_power (Nat.succ_pos 1)
        (fun _ _ => bound_of_bare) h
    | raised base => exact isLocal_raised base h
    | factor => exact isLocal_factor h

end Procedure

/-! ## The rules -/

namespace Rule

/-- The function that reads the rule. -/
def procedure : Rule → Procedure
  | expression => .expression
  | term => .term
  | power => .power
  | factor => .factor

/-- The rule is not left in front of the token. -/
def GoesOnWith : Rule → Token → Prop
  | expression, token => token.operator? ≠ none
  | term, token => token = .star ∨ token = .slash ∨ token = .power
  | power, token => token = .power
  | factor, _ => False

theorem length_lt_of_run {rule : Rule} {tokens rest : List Placed} {tree : Expr}
    (h : rule.procedure.run tokens = .ok (tree, rest)) : rest.length < tokens.length := by
  cases rule with
  | expression | term | power | factor => exact bound_of_bare h

theorem not_goesOnWith_of_run {rule : Rule} {tokens rest : List Placed} {tree : Expr}
    (h : rule.procedure.run tokens = .ok (tree, rest)) : ∀ t ∈ next rest, ¬rule.GoesOnWith t := by
  intro t ht hg
  cases rule with
  | expression => exact hg (operator?_eq_none_of_expression h t ht)
  | term =>
    refine not_continuesProduct_of_term h t ht ?_
    rcases hg with rfl | rfl | rfl
    · exact ⟨.mul, rfl, nofun⟩
    · exact ⟨.div, rfl, nofun⟩
    · exact ⟨.pow, rfl, nofun⟩
  | power =>
    cases hg
    exact next_ne_power_of_power h ht
  | factor => exact hg

/-- **Progress and locality.**  On any tokens the function that reads a rule comes to its end, with
no more than five calls for each token and five more inside one another.  If it succeeds, it has
taken a front of the tokens that is not empty, and has left the rest as it was; the rest does not
begin with a token that the rule goes on with.  The tree depends on the front alone: before any
other rest, if this is empty or begins with a token that is neither a binary operator nor the letter
`i`, the function reads the same tree and leaves just that rest. -/
theorem reads_front (rule : Rule) (tokens : List Placed) :
    rule.procedure.within (5 * tokens.length + 5) tokens = some (rule.procedure.run tokens) ∧
      ∀ tree rest, rule.procedure.run tokens = .ok (tree, rest) →
        (∀ t ∈ next rest, ¬rule.GoesOnWith t) ∧
        ∃ taken, taken ≠ [] ∧ tokens = taken ++ rest ∧
          ∀ rest', (∀ t ∈ next rest', t.operator? = none ∧ t ≠ .identifier 'i') →
            rule.procedure.run (taken ++ rest') = .ok (tree, rest') := by
  refine ⟨Procedure.within_eq_run ?_, fun tree rest h => ⟨not_goesOnWith_of_run h, ?_⟩⟩
  · exact Nat.add_lt_add_left (Nat.lt_succ_of_le rule.procedure.rank_le) _
  · obtain ⟨taken, ht, hk⟩ := rule.procedure.isLocal tokens tree rest h
    refine ⟨taken, ?_, ht, fun rest' hr => hk rest' (.inr hr)⟩
    rintro rfl
    have hlt := length_lt_of_run h
    rw [ht] at hlt
    exact Nat.lt_irrefl _ hlt

end Rule

end Argand
