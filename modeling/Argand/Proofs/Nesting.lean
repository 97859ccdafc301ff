import Argand.Proofs.Descent

/-!
How deep the descent goes.

The functions that read an expression call one another, and so do the rounds of their loops, one
from the one before.  A `Procedure` is one of these functions with the tree that it is given, and
its `body` is what the function does, with the calls that it makes left to somebody else.

`Procedure.within` leaves them to the bodies themselves, but lets only so many calls stand inside
one another; where more would be needed it has no answer.  So an answer under any limit is a descent
that came to its end.  A call with the same tokens is made by a function of a higher rank only, and
every other call gets fewer tokens; hence five levels for each token are enough, with a few for the
first call, and the answer is then what the functions return (`Procedure.within_eq_run`).
-/

namespace Argand

/-- A function of the descent, with the tree that it is given. -/
inductive Procedure where
  | expression
  | sums (left : Expr)
  | term
  | products (left : Expr)
  | power
  | raised (base : Expr)
  | factor

namespace Procedure

/-- What the function returns. -/
def run : Procedure → List Placed → Except ParseError (Expr × List Placed)
  | expression, tokens => bare (Argand.expression tokens)
  | sums left, tokens => bare (Argand.sums left tokens)
  | term, tokens => bare (Argand.term tokens)
  | products left, tokens => bare (Argand.products left tokens)
  | power, tokens => bare (Argand.power tokens)
  | raised base, tokens => bare (Argand.raised base tokens)
  | factor, tokens => bare (Argand.factor tokens)

/-! ## The bodies -/

/-- What is read from some tokens, if there is an answer at all. -/
abbrev Answer := ExceptT ParseError Option (Expr × List Placed)

/-- The body of a factor. -/
def factorBody (ask : Procedure → List Placed → Answer) : List Placed → Answer
  | [] => throw .endOfInput
  | ⟨.opening, column⟩ :: tokens => do
    let (inner, rest) ← ask expression tokens
    match rest with
    | ⟨.closing, _⟩ :: rest => ask (raised inner) rest
    | _ => throw (.unclosedGroup column)
  | ⟨.radical, column⟩ :: tokens => do
    let (operand, rest) ← ask factor tokens
    return (.unary .sqrt operand column, rest)
  | ⟨.conj, column⟩ :: ⟨.opening, _⟩ :: tokens => do
    let (operand, rest) ← ask expression tokens
    match rest with
    | ⟨.closing, _⟩ :: rest => return (.unary .conj operand column, rest)
    | _ => throw (.unclosedConj column)
  | ⟨.conj, column⟩ :: _ => throw (.conjWithoutGroup column)
  | ⟨.number lexeme, column⟩ :: tokens =>
    match Binary64.ofText? lexeme with
    | none => throw (.unexpectedToken lexeme column)
    | some x =>
      match tokens with
      | ⟨.identifier 'i', _⟩ :: rest => return (.literal ⟨.zero, x⟩ column, rest)
      | rest => return (.literal (.ofReal x) column, rest)
  | ⟨.identifier name, column⟩ :: rest =>
    return (if name = 'i' then .literal .i column else .var name column, rest)
  | ⟨token, column⟩ :: _ => throw (.unexpectedToken token.text column)

/-- The body of a function, with the calls that it makes left to `ask`. -/
def body (ask : Procedure → List Placed → Answer) : Procedure → List Placed → Answer
  | expression, tokens => do
    let (left, rest) ← ask term tokens
    ask (sums left) rest
  | sums left, [] => return (left, [])
  | sums left, ⟨token, column⟩ :: tokens =>
    match token.operator? with
    | none => return (left, ⟨token, column⟩ :: tokens)
    | some op =>
      if op.isAdditive then do
        let (right, rest) ← ask term tokens
        ask (sums (.binary op left right column)) rest
      else return (left, ⟨token, column⟩ :: tokens)
  | term, tokens => do
    let (left, rest) ← ask factor tokens
    ask (products left) rest
  | products left, [] => return (left, [])
  | products left, ⟨token, column⟩ :: tokens =>
    match token.operator? with
    | none => return (left, ⟨token, column⟩ :: tokens)
    | some op =>
      if op.isAdditive then return (left, ⟨token, column⟩ :: tokens)
      else do
        let (right, rest) ← ask (if op = .pow then power else factor) tokens
        ask (products (.binary op left right column)) rest
  | power, tokens => do
    let (base, rest) ← ask factor tokens
    ask (raised base) rest
  | raised base, ⟨.power, column⟩ :: tokens => do
    let (exponent, rest) ← ask power tokens
    return (.binary .pow base exponent column, rest)
  | raised base, rest => return (base, rest)
  | factor, tokens => factorBody ask tokens

/-- The descent with no more than `limit` calls inside one another. -/
def within : Nat → Procedure → List Placed → Answer
  | 0, _, _ => none
  | limit + 1, procedure, tokens => procedure.body (within limit) tokens

/-! ## Rank and depth -/

/-- With the same tokens a function calls only those of a lower rank. -/
def rank : Procedure → Nat
  | expression => 4
  | sums _ | term => 3
  | products _ | power => 2
  | raised _ => 1
  | factor => 0

/-- More than as many calls are never inside one another. -/
def depth (procedure : Procedure) (tokens : List Placed) : Nat :=
  5 * tokens.length + procedure.rank

theorem rank_le (procedure : Procedure) : procedure.rank ≤ 4 := by
  cases procedure with
  | expression => exact Nat.le_refl 4
  | sums _ | term => exact Nat.le_succ 3
  | products _ | power => exact Nat.le_add_left 2 2
  | raised _ => exact Nat.le_add_left 1 3
  | factor => exact Nat.zero_le 4

/-- Fewer tokens are less deep, whichever function gets them. -/
theorem depth_lt_of_length {procedure procedure' : Procedure} {tokens tokens' : List Placed}
    (h : tokens'.length < tokens.length) : procedure'.depth tokens' < procedure.depth tokens := by
  have hr := procedure'.rank_le
  unfold depth
  omega

theorem depth_tail_lt {procedure procedure' : Procedure} (t : Placed) (tokens : List Placed) :
    procedure'.depth tokens < procedure.depth (t :: tokens) :=
  depth_lt_of_length (Nat.lt_succ_self _)

theorem depth_lt_of_rank {procedure procedure' : Procedure} (tokens : List Placed)
    (h : procedure'.rank < procedure.rank) : procedure'.depth tokens < procedure.depth tokens :=
  Nat.add_lt_add_left h _

/-! ## The answers of the bodies -/

/-- What is done with the result of a call is done with what the call returns. -/
theorem answer_bind {x : Except ParseError (Expr × List Placed)}
    {f : Expr × List Placed → Answer}
    {g : Expr × List Placed → Except ParseError (Expr × List Placed)}
    (h : ∀ tree rest, x = .ok (tree, rest) → f (tree, rest) = some (g (tree, rest))) :
    (bind (m := ExceptT ParseError Option) (some x) f : Answer) = some (x.bind g) := by
  cases x with
  | error e => rfl
  | ok r => exact h r.1 r.2 rfl

theorem answer_map (x : Except ParseError (Expr × List Placed)) (f : Expr → Expr) :
    (bind (m := ExceptT ParseError Option) (some x) fun r => pure (f r.1, r.2) : Answer) =
      some (x.map fun r => (f r.1, r.2)) := by
  cases x <;> rfl

/-- All calls less deep than this are answered with what the function returns. -/
def AnswersBelow (depth : Nat) (ask : Procedure → List Placed → Answer) : Prop :=
  ∀ procedure tokens, Procedure.depth procedure tokens < depth →
    ask procedure tokens = some (procedure.run tokens)

section

variable {ask : Procedure → List Placed → Answer} {tokens : List Placed}

/-- A procedure that goes on with what another one has read. -/
theorem body_sequence (procedure first : Procedure) (second : Expr → Procedure)
    (hb : procedure.body ask tokens =
      bind (m := ExceptT ParseError Option) (ask first tokens) fun r => ask (second r.1) r.2)
    (hr : procedure.run tokens = (first.run tokens).bind fun r => (second r.1).run r.2)
    (hf : first.rank < procedure.rank)
    (hs : ∀ tree rest, first.run tokens = .ok (tree, rest) → rest.length < tokens.length)
    (h : AnswersBelow (procedure.depth tokens) ask) :
    procedure.body ask tokens = some (procedure.run tokens) := by
  rw [hb, h first tokens (depth_lt_of_rank tokens hf), hr]
  refine answer_bind fun tree rest ho => ?_
  exact h (second tree) rest (depth_lt_of_length (hs tree rest ho))

theorem body_sums_of_not (h : ∀ t ∈ next tokens, ¬t.continuesSum) (left : Expr) :
    (sums left).body ask tokens = some (.ok (left, tokens)) := by
  rcases tokens with _ | ⟨⟨token, column⟩, after⟩
  · rfl
  · rw [body]
    split
    · rfl
    · next op hop => rw [if_neg fun ha => h token rfl ⟨op, hop, ha⟩]; rfl

theorem body_sums (left : Expr) (h : AnswersBelow ((sums left).depth tokens) ask) :
    (sums left).body ask tokens = some ((sums left).run tokens) := by
  rcases sums_step left tokens with ⟨hc, hs⟩ | ⟨token, op, column, after, rfl, hop, ha, hs⟩
  · rw [run, hs, body_sums_of_not hc]
  · have ht := h term after (depth_tail_lt ..)
    rw [run, hs, body]
    simp only [hop, isAdditive_of_eq ha, if_true, ht]
    refine answer_bind fun right rest hr => ?_
    have hlt : rest.length < after.length := bound_of_bare hr
    exact h (sums (.binary op left right column)) rest
      (depth_lt_of_length (Nat.lt_succ_of_lt hlt))

theorem body_products_of_not (h : ∀ t ∈ next tokens, ¬t.continuesProduct) (left : Expr) :
    (products left).body ask tokens = some (.ok (left, tokens)) := by
  rcases tokens with _ | ⟨⟨token, column⟩, after⟩
  · rfl
  · rw [body]
    split
    · rfl
    · next op hop =>
      rw [if_pos (Decidable.not_not.1 fun ha => h token rfl ⟨op, hop, ha⟩)]
      rfl

theorem body_products (left : Expr) (h : AnswersBelow ((products left).depth tokens) ask) :
    (products left).body ask tokens = some ((products left).run tokens) := by
  rcases products_step left tokens with
    ⟨hc, hs⟩ | ⟨token, op, column, after, operand, rfl, hop, ho, hs⟩
  · rw [run, hs, body_products_of_not hc]
  · obtain ⟨ha, hlt, hoperand⟩ : ¬op.isAdditive ∧
        (∀ right rest, operand = .ok (right, rest) → rest.length < after.length) ∧
        ask (if op = .pow then power else factor) after = some operand := by
      have hafter (procedure : Procedure) :=
        h procedure after (depth_tail_lt ..)
      rcases ho with ⟨rfl | rfl, rfl⟩ | ⟨rfl, rfl⟩
      · exact ⟨nofun, fun _ _ => bound_of_bare, hafter factor⟩
      · exact ⟨nofun, fun _ _ => bound_of_bare, hafter factor⟩
      · exact ⟨nofun, fun _ _ => bound_of_bare, hafter power⟩
    rw [run, hs, body]
    simp only [hop, if_neg ha, hoperand]
    refine answer_bind fun right rest hr => ?_
    exact h (products (.binary op left right column)) rest
      (depth_lt_of_length (Nat.lt_succ_of_lt (hlt right rest hr)))

theorem body_raised (base : Expr) (h : AnswersBelow ((raised base).depth tokens) ask) :
    (raised base).body ask tokens = some ((raised base).run tokens) := by
  by_cases hp : next tokens = some .power
  · obtain ⟨column, after, rfl⟩ := eq_cons_of_next hp
    have he := h power after (depth_tail_lt ..)
    rw [run, bare_raised_of_power, body, he]
    exact answer_map _ fun exponent => .binary .pow base exponent column
  · rw [run, bare_raised_of_not hp, body]
    · rfl
    · rintro column rest rfl
      exact hp rfl

theorem body_factor (h : AnswersBelow (factor.depth tokens) ask) :
    factor.body ask tokens = some (factor.run tokens) := by
  rw [body, run]
  rcases tokens with _ | ⟨⟨token, column⟩, after⟩
  · rw [bare_factor_nil]
    rfl
  cases token with
  | opening =>
    have hi := h expression after (depth_tail_lt ..)
    rw [bare_factor_opening, factorBody, hi]
    refine answer_bind fun inner rest hr => ?_
    have hlt : rest.length < after.length := bound_of_bare hr
    by_cases hc : next rest = some .closing
    · obtain ⟨closing, rest', rfl⟩ := eq_cons_of_next hc
      exact h (raised inner) rest' (depth_lt_of_length (Nat.lt_succ_of_lt (Nat.lt_of_succ_lt hlt)))
    · rw [afterGroup_of_not hc]
      dsimp only
      split
      · exact absurd rfl hc
      · rfl
  | radical =>
    have ho := h factor after (depth_tail_lt ..)
    rw [bare_factor_radical, factorBody, ho]
    exact answer_map _ fun operand => .unary .sqrt operand column
  | conj =>
    by_cases ho : next after = some .opening
    · obtain ⟨opening, after', rfl⟩ := eq_cons_of_next ho
      have hi := h expression after' (depth_lt_of_length (Nat.lt_succ_of_lt (Nat.lt_succ_self _)))
      rw [bare_factor_conj, factorBody, hi]
      refine answer_bind fun operand rest _ => ?_
      by_cases hc : next rest = some .closing
      · obtain ⟨closing, rest', rfl⟩ := eq_cons_of_next hc
        rfl
      · rw [afterConj_of_not hc]
        dsimp only
        split
        · exact absurd rfl hc
        · rfl
    · rw [bare_factor_conj_of_not ho, factorBody]
      · rfl
      · rintro opening rest rfl
        exact ho rfl
  | number lexeme =>
    rw [factorBody]
    cases hx : Binary64.ofText? lexeme with
    | none => rw [bare_factor_number_of_none hx]; rfl
    | some x =>
      by_cases hi : next after = some (.identifier 'i')
      · obtain ⟨unit, after', rfl⟩ := eq_cons_of_next hi
        rw [bare_factor_imaginary hx]
        rfl
      · rw [bare_factor_number hx hi]
        dsimp only
        split
        · exact absurd rfl hi
        · rfl
  | identifier name =>
    rw [bare_factor_identifier]
    rfl
  | _ =>
    rw [bare_factor_of_not rfl]
    rfl

end

/-- Where the calls that it makes are answered, so is the call itself. -/
theorem body_eq_run {ask : Procedure → List Placed → Answer} {procedure : Procedure}
    {tokens : List Placed} (h : AnswersBelow (procedure.depth tokens) ask) :
    procedure.body ask tokens = some (procedure.run tokens) := by
  cases procedure with
  | expression =>
    exact body_sequence expression term sums rfl (bare_expression tokens) (Nat.lt_succ_self 3)
      (fun _ _ => bound_of_bare) h
  | sums left => exact body_sums left h
  | term =>
    exact body_sequence term factor products rfl (bare_term tokens) (Nat.succ_pos 2)
      (fun _ _ => bound_of_bare) h
  | products left => exact body_products left h
  | power =>
    exact body_sequence power factor raised rfl (bare_power tokens) (Nat.succ_pos 1)
      (fun _ _ => bound_of_bare) h
  | raised base => exact body_raised base h
  | factor => exact body_factor h

/-- A limit above the depth of a call is enough for it. -/
theorem within_eq_run {limit : Nat} {procedure : Procedure} {tokens : List Placed}
    (h : procedure.depth tokens < limit) :
    within limit procedure tokens = some (procedure.run tokens) := by
  induction limit generalizing procedure tokens with
  | zero => exact absurd h (Nat.not_lt_zero _)
  | succ limit ih =>
    refine body_eq_run fun procedure' tokens' hd => ?_
    exact ih (Nat.lt_of_lt_of_le hd (Nat.le_of_lt_succ h))

end Procedure

end Argand
