import Argand.Expression.Parse

/-!
The rules of the descent, one equation each.

The functions that read an expression carry in their types that they leave fewer tokens than they
got.  `bare` forgets that, and the equations here say what each function does in the terms of the
others: a rule that begins with another rule is a `bind`, and a loop goes on with the operator in
front or stops.  Nothing outside this module opens the functions themselves.
-/

namespace Argand

/-- What was read and what was left, without a bound on the latter. -/
def bare {p : List Placed → Prop} (outcome : Except ParseError (Expr × { rest // p rest })) :
    Except ParseError (Expr × List Placed) :=
  outcome.map fun r => (r.1, r.2.1)

/-- The token in front. -/
def next (tokens : List Placed) : Option Token := tokens.head?.map Placed.token

@[simp] theorem next_nil : next [] = none := rfl

@[simp] theorem next_cons (token : Token) (column : Nat) (rest : List Placed) :
    next (⟨token, column⟩ :: rest) = some token := rfl

theorem eq_cons_of_next {tokens : List Placed} {token : Token} (h : next tokens = some token) :
    ∃ column rest, tokens = ⟨token, column⟩ :: rest := by
  rcases tokens with _ | ⟨⟨token', column⟩, rest⟩
  · cases h
  · cases h
    exact ⟨column, rest, rfl⟩

/-- A token that goes on with a sum. -/
def Token.continuesSum (token : Token) : Prop := ∃ op ∈ token.operator?, op.isAdditive

/-- A token that goes on with a product. -/
def Token.continuesProduct (token : Token) : Prop := ∃ op ∈ token.operator?, ¬op.isAdditive

theorem eq_of_isAdditive {op : BinaryOperator} (h : op.isAdditive) : op = .add ∨ op = .sub := by
  cases op with
  | add => exact .inl rfl
  | sub => exact .inr rfl
  | _ => cases h

theorem isAdditive_of_eq {op : BinaryOperator} (h : op = .add ∨ op = .sub) : op.isAdditive := by
  rcases h with rfl | rfl <;> rfl

theorem eq_of_not_isAdditive {op : BinaryOperator} (h : ¬op.isAdditive) :
    (op = .mul ∨ op = .div) ∨ op = .pow := by
  cases op with
  | mul => exact .inl (.inl rfl)
  | div => exact .inl (.inr rfl)
  | pow => exact .inr rfl
  | _ => exact absurd rfl h

theorem eq_power_of_operator? {token : Token} (h : token.operator? = some .pow) :
    token = .power := by
  cases token with
  | power => rfl
  | _ => cases h

/-! ## Results -/

/-- A result keeps the bound that is forgotten. -/
theorem bound_of_bare {p : List Placed → Prop}
    {outcome : Except ParseError (Expr × { rest // p rest })} {tree : Expr} {rest : List Placed}
    (h : bare outcome = .ok (tree, rest)) : p rest := by
  cases outcome with
  | error e => cases h
  | ok r =>
    cases h
    exact r.2.2

theorem bind_eq_ok {ε α β : Type} {x : Except ε α} {f : α → Except ε β} {b : β} :
    x.bind f = .ok b ↔ ∃ a, x = .ok a ∧ f a = .ok b := by
  cases x <;> simp [Except.bind]

theorem bind_eq_error {ε α β : Type} {x : Except ε α} {f : α → Except ε β} {e : ε} :
    x.bind f = .error e ↔ x = .error e ∨ ∃ a, x = .ok a ∧ f a = .error e := by
  cases x <;> simp [Except.bind]

theorem map_eq_ok {ε α β : Type} {x : Except ε α} {f : α → β} {b : β} :
    x.map f = .ok b ↔ ∃ a, x = .ok a ∧ f a = b := by
  cases x <;> simp [Except.map]

theorem map_eq_error {ε α β : Type} {x : Except ε α} {f : α → β} {e : ε} :
    x.map f = .error e ↔ x = .error e := by
  cases x <;> simp [Except.map]

/-! ## Sums -/

theorem bare_expression (tokens : List Placed) :
    bare (expression tokens) = (bare (term tokens)).bind fun r => bare (sums r.1 r.2) := by
  rw [expression]
  cases term tokens with
  | error e => rfl
  | ok r =>
    obtain ⟨left, rest, h⟩ := r
    dsimp only [bare, Except.map, Except.bind]
    cases sums left rest <;> rfl

theorem bare_sums_of_operator {token : Token} {op : BinaryOperator}
    (hop : token.operator? = some op) (ha : op.isAdditive) (left : Expr) (column : Nat)
    (rest : List Placed) :
    bare (sums left (⟨token, column⟩ :: rest)) =
      (bare (term rest)).bind fun r => bare (sums (.binary op left r.1 column) r.2) := by
  rw [sums]
  simp only [hop, ha, if_true]
  cases term rest with
  | error e => rfl
  | ok r =>
    obtain ⟨right, rest', h⟩ := r
    dsimp only [bare, Except.map, Except.bind]
    cases sums (.binary op left right column) rest' <;> rfl

/-- A sum ends before a token that does not go on with it. -/
theorem bare_sums_of_not {tokens : List Placed} (h : ∀ t ∈ next tokens, ¬t.continuesSum)
    (left : Expr) : bare (sums left tokens) = .ok (left, tokens) := by
  rcases tokens with _ | ⟨⟨token, column⟩, rest⟩
  · rw [sums]
    rfl
  · have h : ∀ op ∈ token.operator?, ¬op.isAdditive := fun op hop ha => h token rfl ⟨op, hop, ha⟩
    rw [sums]
    cases hop : token.operator? with
    | none => rfl
    | some op =>
      simp only [if_neg (h op hop)]
      rfl

/-- A loop over sums stops at once or goes on with an operator and a term. -/
theorem sums_step (left : Expr) (tokens : List Placed) :
    ((∀ t ∈ next tokens, ¬t.continuesSum) ∧ bare (sums left tokens) = .ok (left, tokens)) ∨
      ∃ token op column after, tokens = ⟨token, column⟩ :: after ∧
        token.operator? = some op ∧ (op = .add ∨ op = .sub) ∧
        bare (sums left tokens) =
          (bare (term after)).bind fun r => bare (sums (.binary op left r.1 column) r.2) := by
  by_cases hc : ∀ t ∈ next tokens, ¬t.continuesSum
  · exact .inl ⟨hc, bare_sums_of_not hc left⟩
  · simp only [Classical.not_forall, Classical.not_not] at hc
    obtain ⟨token, ht, op, hop, ha⟩ := hc
    obtain ⟨column, after, rfl⟩ := eq_cons_of_next ht
    exact .inr ⟨token, op, column, after, rfl, hop, eq_of_isAdditive ha,
      bare_sums_of_operator hop ha left column after⟩

/-- A loop over sums that succeeded stopped at once or took an operator and a term. -/
theorem sums_cases {left tree : Expr} {tokens rest : List Placed}
    (h : bare (sums left tokens) = .ok (tree, rest)) :
    (tree = left ∧ rest = tokens ∧ ∀ t ∈ next tokens, ¬t.continuesSum) ∨
      ∃ token op column after right rest', tokens = ⟨token, column⟩ :: after ∧
        token.operator? = some op ∧ (op = .add ∨ op = .sub) ∧
        bare (term after) = .ok (right, rest') ∧
        bare (sums (.binary op left right column) rest') = .ok (tree, rest) := by
  rcases sums_step left tokens with ⟨hc, hs⟩ | ⟨token, op, column, after, ht, hop, ha, hs⟩
  · rw [hs] at h
    cases h
    exact .inl ⟨rfl, rfl, hc⟩
  · rw [hs, bind_eq_ok] at h
    obtain ⟨⟨right, rest'⟩, hr, hs⟩ := h
    exact .inr ⟨token, op, column, after, right, rest', ht, hop, ha, hr, hs⟩

/-- A loop over sums fails behind an operator, in the term there or later. -/
theorem sums_eq_error {left : Expr} {tokens : List Placed} {e : ParseError}
    (h : bare (sums left tokens) = .error e) :
    ∃ token op column after, tokens = ⟨token, column⟩ :: after ∧
      token.operator? = some op ∧ (op = .add ∨ op = .sub) ∧
      (bare (term after) = .error e ∨ ∃ right rest', bare (term after) = .ok (right, rest') ∧
        bare (sums (.binary op left right column) rest') = .error e) := by
  rcases sums_step left tokens with ⟨-, hs⟩ | ⟨token, op, column, after, ht, hop, ha, hs⟩
  · rw [hs] at h
    cases h
  · rw [hs, bind_eq_error] at h
    refine ⟨token, op, column, after, ht, hop, ha, h.imp_right ?_⟩
    rintro ⟨⟨right, rest'⟩, hr, hs⟩
    exact ⟨right, rest', hr, hs⟩

/-! ## Products -/

theorem bare_term (tokens : List Placed) :
    bare (term tokens) = (bare (factor tokens)).bind fun r => bare (products r.1 r.2) := by
  rw [term]
  cases factor tokens with
  | error e => rfl
  | ok r =>
    obtain ⟨left, rest, h⟩ := r
    dsimp only [bare, Except.map, Except.bind]
    cases products left rest <;> rfl

theorem bare_products_of_operator {token : Token} {op : BinaryOperator}
    (hop : token.operator? = some op) (hm : op = .mul ∨ op = .div) (left : Expr) (column : Nat)
    (rest : List Placed) :
    bare (products left (⟨token, column⟩ :: rest)) =
      (bare (factor rest)).bind fun r => bare (products (.binary op left r.1 column) r.2) := by
  have ha : ¬op.isAdditive := by rcases hm with rfl | rfl <;> decide
  have hp : op ≠ .pow := by rcases hm with rfl | rfl <;> decide
  rw [products]
  simp only [hop, if_neg ha, if_neg hp]
  cases factor rest with
  | error e => rfl
  | ok r =>
    obtain ⟨right, rest', h⟩ := r
    dsimp only [bare, Except.map, Except.bind]
    cases products (.binary op left right column) rest' <;> rfl

theorem bare_products_of_power (left : Expr) (column : Nat) (rest : List Placed) :
    bare (products left (⟨.power, column⟩ :: rest)) =
      (bare (power rest)).bind fun r => bare (products (.binary .pow left r.1 column) r.2) := by
  rw [products]
  simp only [Token.operator?, if_neg (show ¬BinaryOperator.isAdditive .pow by decide), if_true]
  cases power rest with
  | error e => rfl
  | ok r =>
    obtain ⟨right, rest', h⟩ := r
    dsimp only [bare, Except.map, Except.bind]
    cases products (.binary .pow left right column) rest' <;> rfl

/-- A product ends before a token that does not go on with it. -/
theorem bare_products_of_not {tokens : List Placed} (h : ∀ t ∈ next tokens, ¬t.continuesProduct)
    (left : Expr) : bare (products left tokens) = .ok (left, tokens) := by
  rcases tokens with _ | ⟨⟨token, column⟩, rest⟩
  · rw [products]
    rfl
  · have h : ∀ op ∈ token.operator?, op.isAdditive := fun op hop =>
      Decidable.not_not.1 fun ha => h token rfl ⟨op, hop, ha⟩
    rw [products]
    cases hop : token.operator? with
    | none => rfl
    | some op =>
      simp only [if_pos (h op hop)]
      rfl

/-- A loop over products stops at once, or goes on with an operator and its operand: a factor, and
behind a power another power. -/
theorem products_step (left : Expr) (tokens : List Placed) :
    ((∀ t ∈ next tokens, ¬t.continuesProduct) ∧ bare (products left tokens) = .ok (left, tokens)) ∨
      ∃ token op column after operand, tokens = ⟨token, column⟩ :: after ∧
        token.operator? = some op ∧
        ((op = .mul ∨ op = .div) ∧ operand = bare (factor after) ∨
          op = .pow ∧ operand = bare (power after)) ∧
        bare (products left tokens) =
          operand.bind fun r => bare (products (.binary op left r.1 column) r.2) := by
  by_cases hc : ∀ t ∈ next tokens, ¬t.continuesProduct
  · exact .inl ⟨hc, bare_products_of_not hc left⟩
  · simp only [Classical.not_forall, Classical.not_not] at hc
    obtain ⟨token, ht, op, hop, ha⟩ := hc
    obtain ⟨column, after, rfl⟩ := eq_cons_of_next ht
    rcases eq_of_not_isAdditive ha with hm | rfl
    · exact .inr ⟨token, op, column, after, _, rfl, hop, .inl ⟨hm, rfl⟩,
        bare_products_of_operator hop hm left column after⟩
    · obtain rfl := eq_power_of_operator? hop
      exact .inr ⟨.power, .pow, column, after, _, rfl, hop, .inr ⟨rfl, rfl⟩,
        bare_products_of_power left column after⟩

/-- A loop over products that succeeded stopped at once, or took an operator and its operand: a
factor, and behind a power another power. -/
theorem products_cases {left tree : Expr} {tokens rest : List Placed}
    (h : bare (products left tokens) = .ok (tree, rest)) :
    (tree = left ∧ rest = tokens ∧ ∀ t ∈ next tokens, ¬t.continuesProduct) ∨
      ∃ token op column after right rest', tokens = ⟨token, column⟩ :: after ∧
        token.operator? = some op ∧
        ((op = .mul ∨ op = .div) ∧ bare (factor after) = .ok (right, rest') ∨
          op = .pow ∧ bare (power after) = .ok (right, rest')) ∧
        bare (products (.binary op left right column) rest') = .ok (tree, rest) := by
  rcases products_step left tokens with
    ⟨hc, hs⟩ | ⟨token, op, column, after, operand, ht, hop, ho, hs⟩
  · rw [hs] at h
    cases h
    exact .inl ⟨rfl, rfl, hc⟩
  · rw [hs, bind_eq_ok] at h
    obtain ⟨⟨right, rest'⟩, hr, hs⟩ := h
    refine .inr ⟨token, op, column, after, right, rest', ht, hop, ?_, hs⟩
    rcases ho with ⟨hm, rfl⟩ | ⟨hp, rfl⟩
    · exact .inl ⟨hm, hr⟩
    · exact .inr ⟨hp, hr⟩

/-- A loop over products fails behind an operator, in the operand there or later. -/
theorem products_eq_error {left : Expr} {tokens : List Placed} {e : ParseError}
    (h : bare (products left tokens) = .error e) :
    ∃ token op column after operand, tokens = ⟨token, column⟩ :: after ∧
      token.operator? = some op ∧
      ((op = .mul ∨ op = .div) ∧ operand = bare (factor after) ∨
        op = .pow ∧ operand = bare (power after)) ∧
      (operand = .error e ∨ ∃ right rest', operand = .ok (right, rest') ∧
        bare (products (.binary op left right column) rest') = .error e) := by
  rcases products_step left tokens with
    ⟨-, hs⟩ | ⟨token, op, column, after, operand, ht, hop, ho, hs⟩
  · rw [hs] at h
    cases h
  · rw [hs, bind_eq_error] at h
    refine ⟨token, op, column, after, operand, ht, hop, ho, h.imp_right ?_⟩
    rintro ⟨⟨right, rest'⟩, hr, hs⟩
    exact ⟨right, rest', hr, hs⟩

/-! ## Powers -/

theorem bare_power (tokens : List Placed) :
    bare (power tokens) = (bare (factor tokens)).bind fun r => bare (raised r.1 r.2) := by
  rw [power]
  cases factor tokens with
  | error e => rfl
  | ok r =>
    obtain ⟨base, rest, h⟩ := r
    dsimp only [bare, Except.map, Except.bind]
    cases raised base rest <;> rfl

theorem bare_raised_of_power (base : Expr) (column : Nat) (rest : List Placed) :
    bare (raised base (⟨.power, column⟩ :: rest)) =
      (bare (power rest)).map fun r => (.binary .pow base r.1 column, r.2) := by
  rw [raised]
  cases power rest <;> rfl

/-- A base stands alone before a token that is no power. -/
theorem bare_raised_of_not {tokens : List Placed} (h : next tokens ≠ some .power) (base : Expr) :
    bare (raised base tokens) = .ok (base, tokens) := by
  rw [raised]
  · rfl
  · rintro column rest rfl
    exact h rfl

/-- A base that was read stands alone, or has an exponent. -/
theorem raised_cases {base tree : Expr} {tokens rest : List Placed}
    (h : bare (raised base tokens) = .ok (tree, rest)) :
    (tree = base ∧ rest = tokens ∧ next tokens ≠ some .power) ∨
      ∃ column after exponent, tokens = ⟨.power, column⟩ :: after ∧
        bare (power after) = .ok (exponent, rest) ∧ tree = .binary .pow base exponent column := by
  by_cases hp : next tokens = some .power
  · obtain ⟨column, after, rfl⟩ := eq_cons_of_next hp
    rw [bare_raised_of_power, map_eq_ok] at h
    obtain ⟨⟨exponent, rest'⟩, he, h⟩ := h
    cases h
    exact .inr ⟨column, after, exponent, rfl, he, rfl⟩
  · rw [bare_raised_of_not hp] at h
    cases h
    exact .inl ⟨rfl, rfl, hp⟩

/-- The exponent of a base fails behind a power. -/
theorem raised_eq_error {base : Expr} {tokens : List Placed} {e : ParseError}
    (h : bare (raised base tokens) = .error e) :
    ∃ column after, tokens = ⟨.power, column⟩ :: after ∧ bare (power after) = .error e := by
  by_cases hp : next tokens = some .power
  · obtain ⟨column, after, rfl⟩ := eq_cons_of_next hp
    rw [bare_raised_of_power, map_eq_error] at h
    exact ⟨column, after, rfl, h⟩
  · rw [bare_raised_of_not hp] at h
    cases h

/-! ## Factors -/

theorem bare_factor_nil : bare (factor []) = .error .endOfInput := by
  rw [factor]
  rfl

theorem eq_cons_of_factor {tokens : List Placed} {r : Expr × List Placed}
    (h : bare (factor tokens) = .ok r) : ∃ token column rest, tokens = ⟨token, column⟩ :: rest := by
  rcases tokens with _ | ⟨⟨token, column⟩, rest⟩
  · rw [bare_factor_nil] at h
    cases h
  · exact ⟨token, column, rest, rfl⟩

/-- What follows a group: its closing parenthesis and possibly an exponent. -/
def afterGroup (column : Nat) (r : Expr × List Placed) : Except ParseError (Expr × List Placed) :=
  match r.2 with
  | ⟨.closing, _⟩ :: rest => bare (raised r.1 rest)
  | _ => .error (.unclosedGroup column)

theorem afterGroup_eq_ok {column : Nat} {inner tree : Expr} {tokens rest : List Placed}
    (h : afterGroup column (inner, tokens) = .ok (tree, rest)) :
    ∃ closing after, tokens = ⟨.closing, closing⟩ :: after ∧
      bare (raised inner after) = .ok (tree, rest) := by
  unfold afterGroup at h
  split at h
  · exact ⟨_, _, ‹_›, h⟩
  · cases h

theorem afterGroup_of_not {column : Nat} {inner : Expr} {tokens : List Placed}
    (h : next tokens ≠ some .closing) :
    afterGroup column (inner, tokens) = .error (.unclosedGroup column) := by
  unfold afterGroup
  split
  · next hc => exact absurd (congrArg next hc) h
  · rfl

theorem bare_factor_opening (column : Nat) (rest : List Placed) :
    bare (factor (⟨.opening, column⟩ :: rest)) =
      (bare (expression rest)).bind (afterGroup column) := by
  rw [factor]
  cases expression rest with
  | error e => rfl
  | ok r =>
    obtain ⟨inner, rest', h⟩ := r
    dsimp only [bare, Except.map, Except.bind]
    rcases rest' with _ | ⟨⟨token, closing⟩, rest'⟩
    · rfl
    · cases token with
      | closing => cases h' : raised inner rest' <;> simp only [afterGroup, bare, h', Except.map]
      | _ => rfl

theorem bare_factor_radical (column : Nat) (rest : List Placed) :
    bare (factor (⟨.radical, column⟩ :: rest)) =
      (bare (factor rest)).map fun r => (.unary .sqrt r.1 column, r.2) := by
  rw [factor]
  cases factor rest <;> rfl

/-- What follows the operand of a conjugate: the closing parenthesis. -/
def afterConj (column : Nat) (r : Expr × List Placed) : Except ParseError (Expr × List Placed) :=
  match r.2 with
  | ⟨.closing, _⟩ :: rest => .ok (.unary .conj r.1 column, rest)
  | _ => .error (.unclosedConj column)

theorem afterConj_eq_ok {column : Nat} {operand tree : Expr} {tokens rest : List Placed}
    (h : afterConj column (operand, tokens) = .ok (tree, rest)) :
    ∃ closing, tokens = ⟨.closing, closing⟩ :: rest ∧ tree = .unary .conj operand column := by
  unfold afterConj at h
  split at h
  · cases h
    exact ⟨_, ‹_›, rfl⟩
  · cases h

theorem afterConj_of_not {column : Nat} {operand : Expr} {tokens : List Placed}
    (h : next tokens ≠ some .closing) :
    afterConj column (operand, tokens) = .error (.unclosedConj column) := by
  unfold afterConj
  split
  · next hc => exact absurd (congrArg next hc) h
  · rfl

theorem bare_factor_conj (column opening : Nat) (rest : List Placed) :
    bare (factor (⟨.conj, column⟩ :: ⟨.opening, opening⟩ :: rest)) =
      (bare (expression rest)).bind (afterConj column) := by
  rw [factor]
  cases expression rest with
  | error e => rfl
  | ok r =>
    obtain ⟨operand, rest', h⟩ := r
    dsimp only [bare, Except.map, Except.bind]
    rcases rest' with _ | ⟨⟨token, closing⟩, rest'⟩
    · rfl
    · cases token <;> rfl

theorem bare_factor_conj_of_not {rest : List Placed} (h : next rest ≠ some .opening)
    (column : Nat) :
    bare (factor (⟨.conj, column⟩ :: rest)) = .error (.conjWithoutGroup column) := by
  rw [factor]
  · rfl
  · rintro opening rest rfl
    exact h rfl

theorem bare_factor_number_of_none {lexeme : List Char} (h : Binary64.ofText? lexeme = none)
    (column : Nat) (rest : List Placed) :
    bare (factor (⟨.number lexeme, column⟩ :: rest)) = .error (.unexpectedToken lexeme column) := by
  rw [factor]
  simp only [h]
  rfl

theorem bare_factor_imaginary {lexeme : List Char} {x : Binary64}
    (h : Binary64.ofText? lexeme = some x) (column unit : Nat) (rest : List Placed) :
    bare (factor (⟨.number lexeme, column⟩ :: ⟨.identifier 'i', unit⟩ :: rest)) =
      .ok (.literal ⟨.zero, x⟩ column, rest) := by
  rw [factor]
  simp only [h]
  rfl

theorem bare_factor_number {lexeme : List Char} {x : Binary64}
    (h : Binary64.ofText? lexeme = some x) {rest : List Placed}
    (hi : next rest ≠ some (.identifier 'i')) (column : Nat) :
    bare (factor (⟨.number lexeme, column⟩ :: rest)) = .ok (.literal (.ofReal x) column, rest) := by
  rw [factor]
  have hl : literal x column rest =
      (.literal (.ofReal x) column, ⟨rest, Nat.le_refl _⟩) := by
    unfold literal
    split
    · exact absurd rfl hi
    · rfl
  simp only [h, hl]
  rfl

theorem bare_factor_identifier (name : Char) (column : Nat) (rest : List Placed) :
    bare (factor (⟨.identifier name, column⟩ :: rest)) =
      .ok (if name = 'i' then .literal .i column else .var name column, rest) := by
  rw [factor]
  rfl

/-- A token that begins a factor. -/
def Token.beginsFactor : Token → Bool
  | opening | radical | conj | number _ | identifier _ => true
  | _ => false

theorem bare_factor_of_not {token : Token} (h : token.beginsFactor = false) (column : Nat)
    (rest : List Placed) :
    bare (factor (⟨token, column⟩ :: rest)) = .error (.unexpectedToken token.text column) := by
  rw [factor]
  · rfl
  all_goals intros; subst_vars; cases h

end Argand
