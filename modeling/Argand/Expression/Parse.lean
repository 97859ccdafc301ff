import Argand.Expression.Pieces

/-!
From tokens to trees.

The grammar, from the loosest to the tightest binding:

    expression = term, then any number of ("+" | "-") term            grouped to the left
    term       = factor, then any number of
                 ("*" | "/") factor or "**" power                     grouped to the left
    power      = factor, then possibly "**" power                     grouped to the right
    factor     = "(" expression ")", then possibly "**" power
               | "√" factor
               | "conj" "(" expression ")"
               | number, then possibly "i"
               | "i" | identifier

So a chain of powers is grouped to the right, but the chain itself has the rank of a product:
`2*3**2` is `(2*3)**2`.  What is possible is always taken: a power behind a group belongs to the
group, and an `i` behind a number to the number.

Each function takes the tokens from some point on and gives a tree with the tokens that it left,
which are fewer; the loops over operators may leave all of them.  The descent ends because the
tokens get fewer or, with the same tokens, the rule gets tighter.
-/

namespace Argand

/-- The tokens left by a rule that took at least one. -/
abbrev Shorter (tokens : List Placed) :=
  { rest : List Placed // rest.length < tokens.length }

/-- The tokens left by a rule that may have taken none. -/
abbrev NotLonger (tokens : List Placed) :=
  { rest : List Placed // rest.length ≤ tokens.length }

/-- A sum or a difference. -/
def BinaryOperator.isAdditive : BinaryOperator → Bool
  | add | sub => true
  | mul | div | pow => false

/-- The literal that a number stands for, with the `i` behind it if there is one. -/
def literal (x : Binary64) (column : Nat) (tokens : List Placed) : Expr × NotLonger tokens :=
  match tokens with
  | ⟨.identifier 'i', _⟩ :: rest =>
    (.literal ⟨.zero, x⟩ column, ⟨rest, Nat.le_succ _⟩)
  | rest => (.literal (.ofReal x) column, ⟨rest, Nat.le_refl _⟩)

mutual

/-- A sum of terms. -/
def expression (tokens : List Placed) : Except ParseError (Expr × Shorter tokens) :=
  match term tokens with
  | .error e => .error e
  | .ok (left, ⟨rest, h⟩) =>
    match sums left rest with
    | .error e => .error e
    | .ok (tree, ⟨rest', h'⟩) => .ok (tree, ⟨rest', Nat.lt_of_le_of_lt h' h⟩)
termination_by (tokens.length, 4)

/-- The terms that are added to or taken from what is on the left. -/
def sums (left : Expr) (tokens : List Placed) : Except ParseError (Expr × NotLonger tokens) :=
  match tokens with
  | [] => .ok (left, ⟨[], Nat.le_refl _⟩)
  | ⟨token, column⟩ :: rest =>
    match token.operator? with
    | none => .ok (left, ⟨⟨token, column⟩ :: rest, Nat.le_refl _⟩)
    | some op =>
      if op.isAdditive then
        match term rest with
        | .error e => .error e
        | .ok (right, ⟨rest', h⟩) =>
          match sums (.binary op left right column) rest' with
          | .error e => .error e
          | .ok (tree, ⟨rest'', h'⟩) =>
            .ok (tree, ⟨rest'', by simp only [List.length_cons]; omega⟩)
      else .ok (left, ⟨⟨token, column⟩ :: rest, Nat.le_refl _⟩)
termination_by (tokens.length, 3)

/-- A product of factors, and of powers of what is on their left. -/
def term (tokens : List Placed) : Except ParseError (Expr × Shorter tokens) :=
  match factor tokens with
  | .error e => .error e
  | .ok (left, ⟨rest, h⟩) =>
    match products left rest with
    | .error e => .error e
    | .ok (tree, ⟨rest', h'⟩) => .ok (tree, ⟨rest', Nat.lt_of_le_of_lt h' h⟩)
termination_by (tokens.length, 3)

/-- The factors and exponents that are applied to what is on the left. -/
def products (left : Expr) (tokens : List Placed) : Except ParseError (Expr × NotLonger tokens) :=
  match tokens with
  | [] => .ok (left, ⟨[], Nat.le_refl _⟩)
  | ⟨token, column⟩ :: rest =>
    match token.operator? with
    | none => .ok (left, ⟨⟨token, column⟩ :: rest, Nat.le_refl _⟩)
    | some op =>
      if op.isAdditive then .ok (left, ⟨⟨token, column⟩ :: rest, Nat.le_refl _⟩)
      else
        match if op = .pow then power rest else factor rest with
        | .error e => .error e
        | .ok (right, ⟨rest', h⟩) =>
          match products (.binary op left right column) rest' with
          | .error e => .error e
          | .ok (tree, ⟨rest'', h'⟩) =>
            .ok (tree, ⟨rest'', by simp only [List.length_cons]; omega⟩)
termination_by (tokens.length, 2)

/-- A factor with the exponent behind it: the right operand of a power. -/
def power (tokens : List Placed) : Except ParseError (Expr × Shorter tokens) :=
  match factor tokens with
  | .error e => .error e
  | .ok (base, ⟨rest, h⟩) =>
    match raised base rest with
    | .error e => .error e
    | .ok (tree, ⟨rest', h'⟩) => .ok (tree, ⟨rest', Nat.lt_of_le_of_lt h' h⟩)
termination_by (tokens.length, 2)

/-- The exponent of a base, if one follows. -/
def raised (base : Expr) (tokens : List Placed) : Except ParseError (Expr × NotLonger tokens) :=
  match tokens with
  | ⟨.power, column⟩ :: rest =>
    match power rest with
    | .error e => .error e
    | .ok (exponent, ⟨rest', h⟩) =>
      .ok (.binary .pow base exponent column, ⟨rest', by simp only [List.length_cons]; omega⟩)
  | rest => .ok (base, ⟨rest, Nat.le_refl _⟩)
termination_by (tokens.length, 1)

/-- A group, a root, a conjugate, a number or a name. -/
def factor (tokens : List Placed) : Except ParseError (Expr × Shorter tokens) :=
  match tokens with
  | [] => .error .endOfInput
  | ⟨.opening, column⟩ :: rest =>
    match expression rest with
    | .error e => .error e
    | .ok (inner, ⟨⟨.closing, _⟩ :: rest', h⟩) =>
      have h : rest'.length < rest.length := Nat.lt_of_succ_lt h
      match raised inner rest' with
      | .error e => .error e
      | .ok (tree, ⟨rest'', h'⟩) =>
        .ok (tree, ⟨rest'', by simp only [List.length_cons]; omega⟩)
    | .ok _ => .error (.unclosedGroup column)
  | ⟨.radical, column⟩ :: rest =>
    match factor rest with
    | .error e => .error e
    | .ok (operand, ⟨rest', h⟩) =>
      .ok (.unary .sqrt operand column, ⟨rest', Nat.lt_succ_of_lt h⟩)
  | ⟨.conj, column⟩ :: ⟨.opening, _⟩ :: rest =>
    match expression rest with
    | .error e => .error e
    | .ok (operand, ⟨⟨.closing, _⟩ :: rest', h⟩) =>
      .ok (.unary .conj operand column,
        ⟨rest', by simp only [List.length_cons] at h ⊢; omega⟩)
    | .ok _ => .error (.unclosedConj column)
  | ⟨.conj, column⟩ :: _ => .error (.conjWithoutGroup column)
  | ⟨.number lexeme, column⟩ :: rest =>
    match Binary64.ofText? lexeme with
    | none => .error (.unexpectedToken lexeme column)
    | some x =>
      let (leaf, ⟨rest', h⟩) := literal x column rest
      .ok (leaf, ⟨rest', Nat.lt_succ_of_le h⟩)
  | ⟨.identifier name, column⟩ :: rest =>
    .ok (if name = 'i' then .literal .i column else .var name column,
      ⟨rest, Nat.lt_succ_self _⟩)
  | ⟨token, column⟩ :: _ => .error (.unexpectedToken token.text column)
termination_by (tokens.length, 0)

end

/-- The tree of a list of tokens that is one expression. -/
def parseTokens (tokens : List Placed) : Except ParseError Expr :=
  match expression tokens with
  | .error e => .error e
  | .ok (tree, ⟨[], _⟩) => .ok tree
  | .ok (_, ⟨⟨token, column⟩ :: _, _⟩) => .error (.trailingTokens token.text column)

/-- The tree of a text that is one expression. -/
def parse (mode : Mode) (source : List Char) : Except ParseError Expr :=
  match tokenize mode source with
  | .error e => .error e
  | .ok tokens => parseTokens tokens

end Argand
