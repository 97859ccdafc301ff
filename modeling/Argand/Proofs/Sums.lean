import Argand.Proofs.Grammar
import Argand.Proofs.Meaning
import Argand.Proofs.Spelling

/-!
Sums of literals, from their writing to their value.

A sum here is literals with signs between them, and possibly a sign before the first one:

    sum     = sign? literal (sign literal)*
    literal = number | number "i" | "i"

Its tokens do not run into each other (`LiteralSum.separate`), so a text that is written so has
these tokens.  A sign in front gets the zero that completes it.  The grammar groups the sum to the
left, and the tree has no variables and the value that comes of adding and subtracting in this order
(`LiteralSum.parse_eq_ok`).
-/

namespace Argand

/-! ## Signs and literals -/

inductive Sign where
  | plus
  | minus
deriving DecidableEq

namespace Sign

def token : Sign → Token
  | plus => .plus
  | minus => .minus

def operator : Sign → BinaryOperator
  | plus => .add
  | minus => .sub

/-- The sign before a double. -/
def before (s : Sign) (x : Binary64) : Binary64 :=
  match s with
  | plus => x
  | minus => -x

/-- The sign between two numbers. -/
def between (s : Sign) (z w : Complex) : Complex :=
  match s with
  | plus => z + w
  | minus => z - w

theorem operator?_token (s : Sign) : s.token.operator? = some s.operator := by
  cases s <;> rfl

theorem operator_eq (s : Sign) : s.operator = .add ∨ s.operator = .sub := by
  cases s
  · exact .inl rfl
  · exact .inr rfl

theorem apply_operator (s : Sign) (z w : Complex) (column : Nat) :
    s.operator.apply z w column = .ok (s.between z w) := by
  cases s <;> rfl

theorem isSign_token (s : Sign) : s.token.isSign = true := by
  cases s <;> rfl

end Sign

/-- A lexeme that is a number of the grammar. -/
abbrev Number := { lexeme : List Char // IsNumber lexeme }

/-- What is added in a sum of literals. -/
inductive Summand where
  | real (number : Number)
  | imaginary (number : Number)
  /-- The imaginary unit without a number. -/
  | unit

namespace Summand

def tokens : Summand → List Token
  | real l => [.number l.1]
  | imaginary l => [.number l.1, .identifier 'i']
  | unit => [.identifier 'i']

def value : Summand → Complex
  | real l => .ofReal (numeralValue l.1)
  | imaginary l => ⟨.zero, numeralValue l.1⟩
  | unit => .i

/-- The zero that completes a sign. -/
def zero : Summand := real ⟨['0'], isNumber_zero⟩

end Summand

/-- Literals with a sign before each. -/
abbrev SignedSummands := List (Sign × Summand)

def SignedSummands.tokens (others : SignedSummands) : List Token :=
  others.flatMap fun other => other.1.token :: other.2.tokens

/-- A sum of literals.  Without a first one it begins with a sign. -/
structure LiteralSum where
  first : Option Summand
  others : SignedSummands
  nonempty : first.isSome ∨ others ≠ [] := by simp

namespace LiteralSum

/-- The tokens as they are written. -/
def tokens (sum : LiteralSum) : List Token :=
  (sum.first.map Summand.tokens).getD [] ++ sum.others.tokens

/-- The first literal, or the zero that completes the sign at the beginning. -/
def head (sum : LiteralSum) : Summand := sum.first.getD .zero

def value (sum : LiteralSum) : Complex :=
  sum.others.foldl (fun z other => other.1.between z other.2.value) sum.head.value

end LiteralSum

/-! ## Tokens -/

theorem not_continues_of_mem_head?_others (others : SignedSummands) :
    ∀ c ∈ (spelled others.tokens).head?, ¬(c.isDigit ∨ c = '.') := by
  rcases others with _ | ⟨⟨s, m⟩, others⟩
  · exact nofun
  · cases s <;> rintro c ⟨⟩ <;> decide

/-- A literal does not run into what cannot go on with a number. -/
theorem separate_summand (m : Summand) {ts : List Token} (hs : Separate ts)
    (hh : ∀ c ∈ (spelled ts).head?, ¬(c.isDigit ∨ c = '.')) : Separate (m.tokens ++ ts) := by
  have hi : (Piece.token (.identifier 'i')).Maximal (spelled ts) :=
    ⟨by decide +kernel, fun hc => absurd hc.1 (by decide)⟩
  cases m with
  | real l => exact ⟨⟨l.2.1, hh⟩, hs⟩
  | imaginary l =>
    refine ⟨⟨l.2.1, ?_⟩, hi, hs⟩
    rintro c ⟨⟩
    decide
  | unit => exact ⟨hi, hs⟩

theorem separate_others (others : SignedSummands) : Separate others.tokens := by
  induction others with
  | nil => trivial
  | cons other others ih =>
    obtain ⟨s, m⟩ := other
    have hm : Separate (m.tokens ++ SignedSummands.tokens others) :=
      separate_summand m ih (not_continues_of_mem_head?_others others)
    cases s
    · exact ⟨trivial, hm⟩
    · exact ⟨trivial, hm⟩

theorem LiteralSum.separate (sum : LiteralSum) : Separate sum.tokens := by
  unfold tokens
  cases sum.first with
  | none => exact separate_others sum.others
  | some m =>
    exact separate_summand m (separate_others sum.others)
      (not_continues_of_mem_head?_others sum.others)

/-- Without a group, no sign but the first one is completed. -/
theorem completedFrom_false {ts : List Token} (h : .opening ∉ ts) :
    completedFrom false ts = ts := by
  induction ts with
  | nil => rfl
  | cons t ts ih =>
    obtain ⟨ht, hts⟩ := List.ne_and_not_mem_of_not_mem_cons h
    have hf : decide (t = .opening) = false := decide_eq_false (Ne.symm ht)
    rw [completedFrom, hf, ih hts]
    rfl

theorem completedFrom_cons {t : Token} {ts : List Token} (h : .opening ∉ t :: ts) :
    completedFrom true (t :: ts) = (if t.isSign then [.number ['0']] else []) ++ t :: ts := by
  obtain ⟨ht, hts⟩ := List.ne_and_not_mem_of_not_mem_cons h
  have hf : decide (t = .opening) = false := decide_eq_false (Ne.symm ht)
  rw [completedFrom, hf, completedFrom_false hts, Bool.true_and]

theorem opening_notMem_summand (m : Summand) : .opening ∉ m.tokens := by
  cases m <;> simp [Summand.tokens]

theorem opening_notMem_others (others : SignedSummands) : .opening ∉ others.tokens := by
  intro h
  obtain ⟨⟨s, m⟩, -, hm⟩ := List.mem_flatMap.1 h
  rcases List.mem_cons.1 hm with hs | hm
  · cases s <;> cases hs
  · exact opening_notMem_summand m hm

/-- A sign at the beginning is completed by a zero. -/
theorem LiteralSum.completedFrom_tokens (sum : LiteralSum) :
    completedFrom true sum.tokens = sum.head.tokens ++ sum.others.tokens := by
  obtain ⟨first, others, hne⟩ := sum
  have ho := opening_notMem_others others
  cases first with
  | none =>
    rcases others with _ | ⟨⟨s, m⟩, others⟩
    · simp at hne
    · show completedFrom true (s.token :: _) = _
      rw [completedFrom_cons ho, if_pos s.isSign_token]
      rfl
  | some m =>
    have hm : .opening ∉ m.tokens ++ SignedSummands.tokens others := fun h =>
      (List.mem_append.1 h).elim (opening_notMem_summand m) ho
    show completedFrom true (m.tokens ++ SignedSummands.tokens others) = m.tokens ++ _
    cases m with
    | real l => exact completedFrom_cons hm
    | imaginary l => exact completedFrom_cons hm
    | unit => exact completedFrom_cons hm

/-! ## Trees -/

/-- The tree has no variables, and the value whatever a variable would be. -/
structure Expr.Constant (tree : Expr) (z : Complex) : Prop where
  closed : tree.variableNames = []
  value : ∀ source, tree.value source = .ok z

theorem Expr.Constant.evaluate {σ : Type} {tree : Expr} {z : Complex} (h : tree.Constant z)
    (resolver : Resolver σ) (state : σ) : (tree.evaluate resolver state).result = .ok z :=
  (evaluate_of_closed h.closed resolver state fun _ => .ok .zero).trans (h.value _)

theorem constant_literal (z : Complex) (column : Nat) : (Expr.literal z column).Constant z :=
  ⟨rfl, fun _ => rfl⟩

theorem Expr.Constant.between {left right : Expr} {z w : Complex} (hl : left.Constant z)
    (hr : right.Constant w) (s : Sign) (column : Nat) :
    (Expr.binary s.operator left right column).Constant (s.between z w) := by
  refine ⟨?_, fun source => ?_⟩
  · simp [variableNames, hl.closed, hr.closed]
  · rw [Expr.value, hl.value source, hr.value source]
    exact s.apply_operator z w column

/-- A literal is read as a factor, unless an `i` behind it would belong to it. -/
theorem Summand.derives (m : Summand) {tokens : List Placed}
    (h : tokens.map Placed.token = m.tokens) {next' : Option Token}
    (hi : next' ≠ some (.identifier 'i')) :
    ∃ column, Derives .greedy .factor tokens next' (.literal m.value column) := by
  cases m with
  | real l =>
    obtain ⟨⟨token, column⟩, rfl, rfl⟩ := List.map_eq_singleton_iff.1 h
    exact ⟨column, .real l.2 (mayOmit_greedy.2 hi)⟩
  | imaginary l =>
    obtain ⟨⟨token, column⟩, more, rfl, rfl, hm⟩ := List.map_eq_cons_iff.1 h
    obtain ⟨⟨token, unit⟩, rfl, rfl⟩ := List.map_eq_singleton_iff.1 hm
    exact ⟨column, .imaginary l.2⟩
  | unit =>
    obtain ⟨⟨token, column⟩, rfl, rfl⟩ := List.map_eq_singleton_iff.1 h
    exact ⟨column, .unit⟩

theorem next_eq_of_map {tokens : List Placed} {ts : List Token}
    (h : tokens.map Placed.token = ts) : next tokens = ts.head? := by
  rw [next, ← List.head?_map, h]

theorem next_ne_of_others {tokens : List Placed} {others : SignedSummands}
    (h : tokens.map Placed.token = others.tokens) : next tokens ≠ some (.identifier 'i') := by
  rw [next_eq_of_map h]
  rcases others with _ | ⟨⟨s, m⟩, others⟩
  · exact nofun
  · cases s <;> exact nofun

/-- Signed literals behind an expression go on with it, one after the other. -/
theorem derives_others {others : SignedSummands} {front rest : List Placed} {left : Expr}
    {z : Complex} (hl : Derives .greedy .expression front (next rest) left) (hz : left.Constant z)
    (h : rest.map Placed.token = others.tokens) :
    ∃ tree, Derives .greedy .expression (front ++ rest) none tree ∧
      tree.Constant (others.foldl (fun z other => other.1.between z other.2.value) z) := by
  induction others generalizing front rest left z with
  | nil =>
    obtain rfl : rest = [] := List.map_eq_nil_iff.1 h
    rw [List.append_nil]
    exact ⟨left, hl, hz⟩
  | cons other others ih =>
    obtain ⟨s, m⟩ := other
    have h : rest.map Placed.token = s.token :: (m.tokens ++ SignedSummands.tokens others) := h
    obtain ⟨⟨token, column⟩, more, rfl, rfl, hm⟩ := List.map_eq_cons_iff.1 h
    obtain ⟨taken, rest', rfl, ht, hr⟩ := List.map_eq_append_iff.1 hm
    obtain ⟨leaf, hleaf⟩ := m.derives ht (next_ne_of_others hr)
    have hd : Derives .greedy .expression (front ++ ⟨s.token, column⟩ :: taken) (next rest')
        (.binary s.operator left (.literal m.value leaf) column) :=
      .sum s.operator?_token s.operator_eq hl (.ofFactor hleaf)
    obtain ⟨tree, htree, hc⟩ :=
      ih hd (hz.between (constant_literal m.value leaf) s column) hr
    refine ⟨tree, ?_, hc⟩
    simpa using htree

/-- A text that is written as a sum of literals is an expression with its value. -/
theorem LiteralSum.parse_eq_ok (sum : LiteralSum) {source : List Char}
    (h : Text.withoutBlanks source = spelled sum.tokens) (mode : Mode) :
    ∃ tree, parse mode source = .ok tree ∧ tree.Constant sum.value := by
  obtain ⟨tokens, ht, hm⟩ := tokenize_spelled sum.separate h mode
  rw [sum.completedFrom_tokens] at hm
  obtain ⟨front, rest, rfl, hf, hr⟩ := List.map_eq_append_iff.1 hm
  obtain ⟨column, hd⟩ := sum.head.derives hf (next_ne_of_others hr)
  obtain ⟨tree, htree, hc⟩ :=
    derives_others (.ofTerm (.ofFactor hd)) (constant_literal sum.head.value column) hr
  exact ⟨tree, parse_eq_ok_iff.2 ⟨_, ht, htree⟩, hc⟩

end Argand
