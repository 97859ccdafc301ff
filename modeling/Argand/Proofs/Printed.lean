import Argand.Expression.Tree
import Argand.Proofs.Blanks
import Argand.Proofs.Columns
import Argand.Proofs.Literal

/-!
The printed form of a tree says which tree it is.

The form is a prefix notation: `(op operand)` and `(op left right)`, and a number or a name by
itself.  What keeps it readable is that operators, numbers and names are words, with no blank and no
parenthesis in them, and that each of them ends before a blank, a closing parenthesis or the end of
the text, so the text says where it ends (`IsWord.append_inj`).  A node begins with an opening
parenthesis and no word does; the words of the operators differ; and a number is never written with
a single letter, although it may be `inf`, `NaN` or end in `i` (`Complex.text_ne_letter`).

Reading from the left then leaves no choice: two trees whose printed forms agree up to some point
where both end are the same up to columns and to the signs of zeros, and what is behind them is the
same too (`Expr.same_of_text_append`).

Main statement: trees whose names are letters are printed alike exactly if they are the same in this
sense, and the names in a tree that was parsed are letters (`text_determines_tree`).
-/

namespace Argand

-- What holds of the members of a list is decided along the list, not character by character.
attribute [local instance (high)] List.decidableBAll

/-! ## Words -/

/-- What the parts of a printed tree are told apart by. -/
def separators : List Char := [' ', '(', ')']

/-- A text that none of the separators is in. -/
def IsWord (text : List Char) : Prop := text ≠ [] ∧ ∀ c ∈ text, c ∉ separators

instance (text : List Char) : Decidable (IsWord text) := inferInstanceAs (Decidable (_ ∧ _))

/-- A part of a printed tree ends in front of this. -/
def Ends (rest : List Char) : Prop := ∀ c ∈ rest.head?, c ∈ separators

theorem ends_nil : Ends [] := nofun

theorem ends_cons {c : Char} (hc : c ∈ separators) (rest : List Char) : Ends (c :: rest) := by
  rintro d ⟨⟩
  exact hc

namespace IsWord

variable {v w rest rest' : List Char}

/-- Nothing of a word stands where another word ends. -/
theorem eq_nil_of_ends {more : List Char} (hw : IsWord (w ++ more)) (hr : Ends (more ++ rest)) :
    more = [] := by
  cases more with
  | nil => rfl
  | cons c more => exact absurd (hr c rfl) (hw.2 c (by simp))

/-- A word is told from what it ends in front of. -/
theorem append_inj (hv : IsWord v) (hw : IsWord w) (hr : Ends rest) (hr' : Ends rest')
    (h : v ++ rest = w ++ rest') : v = w ∧ rest = rest' := by
  rcases List.append_eq_append_iff.1 h with ⟨more, rfl, rfl⟩ | ⟨more, rfl, rfl⟩
  · obtain rfl := eq_nil_of_ends hw hr
    exact ⟨(List.append_nil v).symm, rfl⟩
  · obtain rfl := eq_nil_of_ends hv hr'
    exact ⟨List.append_nil w, rfl⟩

/-- A word is no beginning of a node. -/
theorem append_ne_node (hv : IsWord v) : v ++ rest ≠ '(' :: rest' := by
  obtain ⟨hne, hs⟩ := hv
  cases v with
  | nil => exact absurd rfl hne
  | cons c v =>
    intro h
    obtain rfl : c = '(' := (List.cons.inj h).1
    exact hs '(' List.mem_cons_self (by decide)

end IsWord

/-! ## Operators -/

theorem UnaryOperator.isWord_text (op : UnaryOperator) : IsWord op.text := by
  cases op <;> decide

theorem UnaryOperator.text_inj {op op' : UnaryOperator} (h : op.text = op'.text) : op = op' := by
  cases op <;> cases op' <;> first | rfl | cases h

theorem BinaryOperator.isWord_text (op : BinaryOperator) : IsWord op.text := by
  cases op <;> decide

theorem BinaryOperator.text_inj {op op' : BinaryOperator} (h : op.text = op'.text) : op = op' := by
  cases op <;> cases op' <;> first | rfl | cases h

theorem UnaryOperator.text_ne (op : UnaryOperator) (op' : BinaryOperator) : op.text ≠ op'.text := by
  cases op <;> cases op' <;> decide

/-! ## Numbers and names -/

theorem not_mem_separators_of_isDigit {c : Char} (h : c.isDigit) : c ∉ separators := by
  intro hc
  have hs : separators.all (fun c => !c.isDigit) = true := by decide
  have hd := List.all_eq_true.1 hs c hc
  rw [h] at hd
  cases hd

theorem not_mem_separators_of_isAlphabetic {c : Char} (h : Text.isAlphabetic c) :
    c ∉ separators := by
  intro hc
  have hs : separators.all (fun c => !Text.isAlphabetic c) = true := by decide +kernel
  have ha := List.all_eq_true.1 hs c hc
  rw [h] at ha
  cases ha

theorem isWord_of_isAlphabetic {c : Char} (h : Text.isAlphabetic c) : IsWord [c] :=
  ⟨nofun, List.forall_mem_singleton.2 (not_mem_separators_of_isAlphabetic h)⟩

namespace Binary64

theorem positional_ne_nil (x : Binary64) : x.positional ≠ [] := by
  obtain ⟨body, hp, hx | hx⟩ := x.exists_isPlain_positional
  · rw [hx]
    exact hp.1
  · rw [hx]
    exact List.cons_ne_nil _ _

theorem positional_ne_letter (x : Binary64) {c : Char} (hc : Text.isAlphabetic c) :
    x.positional ≠ [c] := by
  intro h
  cases x with
  | nan => cases h
  | inf negative => cases negative <;> cases h
  | finite negative units hu =>
    have hrun := Decimal.isRun_positional (Decimal.shortest units)
    obtain ⟨d, hd⟩ := List.exists_mem_of_ne_nil _
      (Decimal.positional_ne_nil (Decimal.shortest units))
    have hm : d ∈ (finite negative units hu).positional := List.mem_append_right _ hd
    rw [h] at hm
    obtain rfl := List.mem_singleton.1 hm
    rcases hrun d hd with hdigit | hpoint
    · rw [not_isDigit_of_isAlphabetic hc] at hdigit
      cases hdigit
    · exact ne_point_of_isAlphabetic hc hpoint

end Binary64

namespace Complex

theorem isWord_text (z : Complex) : IsWord z.text := by
  constructor
  · intro h
    have ht := ofCompact?_text z
    rw [h] at ht
    cases ht
  · exact z.forall_mem_text_of_plain (fun _ => not_mem_separators_of_isDigit)
      (by decide) (by decide)

theorem same_of_text_eq {z w : Complex} (h : z.text = w.text) : z.same w = true := by
  have ht := ofCompact?_text z
  rw [h, ofCompact?_text w] at ht
  exact same_iff_add_zero.2 (Option.some.inj ht).symm

theorem append_unit_ne_singleton {front : List Char} (h : front ≠ []) (c : Char) :
    front ++ ['i'] ≠ [c] := by
  intro hc
  have hl := congrArg List.length hc
  rw [List.length_append, List.length_singleton, List.length_singleton] at hl
  exact h (List.length_eq_zero_iff.1 (Nat.succ.inj hl))

/-- No number is written with a single letter. -/
theorem text_ne_letter (z : Complex) {c : Char} (hc : Text.isAlphabetic c) : z.text ≠ [c] := by
  unfold text
  dsimp only
  split
  · exact Binary64.positional_ne_letter _ hc
  split
  · exact append_unit_ne_singleton (Binary64.positional_ne_nil _) c
  split
  · exact append_unit_ne_singleton (by simp) c
  · exact append_unit_ne_singleton (by simp) c

end Complex

/-! ## Trees -/

namespace Expr

/-- The trees are the same up to columns, with literals that are the same numbers. -/
def same : Expr → Expr → Bool
  | .literal z _, .literal w _ => z.same w
  | .var c _, .var d _ => c = d
  | .unary op operand _, .unary op' operand' _ => op = op' && operand.same operand'
  | .binary op left right _, .binary op' left' right' _ =>
    op = op' && left.same left' && right.same right'
  | _, _ => false

/-- The names of the variables are letters. -/
def IsLettered (tree : Expr) : Prop := ∀ name ∈ tree.variableNames, Text.isAlphabetic name

theorem IsLettered.left {op : BinaryOperator} {left right : Expr} {column : Nat}
    (h : (binary op left right column).IsLettered) : left.IsLettered :=
  fun name hn => h name (mem_variableNames_binary.2 (.inl hn))

theorem IsLettered.right {op : BinaryOperator} {left right : Expr} {column : Nat}
    (h : (binary op left right column).IsLettered) : right.IsLettered :=
  fun name hn => h name (mem_variableNames_binary.2 (.inr hn))

theorem IsLettered.operand {op : UnaryOperator} {operand : Expr} {column : Nat}
    (h : (unary op operand column).IsLettered) : operand.IsLettered := h

theorem IsLettered.var {name : Char} {column : Nat} (h : (Expr.var name column).IsLettered) :
    Text.isAlphabetic name :=
  h name (List.mem_singleton_self name)

theorem text_unary_append (op : UnaryOperator) (operand : Expr) (column : Nat) (rest : List Char) :
    (unary op operand column).text ++ rest =
      '(' :: (op.text ++ ' ' :: (operand.text ++ ')' :: rest)) := by
  simp [text]

theorem text_binary_append (op : BinaryOperator) (left right : Expr) (column : Nat)
    (rest : List Char) : (binary op left right column).text ++ rest =
      '(' :: (op.text ++ ' ' :: (left.text ++ ' ' :: (right.text ++ ')' :: rest))) := by
  simp [text]

/-- What is printed for a leaf is a word, and what is printed for a node is not. -/
theorem text_cases {tree : Expr} (hl : tree.IsLettered) :
    IsWord tree.text ∨ ∃ rest, tree.text = '(' :: rest := by
  cases tree with
  | literal z column => exact .inl z.isWord_text
  | var name column => exact .inl (isWord_of_isAlphabetic hl.var)
  | unary op operand column => exact .inr ⟨_, rfl⟩
  | binary op left right column => exact .inr ⟨_, rfl⟩

/-- A word in front of what a tree ends with is the whole of what is printed for the tree. -/
theorem text_eq_of_isWord {tree : Expr} (hl : tree.IsLettered) {word rest rest' : List Char}
    (hw : IsWord word) (hr : Ends rest) (hr' : Ends rest') (h : word ++ rest = tree.text ++ rest') :
    word = tree.text ∧ rest = rest' := by
  rcases text_cases hl with ht | ⟨more, ht⟩
  · exact hw.append_inj ht hr hr' h
  · rw [ht] at h
    exact absurd h hw.append_ne_node

/-- Leaves that are printed alike are the same. -/
theorem same_of_isWord {tree tree' : Expr} (hl : tree.IsLettered) (hl' : tree'.IsLettered)
    (hw : IsWord tree.text) (h : tree.text = tree'.text) : tree.same tree' = true := by
  have hnode (rest : List Char) : tree.text ≠ '(' :: rest := by
    rw [← List.append_nil tree.text]
    exact hw.append_ne_node
  cases tree with
  | literal z column =>
    cases tree' with
    | literal w column' => exact Complex.same_of_text_eq h
    | var name column' => exact absurd h (z.text_ne_letter hl'.var)
    | unary op operand column' => exact absurd h (hnode _)
    | binary op left right column' => exact absurd h (hnode _)
  | var name column =>
    cases tree' with
    | literal w column' => exact absurd h.symm (w.text_ne_letter hl.var)
    | var name' column' => exact decide_eq_true (List.cons.inj h).1
    | unary op operand column' => exact absurd h (hnode _)
    | binary op left right column' => exact absurd h (hnode _)
  | unary op operand column => exact absurd rfl (hnode _)
  | binary op left right column => exact absurd rfl (hnode _)

/-- What is printed of a tree tells where it ends, and which tree it is. -/
theorem same_of_text_append {tree tree' : Expr} (hl : tree.IsLettered) (hl' : tree'.IsLettered)
    {rest rest' : List Char} (hr : Ends rest) (hr' : Ends rest')
    (h : tree.text ++ rest = tree'.text ++ rest') : tree.same tree' = true ∧ rest = rest' := by
  have hblank (rest : List Char) : Ends (' ' :: rest) := ends_cons (by decide) rest
  have hclosing (rest : List Char) : Ends (')' :: rest) := ends_cons (by decide) rest
  -- What stands behind an operand is part of the statement, so the next operand can be read from
  -- there.
  induction tree generalizing tree' rest rest' with
  | literal z column =>
    obtain ⟨ht, hrest⟩ := text_eq_of_isWord hl' z.isWord_text hr hr' h
    exact ⟨same_of_isWord hl hl' z.isWord_text ht, hrest⟩
  | var name column =>
    have hw : IsWord [name] := isWord_of_isAlphabetic hl.var
    obtain ⟨ht, hrest⟩ := text_eq_of_isWord hl' hw hr hr' h
    exact ⟨same_of_isWord hl hl' hw ht, hrest⟩
  | unary op operand column ih =>
    rw [text_unary_append] at h
    cases tree' with
    | literal w column' => exact absurd h.symm w.isWord_text.append_ne_node
    | var name' column' => exact absurd h.symm (isWord_of_isAlphabetic hl'.var).append_ne_node
    | unary op' operand' column' =>
      rw [text_unary_append] at h
      obtain ⟨hop, h⟩ := op.isWord_text.append_inj op'.isWord_text (hblank _) (hblank _)
        (List.cons.inj h).2
      obtain ⟨hs, h⟩ := ih hl hl'.operand (hclosing _) (hclosing _) (List.cons.inj h).2
      refine ⟨?_, (List.cons.inj h).2⟩
      rw [same, hs, Bool.and_true]
      exact decide_eq_true (UnaryOperator.text_inj hop)
    | binary op' left' right' column' =>
      rw [text_binary_append] at h
      have hop := (op.isWord_text.append_inj op'.isWord_text (hblank _) (hblank _)
        (List.cons.inj h).2).1
      exact absurd hop (op.text_ne op')
  | binary op left right column ihl ihr =>
    rw [text_binary_append] at h
    cases tree' with
    | literal w column' => exact absurd h.symm w.isWord_text.append_ne_node
    | var name' column' => exact absurd h.symm (isWord_of_isAlphabetic hl'.var).append_ne_node
    | unary op' operand' column' =>
      rw [text_unary_append] at h
      have hop := (op.isWord_text.append_inj op'.isWord_text (hblank _) (hblank _)
        (List.cons.inj h).2).1
      exact absurd hop.symm (op'.text_ne op)
    | binary op' left' right' column' =>
      rw [text_binary_append] at h
      obtain ⟨hop, h⟩ := op.isWord_text.append_inj op'.isWord_text (hblank _) (hblank _)
        (List.cons.inj h).2
      obtain ⟨hsl, h⟩ := ihl hl.left hl'.left (hblank _) (hblank _) (List.cons.inj h).2
      obtain ⟨hsr, h⟩ := ihr hl.right hl'.right (hclosing _) (hclosing _) (List.cons.inj h).2
      refine ⟨?_, (List.cons.inj h).2⟩
      rw [same, hsl, hsr, Bool.and_true, Bool.and_true]
      exact decide_eq_true (BinaryOperator.text_inj hop)

theorem text_eq_of_same {tree tree' : Expr} (h : tree.same tree' = true) :
    tree.text = tree'.text := by
  fun_induction same tree tree' with
  | case1 z column w column' =>
    exact Complex.text_eq_of_add_zero (Complex.same_iff_add_zero.1 h)
  | case2 name column name' column' =>
    exact congrArg (fun c => [c]) (of_decide_eq_true h)
  | case3 op operand column op' operand' column' ih =>
    obtain ⟨hop, hs⟩ := Bool.and_eq_true_iff.1 h
    rw [text, text, ih hs, of_decide_eq_true hop]
  | case4 op left right column op' left' right' column' ihl ihr =>
    obtain ⟨h, hr⟩ := Bool.and_eq_true_iff.1 h
    obtain ⟨hop, hl⟩ := Bool.and_eq_true_iff.1 h
    rw [text, text, ihl hl, ihr hr, of_decide_eq_true hop]
  | case5 => cases h

end Expr

/-! ## Parsed trees -/

/-- A name is one of the tokens. -/
def IsAmong (name : Char) (tokens : List Placed) : Prop :=
  ∃ column, ⟨.identifier name, column⟩ ∈ tokens

theorem IsAmong.mono {name : Char} {ts us : List Placed} (h : IsAmong name ts) (hs : ts ⊆ us) :
    IsAmong name us :=
  h.imp fun _ hm => hs hm

theorem isAmong_binary {op : BinaryOperator} {left right : Expr} {column : Nat} {name : Char}
    {ts us : List Placed} {t : Placed}
    (hn : name ∈ (Expr.binary op left right column).variableNames)
    (hl : name ∈ left.variableNames → IsAmong name ts)
    (hr : name ∈ right.variableNames → IsAmong name us) : IsAmong name (ts ++ t :: us) := by
  rcases Expr.mem_variableNames_binary.1 hn with hn | hn
  · exact (hl hn).mono (List.subset_append_left ts _)
  · exact (hr hn).mono fun _ hm => List.mem_append_right ts (List.mem_cons_of_mem t hm)

/-- The variables of a tree are names among the tokens that it was read from. -/
theorem Derives.isAmong {reading : Reading} {rule : Rule} {tokens : List Placed}
    {next : Option Token} {tree : Expr} (h : Derives reading rule tokens next tree) {name : Char}
    (hn : name ∈ tree.variableNames) : IsAmong name tokens := by
  induction h with
  | ofTerm _ ih => exact ih hn
  | sum _ _ _ _ ihl ihr => exact isAmong_binary hn ihl ihr
  | ofFactor _ ih => exact ih hn
  | product _ _ _ _ ihl ihr => exact isAmong_binary hn ihl ihr
  | exponent _ _ ihl ihr => exact isAmong_binary hn ihl ihr
  | base _ _ ih => exact ih hn
  | chain _ _ ihl ihr => exact isAmong_binary hn ihl ihr
  | group _ _ ih => exact (ih hn).mono (by simp)
  | @raisedGroup opening closing column ts us _ l r _ _ ihl ihr =>
    have hts (h : name ∈ l.variableNames) : IsAmong name (⟨.opening, opening⟩ :: ts) :=
      (ihl h).mono (List.subset_cons_self _ _)
    have hus (h : name ∈ r.variableNames) : IsAmong name (⟨.power, column⟩ :: us) :=
      (ihr h).mono (List.subset_cons_self _ _)
    exact isAmong_binary hn hts hus
  | root _ ih => exact (ih hn).mono (by simp)
  | conj _ ih => exact (ih hn).mono fun _ hm => by simp [hm]
  | real _ _ => cases hn
  | imaginary _ => cases hn
  | unit => cases hn
  | name _ =>
    cases List.mem_singleton.1 hn
    exact ⟨_, List.mem_singleton_self _⟩

theorem isAlphabetic_of_tokenize {mode : Mode} {source : List Char} {tokens : List Placed}
    (h : tokenize mode source = .ok tokens) {name : Char} (hn : IsAmong name tokens) :
    Text.isAlphabetic name := by
  obtain ⟨column, hm⟩ := hn
  obtain ⟨before, after, hs⟩ := List.append_of_mem hm
  have hc : IsCut source (cut (cells source)) := isCut_iff.2 rfl
  have ho : Placed.Origin (cut (cells source)) ([] ++ before) ⟨.identifier name, column⟩ :=
    origin_of_tokensFrom (fun _ => not_endsUnopened_nil)
      ((eq_tokensFrom_of_tokenize h).symm.trans hs)
  cases ho with
  | piece hp =>
    obtain ⟨rest, ha, -⟩ := hc.maximal hp
    exact ha
  | zero hz => cases hz

theorem isLettered_of_parse {mode : Mode} {source : List Char} {tree : Expr}
    (h : parse mode source = .ok tree) : tree.IsLettered := by
  obtain ⟨tokens, ht, hd⟩ := parse_eq_ok_iff.1 h
  exact fun name hn => isAlphabetic_of_tokenize ht (hd.isAmong hn)

/-- **The printed form of a tree says which tree it is.**  Two trees whose names are letters are
printed alike exactly if they are the same up to columns, with literals that are the same numbers;
and so are any two trees that were parsed. -/
theorem text_determines_tree (tree tree' : Expr) :
    (tree.IsLettered → tree'.IsLettered → (tree.text = tree'.text ↔ tree.same tree' = true)) ∧
    ∀ mode source mode' source', parse mode source = .ok tree → parse mode' source' = .ok tree' →
      (tree.text = tree'.text ↔ tree.same tree' = true) := by
  have hiff (hl : tree.IsLettered) (hl' : tree'.IsLettered) :
      tree.text = tree'.text ↔ tree.same tree' = true := by
    refine ⟨fun h => ?_, Expr.text_eq_of_same⟩
    exact (Expr.same_of_text_append hl hl' ends_nil ends_nil (congrArg (· ++ []) h)).1
  refine ⟨hiff, ?_⟩
  intro mode source mode' source' h h'
  exact hiff (isLettered_of_parse h) (isLettered_of_parse h')

/-- The variable `i` is not printed like the imaginary unit, whose real part may be a zero of either
sign; and the columns of a parsed tree are not printed. -/
theorem text_determines_tree_units :
    let difference (z : Complex) (name : Char) : Expr := .binary .sub (.literal z 1) (.var name 5) 3
    ((difference .i 'i').IsLettered ∧ (difference ⟨-.zero, .one⟩ 'i').IsLettered ∧
      (difference .i 'i').text = (difference ⟨-.zero, .one⟩ 'i').text) ∧
    ((Expr.literal .i 1).IsLettered ∧ (Expr.var 'i' 1).IsLettered ∧
      (Expr.literal .i 1).text ≠ (Expr.var 'i' 1).text) ∧
    parse .strict "x* *1 0".toList = .ok (tenthPower 1 2 5) ∧
    parse .strict " x**10".toList = .ok (tenthPower 2 3 5) ∧
    (tenthPower 1 2 5).text = (tenthPower 2 3 5).text := by
  intro difference
  have hname : ∀ name ∈ ['i'], Text.isAlphabetic name := by decide +kernel
  have hp : parse .strict "x* *1 0".toList = .ok (tenthPower 1 2 5) :=
    parse_tenthPower (by decide +kernel)
  have hp' : parse .strict " x**10".toList = .ok (tenthPower 2 3 5) :=
    parse_tenthPower (by decide +kernel)
  have hl (z : Complex) : (difference z 'i').IsLettered := hname
  have hunit : (Expr.literal .i 1).IsLettered := fun name hn => absurd hn (List.not_mem_nil)
  have hvar : (Expr.var 'i' 1).IsLettered := hname
  refine ⟨⟨hl _, hl _, ?_⟩, ⟨hunit, hvar, ?_⟩, hp, hp', ?_⟩
  · exact ((text_determines_tree _ _).1 (hl _) (hl _)).2 (by decide +kernel)
  · exact fun h => absurd (((text_determines_tree _ _).1 hunit hvar).1 h) (by decide)
  · exact ((text_determines_tree _ _).2 _ _ _ _ hp hp').2 (by decide +kernel)

end Argand
