import Argand.Proofs.Grammar
import Argand.Proofs.Relabelling

/-!
Blanks change columns and nothing else.

The characters of a text that are no blanks are those of the text without its blanks, at other
columns: the `k`-th of them stands at `columnOf source k` (`standsAt_columnOf`).  Since no step
looks at columns, a blank may stand anywhere, inside a number, inside `conj`, between the two stars
of a power or in front of a sign, and the text is still parsed as it would be without it.

Main statement: what comes of a text is what comes of it without its blanks, at the columns of the
text as it was written.  So texts that differ in blanks have the same tree, or fail for the same
reason, and are evaluated with the same questions to the same result, up to the columns
(`parse_ignores_blanks`).
-/

namespace Argand

/-! ## Where the characters of a text without blanks stand in it -/

/-- The column of the `k`-th character of a text that is no blank, counted from one. -/
def columnOf : List Char → Nat → Nat
  | [], _ => 0
  | c :: rest, k =>
    if Text.isBlank c then columnOf rest k + 1
    else if k ≤ 1 then 1
    else columnOf rest (k - 1) + 1

/-- The characters with their columns, from any column on. -/
theorem filter_zipIdx (source : List Char) (n : Nat) :
    ((source.zipIdx (n + 1)).filter fun cell => !Text.isBlank cell.1) =
      ((Text.withoutBlanks source).zipIdx 1).map fun cell =>
        (cell.1, columnOf source cell.2 + n) := by
  induction source generalizing n with
  | nil => rfl
  | cons c rest ih =>
    rw [List.zipIdx_cons]
    cases hb : Text.isBlank c with
    | true =>
      have hw : Text.withoutBlanks (c :: rest) = Text.withoutBlanks rest :=
        List.filter_cons_of_neg (by simp [hb])
      rw [List.filter_cons_of_neg (by simp [hb]), ih, hw]
      refine List.map_congr_left fun cell _ => ?_
      rw [columnOf, if_pos hb]
      congr 1
      omega
    | false =>
      have hw : Text.withoutBlanks (c :: rest) = c :: Text.withoutBlanks rest :=
        List.filter_cons_of_pos (by simp [hb])
      have hn : ¬Text.isBlank c = true := by simp [hb]
      have hs : (Text.withoutBlanks rest).zipIdx (1 + 1) =
          ((Text.withoutBlanks rest).zipIdx 1).map fun cell => (cell.1, cell.2 + 1) :=
        List.zipIdx_succ
      rw [List.filter_cons_of_pos (by simp [hb]), ih, hw, List.zipIdx_cons, List.map_cons, hs,
        List.map_map]
      congr 1
      · rw [columnOf, if_neg hn, if_pos (Nat.le_refl 1), Nat.add_comm]
      · refine List.map_congr_left fun cell hm => ?_
        have hpos : 1 ≤ cell.2 := List.le_snd_of_mem_zipIdx hm
        show _ = (cell.1, columnOf (c :: rest) (cell.2 + 1) + n)
        rw [columnOf, if_neg hn, if_neg (by omega), Nat.add_sub_cancel]
        congr 1
        omega

theorem cells_withoutBlanks (source : List Char) :
    cells (Text.withoutBlanks source) = (Text.withoutBlanks source).zipIdx 1 := by
  refine List.filter_eq_self.2 fun cell hm => ?_
  have hc : cell.1 ∈ Text.withoutBlanks source := List.fst_mem_of_mem_zipIdx hm
  exact (List.mem_filter.1 hc).2

/-- A text has the characters that it has without its blanks, at other columns. -/
theorem cells_eq_map (source : List Char) :
    cells source =
      (cells (Text.withoutBlanks source)).map (Prod.map id (columnOf source)) := by
  rw [cells_withoutBlanks]
  exact filter_zipIdx source 0

theorem standsAt_columnOf {source before after : List Char} {c : Char}
    (h : Text.withoutBlanks source = before ++ c :: after) :
    StandsAt source before c (columnOf source (before.length + 1)) := by
  refine standsAt_iff.2 ⟨(before.zipIdx 1).map (Prod.map id (columnOf source)),
    (after.zipIdx (before.length + 2)).map (Prod.map id (columnOf source)), ?_, ?_⟩
  · rw [cells_eq_map, cells_withoutBlanks, h, List.zipIdx_append, List.zipIdx_cons, List.map_append,
      List.map_cons, Nat.add_comm 1]
    rfl
  · rw [List.map_map]
    exact List.zipIdx_map_fst 1 before

/-! ## Texts that differ in blanks -/

/-- Nothing is left of a change of columns when there are none. -/
theorem relabelled_noColumn (f : Nat → Nat) (outcome : Except ParseError Expr) :
    relabelled noColumn (Expr.mapColumns noColumn) (relabelled f (Expr.mapColumns f) outcome) =
      relabelled noColumn (Expr.mapColumns noColumn) outcome := by
  cases outcome with
  | error e => cases e <;> rfl
  | ok tree => exact congrArg Except.ok (tree.mapColumns_mapColumns f noColumn)

theorem parse_eq_relabelled (mode : Mode) (source : List Char) :
    parse mode source = relabelled (columnOf source) (Expr.mapColumns (columnOf source))
      (parse mode (Text.withoutBlanks source)) :=
  parse_of_cells (columnOf source) (cells_eq_map source) mode

theorem relabelled_parse_eq {source other : List Char}
    (h : Text.withoutBlanks other = Text.withoutBlanks source) (mode : Mode) :
    relabelled noColumn (Expr.mapColumns noColumn) (parse mode other) =
      relabelled noColumn (Expr.mapColumns noColumn) (parse mode source) := by
  rw [parse_eq_relabelled mode other, parse_eq_relabelled mode source, relabelled_noColumn,
    relabelled_noColumn, h]

/-- Trees that differ in columns are evaluated alike, the column of an error apart. -/
theorem Expr.eval_of_noColumn {σ : Type} {tree tree' : Expr}
    (h : tree'.mapColumns noColumn = tree.mapColumns noColumn) (resolver : Resolver σ)
    (environment : Environment) (state : σ) :
    (tree'.eval resolver environment state).withoutColumn =
      (tree.eval resolver environment state).withoutColumn := by
  rw [← tree'.eval_mapColumns noColumn, h, tree.eval_mapColumns noColumn]

/-- **Blanks change columns and nothing else.**  What comes of a text is what comes of it without
its blanks, with each column `k` replaced by the one at which the `k`-th character that is no blank
stands in the text.  Texts that are the same without blanks have the same tree or the same error up
to columns, and with every resolver and environment their trees get the same questions answered,
leave the same environment and have the same result up to the column of an error. -/
theorem parse_ignores_blanks (mode : Mode) (source : List Char) :
    (∀ before c after, Text.withoutBlanks source = before ++ c :: after →
      StandsAt source before c (columnOf source (before.length + 1))) ∧
    parse mode source = relabelled (columnOf source) (Expr.mapColumns (columnOf source))
      (parse mode (Text.withoutBlanks source)) ∧
    ∀ other, Text.withoutBlanks other = Text.withoutBlanks source →
      relabelled noColumn (Expr.mapColumns noColumn) (parse mode other) =
        relabelled noColumn (Expr.mapColumns noColumn) (parse mode source) ∧
      ∀ tree tree', parse mode source = .ok tree → parse mode other = .ok tree' →
        ∀ (σ : Type) (resolver : Resolver σ) (environment : Environment) (state : σ),
          let run := tree.eval resolver environment state
          let run' := tree'.eval resolver environment state
          run'.asked = run.asked ∧ run'.environment = run.environment ∧ run'.state = run.state ∧
            withoutColumn run'.result = withoutColumn run.result := by
  refine ⟨fun before c after => standsAt_columnOf, parse_eq_relabelled mode source, ?_⟩
  intro other h
  have hp := relabelled_parse_eq h mode
  refine ⟨hp, ?_⟩
  intro tree tree' ht ht' σ resolver environment state
  rw [ht, ht'] at hp
  have hc : tree'.mapColumns noColumn = tree.mapColumns noColumn := Except.ok.inj hp
  obtain ⟨hr, he, hs, hl⟩ := Evaluation.withoutColumn_eq_iff.1
    (Expr.eval_of_noColumn hc resolver environment state)
  exact ⟨congrArg (List.filterMap Lookup.question?) hl, he, hs, hr⟩

/-- The tree of `x**10`, with the columns of the variable, the power and the number. -/
def tenthPower (x power ten : Nat) : Expr :=
  .binary .pow (.var 'x' x) (.literal (.ofReal (numeralValue ['1', '0'])) ten) power

/-- The tree of a text whose characters are those of `x**10`. -/
theorem parse_tenthPower {source : List Char} {x power ten : Nat}
    (h : cut (cells source) = [(.token (.identifier 'x'), x), (.token .power, power),
      (.token (.number ['1', '0']), ten)]) :
    parse .strict source = .ok (tenthPower x power ten) := by
  have ht : tokenize .strict source =
      .ok [⟨.identifier 'x', x⟩, ⟨.power, power⟩, ⟨.number ['1', '0'], ten⟩] :=
    tokenize_of_cut h rfl .strict
  have hx : Derives .greedy .term [⟨.identifier 'x', x⟩] (some .power) (.var 'x' x) :=
    .ofFactor (.name (by decide))
  have hten : IsNumber ['1', '0'] := ⟨.digit rfl (by simp [IsRun]), by decide⟩
  exact parse_eq_ok_iff.2 ⟨_, ht, .ofTerm (.exponent hx (.base nofun (.real hten nofun)))⟩

/-- A blank in the power and one in the number move only the number, which is behind them. -/
theorem parse_ignores_blanks_power :
    (Text.withoutBlanks "x* *1 0".toList = ['x', '*', '*'] ++ '1' :: ['0'] ∧
      StandsAt "x* *1 0".toList ['x', '*', '*'] '1' (columnOf "x* *1 0".toList 4)) ∧
    Text.withoutBlanks " x**10".toList = Text.withoutBlanks "x* *1 0".toList ∧
    parse .strict "x* *1 0".toList = .ok (tenthPower 1 2 5) ∧
    parse .strict " x**10".toList = .ok (tenthPower 2 3 5) ∧
    let run := (tenthPower 1 2 5).eval .ofAnswers [] ⟨[.i], []⟩
    let run' := (tenthPower 2 3 5).eval .ofAnswers [] ⟨[.i], []⟩
    run'.asked = run.asked ∧ run'.environment = run.environment ∧ run'.state = run.state ∧
      withoutColumn run'.result = withoutColumn run.result := by
  have hw : Text.withoutBlanks "x* *1 0".toList = ['x', '*', '*'] ++ '1' :: ['0'] := by
    decide +kernel
  have hs : Text.withoutBlanks " x**10".toList = Text.withoutBlanks "x* *1 0".toList := by
    decide +kernel
  have hp : parse .strict "x* *1 0".toList = .ok (tenthPower 1 2 5) :=
    parse_tenthPower (by decide +kernel)
  have hp' : parse .strict " x**10".toList = .ok (tenthPower 2 3 5) :=
    parse_tenthPower (by decide +kernel)
  obtain ⟨hc, -, ho⟩ := parse_ignores_blanks .strict "x* *1 0".toList
  exact ⟨⟨hw, hc _ _ _ hw⟩, hs, hp, hp', (ho _ hs).2 _ _ hp hp' _ .ofAnswers [] ⟨[.i], []⟩⟩

end Argand
