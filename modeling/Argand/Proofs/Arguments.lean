import Argand.Shell.CommandLine

/-!
Command lines with an expression behind the options.

Arguments are read from left to right, and what is read so far is all that the next one meets.  So
an argument behind the others is read as if it were alone (`read_append`).  If it is an expression
it is refused only where two have come in a row already, and there are never more in a row than
there are (`Reading.Counted`).

Main statement: options without an expression, and an argument behind them that does not begin with
a minus sign, are these options with the argument as the one expression (`ofArguments?_append`).
-/

namespace Argand

namespace CommandLine

/-! ## How many expressions there are in a row -/

/-- No more expressions have come in a row than have come at all. -/
def Reading.Counted (reading : Reading) : Prop := reading.inRow ≤ reading.expressions.length

section

variable {reading reading' : Reading} {awaits : Bool}

theorem counted_addExpression {text : List Char} (hc : reading.Counted)
    (h : reading.addExpression text = some reading') : reading'.Counted := by
  unfold Reading.addExpression at h
  split at h
  · cases h
  · cases h
    have hlength : (reading.expressions ++ [text]).length = reading.expressions.length + 1 :=
      List.length_append
    exact Nat.le_trans (Nat.succ_le_succ hc) (Nat.le_of_eq hlength.symm)

theorem counted_setStrict (h : reading.setStrict = some reading') : reading'.Counted := by
  unfold Reading.setStrict at h
  split at h <;> cases h
  exact Nat.zero_le _

theorem counted_setVerbose (h : reading.setVerbose = some reading') : reading'.Counted := by
  unfold Reading.setVerbose at h
  split at h <;> cases h
  exact Nat.zero_le _

theorem counted_setTolerance {text : List Char} (h : reading.setTolerance text = some reading') :
    reading'.Counted := by
  unfold Reading.setTolerance at h
  split at h
  · cases h
  · obtain ⟨x, -, rfl⟩ := Option.map_eq_some_iff.1 h
    exact Nat.zero_le _

theorem counted_long {name : List Char} (hc : reading.Counted)
    (h : long reading name = some (reading', awaits)) : reading'.Counted := by
  unfold long at h
  split at h
  · obtain ⟨next, hn, he⟩ := Option.map_eq_some_iff.1 h
    cases he
    exact counted_setStrict hn
  split at h
  · obtain ⟨next, hn, he⟩ := Option.map_eq_some_iff.1 h
    cases he
    exact counted_setVerbose hn
  split at h
  · cases h
    exact hc
  split at h
  · obtain ⟨next, hn, he⟩ := Option.map_eq_some_iff.1 h
    cases he
    exact counted_setTolerance hn
  · cases h

theorem counted_short {names : List Char} (hc : reading.Counted)
    (h : short reading names = some (reading', awaits)) : reading'.Counted := by
  fun_induction short reading names with
  | case1 reading =>
    cases h
    exact hc
  | case2 reading names ih =>
    obtain ⟨next, hn, hs⟩ := Option.bind_eq_some_iff.1 h
    exact ih next (counted_setStrict hn) hs
  | case3 reading names ih =>
    obtain ⟨next, hn, hs⟩ := Option.bind_eq_some_iff.1 h
    exact ih next (counted_setVerbose hn) hs
  | case4 reading =>
    cases h
    exact hc
  | case5 reading value =>
    obtain ⟨next, hn, he⟩ := Option.map_eq_some_iff.1 h
    cases he
    exact counted_setTolerance hn
  | case6 reading value =>
    obtain ⟨next, hn, he⟩ := Option.map_eq_some_iff.1 h
    cases he
    exact counted_setTolerance hn
  | case7 => cases h

theorem counted_foldlM {texts : List (List Char)} (hc : reading.Counted)
    (h : texts.foldlM Reading.addExpression reading = some reading') : reading'.Counted := by
  induction texts generalizing reading with
  | nil =>
    cases h
    exact hc
  | cons text texts ih =>
    rw [List.foldlM_cons] at h
    obtain ⟨next, hn, hs⟩ := Option.bind_eq_some_iff.1 h
    exact ih (counted_addExpression hc hn) hs

theorem counted_read {flags : List (List Char)} (hc : reading.Counted)
    (h : read reading awaits flags = some reading') : reading'.Counted := by
  fun_induction read reading awaits flags with
  | case1 => cases h
  | case2 =>
    cases h
    exact hc
  | case3 => cases h
  | case4 reading argument rest _ ih =>
    obtain ⟨next, hn, hs⟩ := Option.bind_eq_some_iff.1 h
    exact ih next (counted_setTolerance hn) hs
  | case5 => exact counted_foldlM hc h
  | case6 reading awaits rest _ name _ ih =>
    obtain ⟨⟨next, awaits⟩, hn, hs⟩ := Option.bind_eq_some_iff.1 h
    exact ih next awaits (counted_long hc hn) hs
  | case7 reading awaits rest _ name names _ _ ih =>
    obtain ⟨⟨next, awaits⟩, hn, hs⟩ := Option.bind_eq_some_iff.1 h
    exact ih next awaits (counted_short hc hn) hs
  | case8 reading awaits rest _ expression _ _ _ ih =>
    obtain ⟨next, hn, hs⟩ := Option.bind_eq_some_iff.1 h
    exact ih next (counted_addExpression hc hn) hs

end

/-! ## One more argument -/

theorem read_expression {argument : List Char} (h : argument.head? ≠ some '-') (reading : Reading)
    (rest : List (List Char)) : read reading false (argument :: rest) =
      (reading.addExpression argument).bind fun reading => read reading false rest := by
  rw [read]
  · rfl
  · rintro rfl
    exact h rfl
  · rintro name rfl
    exact h rfl
  · rintro name names rfl
    exact h rfl

/-- An argument without a minus sign in front is one more expression. -/
theorem read_append {argument : List Char} (h : argument.head? ≠ some '-')
    (flags : List (List Char)) (reading : Reading) (awaits : Bool) {reading' : Reading}
    (hr : read reading awaits flags = some reading') :
    read reading awaits (flags ++ [argument]) = reading'.addExpression argument := by
  fun_induction read reading awaits flags with
  | case1 => cases hr
  | case2 reading awaits ha =>
    cases hr
    rw [List.nil_append, Bool.eq_false_iff.2 ha, read_expression h]
    cases reading'.addExpression argument <;> rfl
  | case3 => cases hr
  | case4 reading value rest ho ih =>
    obtain ⟨next, hn, hs⟩ := Option.bind_eq_some_iff.1 hr
    rw [List.cons_append, read.eq_def]
    dsimp only
    rw [if_pos rfl, if_neg ho, hn]
    exact ih next hs
  | case5 reading awaits rest ha =>
    rw [List.cons_append, read, if_neg ha, List.foldlM_append, hr]
    show (reading'.addExpression argument).bind _ = _
    cases reading'.addExpression argument <;> rfl
  | case6 reading awaits rest ha name hne ih =>
    obtain ⟨⟨next, awaits'⟩, hn, hs⟩ := Option.bind_eq_some_iff.1 hr
    rw [List.cons_append, read, if_neg ha, hn]
    · exact ih next awaits' hs
    · exact hne
  | case7 reading awaits rest ha name names hne hminus ih =>
    obtain ⟨⟨next, awaits'⟩, hn, hs⟩ := Option.bind_eq_some_iff.1 hr
    rw [List.cons_append, read, if_neg ha, hn]
    · exact ih next awaits' hs
    · exact hne
    · exact hminus
  | case8 reading awaits rest ha expression h₁ h₂ h₃ ih =>
    obtain ⟨next, hn, hs⟩ := Option.bind_eq_some_iff.1 hr
    rw [List.cons_append, read, if_neg ha, hn]
    · exact ih next hs
    · exact h₁
    · exact h₂
    · exact h₃

/-- Options, and one expression behind them. -/
theorem ofArguments?_append {flags : List (List Char)} {options : Options}
    (h : ofArguments? flags = some (options, [])) {argument : List Char}
    (ha : argument.head? ≠ some '-') :
    ofArguments? (flags ++ [argument]) = some (options, [argument]) := by
  obtain ⟨reading, hr, ho⟩ := Option.map_eq_some_iff.1 h
  obtain ⟨rfl, hnone⟩ := Prod.mk.inj ho
  have hrow : reading.inRow = 0 := by
    have hc : Reading.empty.Counted := Nat.zero_le 0
    have := counted_read hc hr
    rw [Reading.Counted, hnone] at this
    exact Nat.eq_zero_of_le_zero this
  have hadd : reading.addExpression argument =
      some { reading with expressions := [argument], inRow := 1 } := by
    rw [Reading.addExpression, hrow, hnone]
    rfl
  rw [ofArguments?, read_append ha flags _ _ hr, hadd]
  rfl

end CommandLine

end Argand
