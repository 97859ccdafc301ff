import Mathlib.Data.List.DropRight
import Argand.Complex.Literal
import Argand.Evaluation.Error
import Argand.Proofs.Columns
import Argand.Text.Lines

/-!
Messages of one line.

An error is shown by its message, and the message holds no line end, whatever the text was that it
is about.  Where it quotes a part of that text there are three reasons for this:

| | |
| :-- | :-- |
| a token | it was put together from characters that are no blanks, and a line end is one |
| a character that begins no token | it is escaped |
| an answer that is no number | it is a line without the blanks at its ends, so without a line end |

Main statements: `ParseError.Located.oneLine` for a text that is no expression, and
`oneLine_of_refused_line` for an answer.
-/

namespace Argand

/-- A text without a line end. -/
def OneLine (text : String) : Prop := '\n' ∉ text.toList

instance (text : String) : Decidable (OneLine text) := inferInstanceAs (Decidable (¬_))

theorem OneLine.append {s t : String} (hs : OneLine s) (ht : OneLine t) : OneLine (s ++ t) := by
  unfold OneLine
  rw [String.toList_append, List.mem_append]
  exact fun h => h.elim hs ht

theorem oneLine_ofList {text : List Char} (h : '\n' ∉ text) : OneLine (String.ofList text) := by
  unfold OneLine
  rwa [String.toList_ofList]

/-! ## Digits and escapes -/

theorem digitChar_ne_lineEnd (n : Nat) : n.digitChar ≠ '\n' := by
  have hsmall : ∀ m < 16, m.digitChar ≠ '\n' := by decide
  rcases Nat.lt_or_ge n 16 with hlt | hle
  · exact hsmall n hlt
  · rw [Nat.digitChar_eq_star.2 hle]
    decide

theorem not_mem_toDigits {base : Nat} (hb : 1 < base) (n : Nat) : '\n' ∉ Nat.toDigits base n := by
  induction n using Nat.strongRecOn with
  | ind n ih =>
    have hlast (m : Nat) : '\n' ∉ [m.digitChar] := fun h =>
      digitChar_ne_lineEnd m (List.mem_singleton.1 h).symm
    rcases Nat.lt_or_ge n base with hlt | hle
    · rw [Nat.toDigits_of_lt_base hlt]
      exact hlast n
    · have hdiv : n / base < n := Nat.div_lt_self (by omega) hb
      rw [Nat.toDigits_of_base_le hb hle, List.mem_append]
      exact fun h => h.elim (ih _ hdiv) (hlast _)

theorem oneLine_toString (n : Nat) : OneLine (toString n) :=
  oneLine_ofList (not_mem_toDigits (by decide) n)

/-- A quoted character shows a line end by an escape. -/
theorem not_mem_quotedChar (c : Char) : '\n' ∉ Text.quotedChar c := by
  have hescaped : '\n' ∉ Text.escaped '\'' c := by
    by_cases hn : c = '\n'
    · subst hn
      decide
    · have hne : '\n' ≠ c := Ne.symm hn
      have hcode : '\n' ∉ Text.codePoint c := by
        simpa [Text.codePoint] using not_mem_toDigits (by decide) c.toNat
      unfold Text.escaped
      split
      · decide
      split
      · decide
      split
      · decide
      split
      · simpa using hne
      split
      · simpa using hne
      · exact hcode
  simpa [Text.quotedChar] using hescaped

/-! ## Errors of a text -/

theorem not_mem_withoutBlanks (text : List Char) : '\n' ∉ Text.withoutBlanks text := by
  intro h
  exact absurd (List.mem_filter.1 h).2 (by decide)

theorem WrittenAt.not_mem {source word : List Char} {column : Nat}
    (h : WrittenAt source word column) : '\n' ∉ word :=
  fun hm => not_mem_withoutBlanks _ (h.text.subset hm)

/-- What an error says about a text is one line. -/
theorem ParseError.Located.oneLine {source : List Char} {e : ParseError} (h : e.Located source) :
    OneLine e.message := by
  have hcolumn (column : Nat) {what : String} (hw : OneLine what) :
      OneLine ("Error at column " ++ toString column ++ what) :=
    (OneLine.append (by decide) (oneLine_toString column)).append hw
  cases e with
  | endOfInput => exact (by decide : OneLine "Incomplete expression.")
  | unexpectedToken token column =>
    have ht := oneLine_ofList (WrittenAt.not_mem h)
    exact ((hcolumn column (by decide)).append ht).append (by decide)
  | unclosedGroup column => exact hcolumn column (by decide)
  | conjWithoutGroup column => exact hcolumn column (by decide)
  | unclosedConj column => exact hcolumn column (by decide)
  | trailingTokens token column =>
    exact (hcolumn column (by decide)).append (oneLine_ofList (WrittenAt.not_mem h))
  | unrecognizedCharacter character column =>
    have hc := oneLine_ofList (not_mem_quotedChar character)
    exact ((hcolumn column (by decide)).append hc).append (by decide)

/-! ## Errors of an answer -/

namespace Text

/-- A line has its line end at its end only. -/
theorem lineEnd_notMem_dropLast (bytes : List UInt8) : lineEnd ∉ (splitLine bytes).1.dropLast := by
  induction bytes with
  | nil => exact List.not_mem_nil
  | cons b bytes ih =>
    by_cases hb : b = lineEnd
    · rw [splitLine, if_pos hb]
      exact List.not_mem_nil
    · rw [splitLine, if_neg hb]
      dsimp only
      cases hl : (splitLine bytes).1 with
      | nil => exact List.not_mem_nil
      | cons b' line =>
        rw [hl] at ih
        rw [List.dropLast_cons_cons, List.mem_cons]
        exact fun h => h.elim (Ne.symm hb) ih

theorem eq_flatMap_of_decode? {bytes : List UInt8} {text : List Char}
    (h : decode? bytes = some text) :
    bytes = text.flatMap String.utf8EncodeChar := by
  unfold decode? String.fromUTF8? at h
  split at h
  · next hv =>
    obtain rfl := Option.some.inj h
    exact List.toByteArray_inj.1 (String.utf8Encode_toList (b := .fromUTF8 _ hv)).symm
  · cases h

/-- A blank inside a text without the blanks at its ends has something behind it. -/
theorem exists_behind_of_trimmed {text front back : List Char} {c : Char} (hc : isBlank c = true)
    (h : trimmed text = front ++ c :: back) :
    ∃ before after, text = before ++ c :: after ∧ after ≠ [] := by
  have hr : (text.dropWhile isBlank).rdropWhile isBlank = front ++ c :: back := h
  have hback : back ≠ [] := by
    rintro rfl
    have hne : (text.dropWhile isBlank).rdropWhile isBlank ≠ [] := by
      rw [hr]
      exact List.append_ne_nil_of_right_ne_nil _ (List.cons_ne_nil c [])
    have hlast := List.rdropWhile_last_not isBlank _ hne
    simp only [hr, List.getLast_append, List.getLast_singleton] at hlast
    exact hlast hc
  refine ⟨text.takeWhile isBlank ++ front, back ++ (text.dropWhile isBlank).rtakeWhile isBlank, ?_,
    List.append_ne_nil_of_left_ne_nil hback _⟩
  calc text = text.takeWhile isBlank ++ text.dropWhile isBlank :=
        List.takeWhile_append_dropWhile.symm
    _ = text.takeWhile isBlank ++
        (front ++ c :: back ++ (text.dropWhile isBlank).rtakeWhile isBlank) := by
      rw [← hr, List.rdropWhile_append_rtakeWhile]
    _ = _ := by simp

/-- A line without the blanks at its ends has no line end any more. -/
theorem not_mem_trimmed_line {bytes : List UInt8} {line : List Char}
    (h : decode? (splitLine bytes).1 = some line) : '\n' ∉ trimmed line := by
  intro hm
  obtain ⟨front, back, hs⟩ := List.append_of_mem hm
  obtain ⟨before, after, rfl, ha⟩ := exists_behind_of_trimmed (by decide) hs
  have hbytes : (splitLine bytes).1 =
      before.flatMap String.utf8EncodeChar ++ lineEnd :: after.flatMap String.utf8EncodeChar := by
    rw [eq_flatMap_of_decode? h, List.flatMap_append, List.flatMap_cons]
    rfl
  have hafter : after.flatMap String.utf8EncodeChar ≠ [] := by
    obtain ⟨c, rest, rfl⟩ := List.exists_cons_of_ne_nil ha
    rw [List.flatMap_cons]
    exact List.append_ne_nil_of_left_ne_nil String.utf8EncodeChar_ne_nil _
  refine lineEnd_notMem_dropLast bytes ?_
  rw [hbytes, List.dropLast_append_cons, List.dropLast_cons_of_ne_nil hafter]
  exact List.mem_append_right _ List.mem_cons_self

end Text

/-- The message of an answer that is no number is one line. -/
theorem oneLine_of_refused_line {bytes : List UInt8} {line : List Char} {e : Complex.LiteralError}
    (h : Text.decode? (Text.splitLine bytes).1 = some line) (he : Complex.ofText line = .error e) :
    OneLine e.message := by
  have hrefused : e.refused = Text.trimmed line := by
    unfold Complex.ofText at he
    split at he
    · cases he
    · cases he
      rfl
  have hline := oneLine_ofList (Text.not_mem_trimmed_line h)
  unfold Complex.LiteralError.message
  rw [hrefused]
  exact (OneLine.append (by decide) hline).append (by decide)

/-- The message of a variable without a value is one line if the reason is. -/
theorem oneLine_unresolved {name : Char} {reason : String} (hn : name ≠ '\n')
    (hr : OneLine reason) :
    OneLine (EvaluationError.unresolved name reason).message := by
  have hname : OneLine (String.singleton name) := by
    unfold OneLine
    rw [String.toList_singleton, List.mem_singleton]
    exact Ne.symm hn
  exact (((OneLine.append (by decide) hname).append (by decide)).append hr).append (by decide)

theorem oneLine_divisionByZero (column : Nat) :
    OneLine (EvaluationError.divisionByZero column).message :=
  (OneLine.append (by decide) (oneLine_toString column)).append (by decide)

end Argand
