import Argand.Text.Lines

/-!
The lines of an input.

A stream of bytes can be cut into lines in one way only: each goes up to a line end and has it, and
what is behind the last line end is a line too, unless there is nothing (`isLines_iff`).  To take a
line from the stream is to take the first of them (`lines_eq_cons`), so what is left behind so many
lines are the others (`flatten_drop_lines`).
-/

namespace Argand

namespace Text

/-! ## Cutting into lines -/

/-- The lines of a stream of bytes, each with its line end; the last one may lack it. -/
def lines : List UInt8 → List (List UInt8)
  | [] => []
  | b :: bytes =>
    if b = lineEnd then [b] :: lines bytes
    else match lines bytes with
      | [] => [[b]]
      | line :: rest => (b :: line) :: rest

/-- The bytes are these lines: each goes up to the next line end and has it, and what is behind the
last line end is a line too, unless there is nothing. -/
inductive IsLines : List UInt8 → List (List UInt8) → Prop
  | nil : IsLines [] []
  | last {line : List UInt8} : line ≠ [] → lineEnd ∉ line → IsLines line [line]
  | cons {line bytes : List UInt8} {rest : List (List UInt8)} :
      lineEnd ∉ line → IsLines bytes rest →
      IsLines (line ++ lineEnd :: bytes) ((line ++ [lineEnd]) :: rest)

theorem lines_cons_of_ne {b : UInt8} (hb : b ≠ lineEnd) {bytes line : List UInt8}
    {rest : List (List UInt8)} (h : lines bytes = line :: rest) :
    lines (b :: bytes) = (b :: line) :: rest := by
  rw [lines, if_neg hb, h]

theorem isLines_lines (bytes : List UInt8) : IsLines bytes (lines bytes) := by
  induction bytes with
  | nil => exact .nil
  | cons b bytes ih =>
    by_cases hb : b = lineEnd
    · rw [lines, if_pos hb, hb]
      exact .cons List.not_mem_nil ih
    · have hb' : lineEnd ≠ b := Ne.symm hb
      rw [lines, if_neg hb]
      generalize lines bytes = ls at ih
      cases ih with
      | nil => exact .last (List.cons_ne_nil b []) (by simpa using hb')
      | last hne hl => exact .last (List.cons_ne_nil b _) (by simp [hb', hl])
      | cons hl hr => exact .cons (show lineEnd ∉ b :: _ by simp [hb', hl]) hr

theorem lines_last {line : List UInt8} (hne : line ≠ []) (h : lineEnd ∉ line) :
    lines line = [line] := by
  induction line with
  | nil => exact absurd rfl hne
  | cons b line ih =>
    obtain ⟨hb, hl⟩ := not_or.1 (mt List.mem_cons.2 h)
    rcases line with _ | ⟨b', line⟩
    · rw [lines, if_neg (Ne.symm hb)]
      rfl
    · exact lines_cons_of_ne (Ne.symm hb) (ih (List.cons_ne_nil b' line) hl)

theorem lines_append_lineEnd {line : List UInt8} (h : lineEnd ∉ line) (bytes : List UInt8) :
    lines (line ++ lineEnd :: bytes) = (line ++ [lineEnd]) :: lines bytes := by
  induction line with
  | nil => rfl
  | cons b line ih =>
    obtain ⟨hb, hl⟩ := not_or.1 (mt List.mem_cons.2 h)
    exact lines_cons_of_ne (Ne.symm hb) (ih hl)

/-- An input can be cut into lines in one way only. -/
theorem isLines_iff {bytes : List UInt8} {ls : List (List UInt8)} :
    IsLines bytes ls ↔ ls = lines bytes := by
  constructor
  · intro h
    induction h with
    | nil => rfl
    | last hne hl => exact (lines_last hne hl).symm
    | cons hl _ ih => rw [lines_append_lineEnd hl, ih]
  · rintro rfl
    exact isLines_lines bytes

theorem IsLines.flatten {bytes : List UInt8} {ls : List (List UInt8)} (h : IsLines bytes ls) :
    ls.flatten = bytes := by
  induction h with
  | nil => rfl
  | last => simp
  | cons _ _ ih => simp [ih]

theorem flatten_lines (bytes : List UInt8) : (lines bytes).flatten = bytes :=
  (isLines_lines bytes).flatten

/-- The first line is split off. -/
theorem lines_eq_cons {bytes : List UInt8} (h : bytes ≠ []) :
    lines bytes = (splitLine bytes).1 :: lines (splitLine bytes).2 := by
  induction bytes with
  | nil => exact absurd rfl h
  | cons b bytes ih =>
    by_cases hb : b = lineEnd
    · rw [lines, if_pos hb, splitLine, if_pos hb]
    · rw [splitLine, if_neg hb]
      rcases bytes with _ | ⟨b', bytes⟩
      · rw [lines, if_neg hb]
        rfl
      · exact lines_cons_of_ne hb (ih (List.cons_ne_nil b' bytes))

theorem lines_splitLine (bytes : List UInt8) : lines (splitLine bytes).2 = (lines bytes).tail := by
  by_cases h : bytes = []
  · subst h
    rfl
  · rw [lines_eq_cons h, List.tail_cons]

/-! ## Taking lines -/

/-- The number of lines; the last one may lack its line end. -/
def lineCount (bytes : List UInt8) : Nat := (lines bytes).length

/-- What is left behind so many lines. -/
def dropLines : Nat → List UInt8 → List UInt8
  | 0, bytes => bytes
  | k + 1, bytes => dropLines k (splitLine bytes).2

theorem dropLines_add (j k : Nat) (bytes : List UInt8) :
    dropLines (j + k) bytes = dropLines k (dropLines j bytes) := by
  induction j generalizing bytes with
  | zero => rw [Nat.zero_add, dropLines]
  | succ j ih =>
    rw [Nat.succ_add]
    exact ih _

theorem lines_dropLines (k : Nat) (bytes : List UInt8) :
    lines (dropLines k bytes) = (lines bytes).drop k := by
  induction k generalizing bytes with
  | zero => rfl
  | succ k ih => rw [dropLines, ih, lines_splitLine, List.drop_tail]

theorem flatten_drop_lines (k : Nat) (bytes : List UInt8) :
    ((lines bytes).drop k).flatten = dropLines k bytes := by
  rw [← lines_dropLines, flatten_lines]

theorem lineCount_dropLines (k : Nat) (bytes : List UInt8) :
    lineCount (dropLines k bytes) = lineCount bytes - k := by
  rw [lineCount, lines_dropLines, List.length_drop, ← lineCount]

theorem lineCount_pos {bytes : List UInt8} (h : bytes ≠ []) : 0 < lineCount bytes := by
  rw [lineCount, lines_eq_cons h]
  exact Nat.succ_pos _

end Text

end Argand
