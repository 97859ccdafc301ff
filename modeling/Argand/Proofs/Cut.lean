import Argand.Expression.Pieces
import Argand.Proofs.Numeral

/-!
The maximal cut of a text.

`IsCut` says what it is to cut a text, without the function that does it: the texts of the pieces
are the text without its blanks, each piece bears the column at which its first character stands in
the text as it was written, and no piece could have been longer.  `completed` says which tokens the
pieces stand for: those among them, in their order, and a zero before each sign that has nothing or
an opening parenthesis in front of it.

A text has one such cut and no other (`isCut_iff`), and the tokens of the text are the ones that it
stands for (`tokenize_cut`).
-/

namespace Argand

/-! ## What a cut is -/

/-- The characters of pieces, one piece behind the other. -/
def textOf (pieces : List (Piece × Nat)) : List Char := pieces.flatMap fun piece => piece.1.text

/-- The character stands at the column of the source, and `before` is what stands in front of it,
apart from blanks. -/
def StandsAt (source before : List Char) (c : Char) (column : Nat) : Prop :=
  ∃ front back, source = front ++ c :: back ∧ column = front.length + 1 ∧
    Text.withoutBlanks front = before ∧ Text.isBlank c = false

/-- The tokens and parentheses that are written with one mark. -/
def marks : List Char := ['+', '-', '*', '/', '√', '(', ')']

/-- Before `rest`, the piece has the form of its kind and could not have been longer. -/
def Piece.Maximal : Piece → (rest : List Char) → Prop
  | token (.number lexeme), rest =>
    IsNumeral lexeme ∧ ∀ c ∈ rest.head?, ¬(c.isDigit ∨ c = '.')
  | token (.identifier c), rest => Text.isAlphabetic c ∧ ¬(c = 'c' ∧ ['o', 'n', 'j'] <+: rest)
  | token .star, rest => rest.head? ≠ some '*'
  | token _, _ => True
  | skipped c, rest =>
    Text.isAlphabetic c = false ∧ c.isDigit = false ∧ c ∉ marks ∧
      (c = '.' → ∀ d ∈ rest.head?, d.isDigit = false)

/-- The pieces are the source without its blanks, each where it begins, and each as long as it can
be. -/
structure IsCut (source : List Char) (pieces : List (Piece × Nat)) : Prop where
  text : textOf pieces = Text.withoutBlanks source
  each : ∀ before piece column after, pieces = before ++ (piece, column) :: after →
    piece.Maximal (textOf after) ∧
      ∃ c ∈ piece.text.head?, StandsAt source (textOf before) c column

/-- The tokens that a piece behind the characters `before` stands for. -/
def tokensOf (before : List Char) : Piece × Nat → List Placed
  | (.skipped _, _) => []
  | (.token t, column) =>
    if (t = .plus ∨ t = .minus) ∧ (before = [] ∨ before.getLast? = some '(') then
      [⟨.number ['0'], column⟩, ⟨t, column⟩]
    else [⟨t, column⟩]

/-- The tokens that pieces behind the characters `before` stand for. -/
def completed (before : List Char) : List (Piece × Nat) → List Placed
  | [] => []
  | piece :: pieces => tokensOf before piece ++ completed (before ++ piece.1.text) pieces

/-! ## Letters, digits and marks -/

theorem ge_of_isAlphabetic {c : Char} (h : Text.isAlphabetic c = true) : 0x41 ≤ c.toNat := by
  have hr : Text.alphabeticRanges.all (fun r => 0x41 ≤ r.1) = true := by decide +kernel
  obtain ⟨r, hm, hc⟩ := List.any_eq_true.1 h
  simp only [Bool.and_eq_true, decide_eq_true_eq] at hc
  exact Nat.le_trans (of_decide_eq_true (List.all_eq_true.1 hr r hm)) hc.1

theorem not_isAlphabetic_of_mem_marks {c : Char} (h : c ∈ marks) : Text.isAlphabetic c = false := by
  have hm : marks.all (fun c => !Text.isAlphabetic c) = true := by decide +kernel
  simpa using List.all_eq_true.1 hm c h

theorem not_isDigit_of_isAlphabetic {c : Char} (h : Text.isAlphabetic c = true) :
    c.isDigit = false := by
  have hge := ge_of_isAlphabetic h
  rw [Bool.eq_false_iff]
  intro hd
  simp only [Char.isDigit, Bool.and_eq_true, decide_eq_true_eq, ge_iff_le,
    UInt32.le_iff_toNat_le] at hd
  exact absurd (Nat.le_trans hge hd.2) (by decide)

theorem ne_point_of_isAlphabetic {c : Char} (h : Text.isAlphabetic c = true) : c ≠ '.' := by
  rintro rfl
  exact absurd (ge_of_isAlphabetic h) (by decide)

namespace Piece

theorem mark?_eq_none_iff {c : Char} : mark? c = none ↔ c ∉ marks := by
  unfold mark?
  split <;> simp_all [marks]

theorem beginsNumber_of_ne {c : Char} {rest : List Cell} (hd : c.isDigit = false) (hp : c ≠ '.') :
    beginsNumber c rest = false := by
  simp [beginsNumber, hd, hp]

/-! ## The piece at the front -/

theorem isRun_takeWhile (rest : List Cell) :
    IsRun ((rest.takeWhile fun next => continuesNumber next.1).map Prod.fst) := by
  intro c hc
  obtain ⟨cell, hm, rfl⟩ := List.mem_map.1 hc
  simpa [continuesNumber] using List.all_eq_true.1 List.all_takeWhile cell hm

theorem isNumeral_of_beginsNumber {c : Char} {rest : List Cell} (h : beginsNumber c rest = true) :
    IsNumeral (c :: (rest.takeWhile fun next => continuesNumber next.1).map Prod.fst) := by
  have hr := isRun_takeWhile rest
  simp only [beginsNumber, Bool.or_eq_true, Bool.and_eq_true, decide_eq_true_eq,
    Option.any_eq_true] at h
  rcases h with hd | ⟨rfl, ⟨d, column⟩, hm, hd⟩
  · exact .digit hd hr
  · rcases rest with _ | ⟨cell, rest⟩
    · cases hm
    · cases hm
      have hc : continuesNumber d = true := by simp [continuesNumber, show d.isDigit = true from hd]
      simp only [List.takeWhile_cons, hc, if_true, List.map_cons] at hr ⊢
      exact .point hd hr.tail

theorem not_continues_after_run (rest : List Cell) :
    ∀ c ∈ ((rest.dropWhile fun next => continuesNumber next.1).map Prod.fst).head?,
      ¬(c.isDigit ∨ c = '.') := by
  intro c hc
  have hn := List.head?_dropWhile_not (fun next : Cell => continuesNumber next.1) rest
  rw [List.head?_map] at hc
  obtain ⟨cell, hm, rfl⟩ := Option.map_eq_some_iff.1 hc
  rw [hm] at hn
  simpa [continuesNumber] using hn

theorem drop_length_takeWhile {α : Type} (p : α → Bool) (l : List α) :
    l.drop (l.takeWhile p).length = l.dropWhile p := by
  calc l.drop (l.takeWhile p).length
      = (l.takeWhile p ++ l.dropWhile p).drop (l.takeWhile p).length := by
        rw [List.takeWhile_append_dropWhile]
    _ = l.dropWhile p := List.drop_left

/-- A mark is a piece of its own, except for a star before another one. -/
theorem maximal_of_mark? {c : Char} {t : Token} (h : mark? c = some t) {rest : List Char}
    (hs : ¬(c = '*' ∧ rest.head? = some '*')) : (token t).Maximal rest := by
  unfold mark? at h
  split at h
  case h_3 =>
    cases h
    exact fun hr => hs ⟨rfl, hr⟩
  all_goals
    cases h
    try trivial

theorem beginsNumber_eq_false {c : Char} {rest : List Cell} (h : ¬beginsNumber c rest = true) :
    c.isDigit = false ∧ (c = '.' → ∀ d ∈ (rest.map Prod.fst).head?, d.isDigit = false) := by
  simp only [beginsNumber, Bool.or_eq_true, Bool.and_eq_true, decide_eq_true_eq, not_or, not_and,
    Option.any_eq_true, not_exists, Bool.not_eq_true] at h
  refine ⟨h.1, fun hp d hd => ?_⟩
  rw [List.head?_map] at hd
  obtain ⟨cell, hm, rfl⟩ := Option.map_eq_some_iff.1 hd
  exact h.2 hp cell hm

theorem take_one_eq {rest : List Cell} :
    (rest.take 1).map Prod.fst = ['*'] ↔ (rest.map Prod.fst).head? = some '*' := by
  cases rest <;> simp

theorem take_three_eq {rest : List Cell} :
    (rest.take 3).map Prod.fst = ['o', 'n', 'j'] ↔ ['o', 'n', 'j'] <+: rest.map Prod.fst := by
  rw [List.prefix_iff_eq_take, List.map_take, eq_comm]
  rfl

/-- The piece that is cut off could not have been longer. -/
theorem maximal_beginning (c : Char) (rest : List Cell) :
    (beginning c rest).1.Maximal ((rest.drop (beginning c rest).2).map Prod.fst) := by
  unfold beginning
  split
  · next h =>
    dsimp only
    rw [drop_length_takeWhile]
    exact ⟨isNumeral_of_beginsNumber h, not_continues_after_run rest⟩
  next hnumber =>
  simp only [take_one_eq, take_three_eq]
  split
  · trivial
  next hpower =>
  split
  · trivial
  next hconj =>
  split
  · next t ht => exact maximal_of_mark? ht hpower
  · next hm =>
    split
    · next ha => exact ⟨ha, hconj⟩
    · next ha =>
      have hn := beginsNumber_eq_false hnumber
      exact ⟨Bool.eq_false_iff.2 ha, hn.1, mark?_eq_none_iff.1 hm, hn.2⟩

/-! ## No other piece -/

theorem takeWhile_run {run rest : List Char} (hr : IsRun run)
    (hn : ∀ c ∈ rest.head?, ¬(c.isDigit ∨ c = '.')) :
    (run ++ rest).takeWhile continuesNumber = run := by
  have hr : ∀ c ∈ run, continuesNumber c = true := fun c hc => by
    simpa [continuesNumber] using hr c hc
  rw [List.takeWhile_append_of_pos hr]
  cases rest with
  | nil => exact List.append_nil run
  | cons c rest =>
    have hc : ¬continuesNumber c = true := by simpa [continuesNumber] using hn c rfl
    rw [List.takeWhile_cons_of_neg hc, List.append_nil]

theorem beginning_of_isNumeral {c : Char} {run rest : List Char} {more : List Cell}
    (h : IsNumeral (c :: run)) (hn : ∀ c ∈ rest.head?, ¬(c.isDigit ∨ c = '.'))
    (hm : more.map Prod.fst = run ++ rest) :
    beginning c more = (token (.number (c :: run)), run.length) := by
  have hb : beginsNumber c more = true := by
    cases h with
    | digit hd _ => simp [beginsNumber, show c.isDigit = true from hd]
    | point hd _ =>
      rcases more with _ | ⟨cell, more⟩
      · cases hm
      · have hc : cell.1 = _ := (List.cons.inj hm).1
        simp [beginsNumber, hc, show Char.isDigit _ = true from hd]
  have hr : (more.takeWhile fun next => continuesNumber next.1).map Prod.fst = run := by
    rw [← takeWhile_run (isRun_of_isNumeral h).tail hn, ← hm, List.takeWhile_map]
    rfl
  unfold beginning
  rw [if_pos hb]
  refine Prod.ext ?_ ?_
  · exact congrArg (fun run => token (.number (c :: run))) hr
  · exact (List.length_map Prod.fst).symm.trans (congrArg List.length hr)

theorem mem_marks_of_mark? {c : Char} {t : Token} (h : mark? c = some t) : c ∈ marks := by
  refine Decidable.of_not_not fun hc => ?_
  rw [mark?_eq_none_iff.2 hc] at h
  cases h

theorem not_isDigit_of_mem_marks {c : Char} (h : c ∈ marks) : c.isDigit = false := by
  have hm : marks.all (fun c => !c.isDigit) = true := by decide
  simpa using List.all_eq_true.1 hm c h

/-- The front of a text that begins neither a number, nor `**`, nor `conj`. -/
theorem beginning_of_not {c : Char} {more : List Cell} (hb : beginsNumber c more = false)
    (hs : ¬(c = '*' ∧ (more.map Prod.fst).head? = some '*'))
    (hj : ¬(c = 'c' ∧ ['o', 'n', 'j'] <+: more.map Prod.fst)) :
    beginning c more = match mark? c with
      | some t => (token t, 0)
      | none => if Text.isAlphabetic c then (token (.identifier c), 0) else (skipped c, 0) := by
  have hn : ¬beginsNumber c more = true := Bool.eq_false_iff.1 hb
  have hp : ¬(c = '*' ∧ (more.take 1).map Prod.fst = ['*']) :=
    fun h => hs ⟨h.1, take_one_eq.1 h.2⟩
  have hc : ¬(c = 'c' ∧ (more.take 3).map Prod.fst = ['o', 'n', 'j']) :=
    fun h => hj ⟨h.1, take_three_eq.1 h.2⟩
  exact (if_neg hn).trans ((if_neg hp).trans (if_neg hc))

theorem beginning_of_mark? {c : Char} {t : Token} (h : mark? c = some t) {more : List Cell}
    (hs : ¬(c = '*' ∧ (more.map Prod.fst).head? = some '*')) :
    beginning c more = (token t, 0) := by
  have hc := mem_marks_of_mark? h
  have hp : c ≠ '.' := by
    rintro rfl
    exact absurd hc (by decide)
  rw [beginning_of_not (beginsNumber_of_ne (not_isDigit_of_mem_marks hc) hp) hs, h]
  rintro ⟨rfl, -⟩
  exact absurd hc (by decide)

/-- A piece that could not be longer is the piece that is cut off. -/
theorem beginning_of_maximal {piece : Piece} {rest : List Char} (h : piece.Maximal rest) {c : Char}
    {more : List Cell} (ht : c :: more.map Prod.fst = piece.text ++ rest) :
    beginning c more = (piece, piece.text.length - 1) := by
  cases piece with
  | skipped d =>
    obtain ⟨ha, hd, hm, hp⟩ := h
    obtain ⟨rfl, rfl⟩ := List.cons.inj ht
    have hb : beginsNumber c more = false := by
      rw [Bool.eq_false_iff]
      simp only [beginsNumber, hd, Bool.false_or, ne_eq, Bool.and_eq_true, decide_eq_true_eq,
        Option.any_eq_true, not_and, not_exists]
      intro hc cell hm' hd'
      rw [hp hc cell.1 (List.head?_map .. ▸ Option.map_eq_some_iff.2 ⟨cell, hm', rfl⟩)] at hd'
      cases hd'
    rw [beginning_of_not hb, mark?_eq_none_iff.2 hm]
    · simp only [ha]
      rfl
    · rintro ⟨rfl, -⟩
      exact hm (by decide)
    · rintro ⟨rfl, -⟩
      exact absurd ha (by decide)
  | token t =>
    cases t with
    | number lexeme =>
      obtain ⟨hl, hn⟩ := h
      rcases lexeme with _ | ⟨d, run⟩
      · cases hl
      · obtain ⟨rfl, hm⟩ := List.cons.inj ht
        exact beginning_of_isNumeral hl hn hm
    | identifier d =>
      obtain ⟨ha, hj⟩ := h
      obtain ⟨rfl, rfl⟩ := List.cons.inj ht
      have hm : c ∉ marks := fun hm => by
        rw [not_isAlphabetic_of_mem_marks hm] at ha
        cases ha
      have hb : beginsNumber c more = false :=
        beginsNumber_of_ne (not_isDigit_of_isAlphabetic ha) (ne_point_of_isAlphabetic ha)
      rw [beginning_of_not hb, mark?_eq_none_iff.2 hm]
      · simp only [ha]
        rfl
      · rintro ⟨rfl, -⟩
        exact hm (by decide)
      · exact hj
    | conj =>
      obtain ⟨rfl, hm⟩ := List.cons.inj ht
      have hj : ['o', 'n', 'j'] <+: more.map Prod.fst := ⟨rest, hm.symm⟩
      have hb : beginsNumber 'c' more = false := beginsNumber_of_ne rfl (by decide)
      unfold beginning
      simp only [hb, take_three_eq, hj]
      rfl
    | power =>
      obtain ⟨rfl, hm⟩ := List.cons.inj ht
      have hs : (more.map Prod.fst).head? = some '*' := by
        rw [hm]
        rfl
      have hb : beginsNumber '*' more = false := beginsNumber_of_ne rfl (by decide)
      unfold beginning
      simp only [hb, take_one_eq, hs]
      rfl
    | star =>
      obtain ⟨rfl, rfl⟩ := List.cons.inj ht
      exact beginning_of_mark? rfl fun hs => h hs.2
    | _ =>
      obtain ⟨rfl, rfl⟩ := List.cons.inj ht
      exact beginning_of_mark? rfl fun hs => absurd hs.1 (by decide)

end Piece

/-! ## Where the characters stand -/

theorem map_fst_cells (source : List Char) :
    (cells source).map Prod.fst = Text.withoutBlanks source := by
  have h := List.filter_map (f := Prod.fst) (p := fun c => !Text.isBlank c) (l := source.zipIdx 1)
  rw [List.zipIdx_map_fst] at h
  exact h.symm

/-- The cells of a text are its characters apart from the blanks, with their columns. -/
theorem standsAt_iff {source before : List Char} {c : Char} {column : Nat} :
    StandsAt source before c column ↔
      ∃ front back, cells source = front ++ (c, column) :: back ∧ front.map Prod.fst = before := by
  constructor
  · rintro ⟨front, back, rfl, rfl, hf, hc⟩
    refine ⟨cells front, (back.zipIdx (front.length + 2)).filter fun cell => !Text.isBlank cell.1,
      ?_, (map_fst_cells front).trans hf⟩
    unfold cells
    rw [List.zipIdx_append, List.zipIdx_cons, List.filter_append, Nat.add_comm 1,
      List.filter_cons_of_pos (by simp [hc])]
  · rintro ⟨front, back, h, rfl⟩
    obtain ⟨l₁, l₂, hl, rfl, h₂⟩ := List.filter_eq_append_iff.1 h
    obtain ⟨l₂, l₃, rfl, hb, hc, -⟩ := List.filter_eq_cons_iff.1 h₂
    rw [← List.append_assoc] at hl
    obtain ⟨s₁, s₂, rfl, h₁, h₂⟩ := List.zipIdx_eq_append_iff.1 hl
    obtain ⟨c', s₂, rfl, hc', -⟩ := List.zipIdx_eq_cons_iff.1 h₂.symm
    cases hc'
    refine ⟨s₁, s₂, rfl, Nat.add_comm .., ?_, by simpa using hc⟩
    rw [← map_fst_cells, cells, ← h₁, List.filter_append, List.filter_eq_nil_iff.2 hb,
      List.append_nil]

/-! ## The cut -/

/-- A cut of cells, said as a cut of a source is. -/
structure CutsInto (cells : List Cell) (pieces : List (Piece × Nat)) : Prop where
  text : textOf pieces = cells.map Prod.fst
  each : ∀ before piece column after, pieces = before ++ (piece, column) :: after →
    piece.Maximal (textOf after) ∧
      ∃ c ∈ piece.text.head?, ∃ front back, cells = front ++ (c, column) :: back ∧
        front.map Prod.fst = textOf before

theorem isCut_iff_cutsInto {source : List Char} {pieces : List (Piece × Nat)} :
    IsCut source pieces ↔ CutsInto (cells source) pieces := by
  constructor
  · intro h
    refine ⟨h.text.trans (map_fst_cells source).symm, fun before piece column after hp => ?_⟩
    obtain ⟨hm, c, hc, hs⟩ := h.each before piece column after hp
    exact ⟨hm, c, hc, standsAt_iff.1 hs⟩
  · intro h
    refine ⟨h.text.trans (map_fst_cells source), fun before piece column after hp => ?_⟩
    obtain ⟨hm, c, hc, hs⟩ := h.each before piece column after hp
    exact ⟨hm, c, hc, standsAt_iff.2 hs⟩

theorem textOf_cons (piece : Piece) (column : Nat) (pieces : List (Piece × Nat)) :
    textOf ((piece, column) :: pieces) = piece.text ++ textOf pieces := List.flatMap_cons

/-- The first piece of a cut is the one that its first character begins, and the others cut what is
behind it. -/
theorem CutsInto.uncons {cells : List Cell} {piece : Piece} {column : Nat}
    {pieces : List (Piece × Nat)} (h : CutsInto cells ((piece, column) :: pieces)) :
    ∃ c rest, cells = (c, column) :: rest ∧
      Piece.beginning c rest = (piece, piece.text.length - 1) ∧
      CutsInto (rest.drop (piece.text.length - 1)) pieces := by
  obtain ⟨hm, c, hc, front, rest, rfl, hf⟩ := h.each [] piece column pieces rfl
  obtain rfl : front = [] := List.map_eq_nil_iff.1 hf
  have ht : c :: rest.map Prod.fst = piece.text ++ textOf pieces := by
    rw [← textOf_cons, h.text]
    rfl
  obtain ⟨tail, htail⟩ := List.head?_eq_some_iff.1 hc
  have hdrop : ∀ {α : Type} (x : α) (l : List α),
      l.drop (piece.text.length - 1) = (x :: l).drop piece.text.length := fun x l => by
    rw [htail, List.length_cons, Nat.add_sub_cancel, List.drop_succ_cons]
  refine ⟨c, rest, rfl, Piece.beginning_of_maximal hm ht, ?_, ?_⟩
  · rw [List.map_drop, hdrop c, ht, List.drop_left]
  · intro before piece' column' after hp
    obtain ⟨hm', c', hc', front, back, hfront, hf'⟩ :=
      h.each ((piece, column) :: before) piece' column' after (by rw [hp, List.cons_append])
    rw [textOf_cons] at hf'
    have hle : piece.text.length ≤ front.length := by
      rw [← List.length_map Prod.fst, hf', List.length_append]
      exact Nat.le_add_right ..
    refine ⟨hm', c', hc', front.drop piece.text.length, back, ?_, ?_⟩
    · calc rest.drop (piece.text.length - 1)
          = ((c, column) :: rest).drop piece.text.length := hdrop _ _
        _ = (front ++ (c', column') :: back).drop piece.text.length := congrArg _ hfront
        _ = front.drop piece.text.length ++ (c', column') :: back :=
          List.drop_append_of_le_length hle
    · rw [List.map_drop, hf', List.drop_left]

/-- The piece that a character begins, and a cut of what is behind it, are a cut. -/
theorem CutsInto.cons {c : Char} {column : Nat} {rest : List Cell} {pieces : List (Piece × Nat)}
    (h : CutsInto (rest.drop (Piece.beginning c rest).2) pieces) :
    CutsInto ((c, column) :: rest) (((Piece.beginning c rest).1, column) :: pieces) := by
  have ht := Piece.text_beginning c rest
  refine ⟨?_, ?_⟩
  · rw [textOf_cons, h.text, ht, List.cons_append, ← List.map_append, List.take_append_drop]
    rfl
  · intro before piece column' after hp
    rcases before with _ | ⟨first, before⟩
    · cases hp
      refine ⟨h.text ▸ Piece.maximal_beginning c rest, c, ?_, [], rest, rfl, rfl⟩
      rw [ht]
      rfl
    · obtain ⟨rfl, rfl⟩ := List.cons.inj hp
      obtain ⟨hm, c', hc, front, back, hfront, hf⟩ := h.each before piece column' after rfl
      refine ⟨hm, c', hc, (c, column) :: (rest.take (Piece.beginning c rest).2 ++ front),
        back, ?_, ?_⟩
      · rw [List.cons_append, List.append_assoc, ← hfront, List.take_append_drop]
      · rw [List.map_cons, List.map_append, hf, textOf_cons, ht]
        rfl

theorem cutsInto_cut (cells : List Cell) : CutsInto cells (cut cells) := by
  fun_induction cut cells with
  | case1 => exact ⟨rfl, fun before _ _ _ hp => absurd hp (by simp)⟩
  | case2 c column rest piece more h ih =>
    have hc : CutsInto ((c, column) :: rest) (((Piece.beginning c rest).1, column) :: _) :=
      CutsInto.cons (by rw [h]; exact ih)
    rw [h] at hc
    exact hc

theorem eq_cut_of_cutsInto {cells : List Cell} {pieces : List (Piece × Nat)}
    (h : CutsInto cells pieces) : pieces = cut cells := by
  induction pieces generalizing cells with
  | nil =>
    obtain rfl : cells = [] := List.map_eq_nil_iff.1 h.text.symm
    rw [cut]
  | cons first pieces ih =>
    obtain ⟨c, rest, rfl, hb, hr⟩ := h.uncons
    rw [cut, hb]
    exact congrArg (List.cons first) (ih hr)

/-- The pieces of a text are the one maximal cut of it. -/
theorem isCut_iff {source : List Char} {pieces : List (Piece × Nat)} :
    IsCut source pieces ↔ pieces = cut (cells source) := by
  rw [isCut_iff_cutsInto]
  constructor
  · exact eq_cut_of_cutsInto
  · rintro rfl
    exact cutsInto_cut _

/-! ## Tokens -/

theorem IsCut.maximal {source : List Char} {pieces : List (Piece × Nat)} (h : IsCut source pieces)
    {piece : Piece × Nat} (hp : piece ∈ pieces) : ∃ rest, piece.1.Maximal rest := by
  obtain ⟨before, after, hs⟩ := List.append_of_mem hp
  exact ⟨_, (h.each before piece.1 piece.2 after hs).1⟩

/-- Only an opening parenthesis ends in one. -/
theorem Piece.getLast?_text {piece : Piece} {rest : List Char} (h : piece.Maximal rest) :
    piece.text.getLast? = some '(' ↔ piece = token .opening := by
  cases piece with
  | skipped c =>
    refine ⟨fun hc => ?_, nofun⟩
    obtain rfl : c = '(' := Option.some.inj hc
    exact absurd h.2.2.1 (by decide)
  | token t =>
    cases t with
    | number lexeme =>
      refine ⟨fun hc => ?_, nofun⟩
      have hm : '(' ∈ lexeme := List.mem_of_getLast? hc
      exact absurd (isRun_of_isNumeral h.1 '(' hm) (by decide)
    | identifier c =>
      refine ⟨fun hc => ?_, nofun⟩
      obtain rfl : c = '(' := Option.some.inj hc
      exact absurd (ge_of_isAlphabetic h.1) (by decide)
    | _ => exact ⟨by decide, by decide⟩

theorem Piece.text_ne_nil {piece : Piece} {rest : List Char} (h : piece.Maximal rest) :
    piece.text ≠ [] := by
  cases piece with
  | skipped c => exact nofun
  | token t =>
    cases t with
    | number lexeme =>
      rintro rfl
      cases h.1
    | _ => exact nofun

/-- A sign behind a piece begins a group exactly if the piece is an opening parenthesis. -/
theorem Piece.opens_iff {piece : Piece} {rest : List Char} (h : piece.Maximal rest)
    (before : List Char) :
    (before ++ piece.text = [] ∨ (before ++ piece.text).getLast? = some '(') ↔
      piece = token .opening := by
  have hne := text_ne_nil h
  have hl : (before ++ piece.text).getLast? = piece.text.getLast? := by
    rw [List.getLast?_append, List.getLast?_eq_some_getLast hne, Option.some_or]
  rw [← getLast?_text h, hl]
  exact or_iff_right fun he => hne (List.append_eq_nil_iff.1 he).2

/-- The flag that the tokens are found with tells whether a sign begins a group. -/
theorem tokensFrom_eq_completed {pieces : List (Piece × Nat)}
    (h : ∀ piece ∈ pieces, ∃ rest, piece.1.Maximal rest) {flag : Bool} {before : List Char}
    (hf : flag = true ↔ before = [] ∨ before.getLast? = some '(') :
    tokensFrom flag pieces = completed before pieces := by
  induction pieces generalizing flag before with
  | nil => rfl
  | cons first pieces ih =>
    obtain ⟨piece, column⟩ := first
    obtain ⟨⟨rest, hm⟩, h'⟩ := List.forall_mem_cons.1 h
    have ho := Piece.opens_iff hm before
    cases piece with
    | skipped c => exact ih h' (by rw [ho]; exact ⟨nofun, nofun⟩)
    | token t =>
      have hi : tokensFrom (t = .opening) pieces = completed (before ++ t.text) pieces := by
        refine ih h' (decide_eq_true_iff.trans (Iff.trans ?_ ho.symm))
        exact ⟨congrArg Piece.token, Piece.token.inj⟩
      have hs : (flag && t.isSign) = true ↔
          (t = .plus ∨ t = .minus) ∧ (before = [] ∨ before.getLast? = some '(') := by
        rw [Bool.and_eq_true, hf, and_comm, Token.isSign, Bool.or_eq_true, decide_eq_true_iff,
          decide_eq_true_iff]
      simp only [tokensFrom, completed, tokensOf, Piece.text, hi]
      by_cases hz : (flag && t.isSign) = true
      · rw [if_pos hz, if_pos (hs.1 hz)]
        rfl
      · rw [if_neg hz, if_neg fun hc => hz (hs.2 hc)]
        rfl

/-- Where no character is skipped the mode makes no difference. -/
theorem tokenize_of_cut {source : List Char} {pieces : List (Piece × Nat)}
    (h : cut (cells source) = pieces) (hs : skippedOf pieces = []) (mode : Mode) :
    tokenize mode source = .ok (tokensFrom true pieces) := by
  unfold tokenize
  rw [h]
  dsimp only
  rw [hs]
  cases mode <;> rfl

/-- The tokens of a text, if there are any, are found in its pieces, whatever the mode. -/
theorem eq_tokensFrom_of_tokenize {mode : Mode} {source : List Char} {tokens : List Placed}
    (h : tokenize mode source = .ok tokens) : tokens = tokensFrom true (cut (cells source)) := by
  unfold tokenize at h
  dsimp only at h
  split at h
  · cases h
  · cases h
    rfl

/-- The tokens of a text, if there are any, are those that its pieces stand for. -/
theorem eq_completed_of_tokenize {mode : Mode} {source : List Char} {tokens : List Placed}
    (h : tokenize mode source = .ok tokens) : tokens = completed [] (cut (cells source)) := by
  have hc : IsCut source (cut (cells source)) := isCut_iff.2 rfl
  rw [eq_tokensFrom_of_tokenize h]
  exact tokensFrom_eq_completed (fun _ => hc.maximal) (by simp)

/-- The tokens of a text are those that its maximal cut stands for, and it has no other such cut. -/
theorem tokenize_cut (source : List Char) :
    ∃ pieces, IsCut source pieces ∧ (∀ other, IsCut source other → other = pieces) ∧
      tokenize .permissive source = .ok (completed [] pieces) ∧
      ∀ tokens, tokenize .strict source = .ok tokens → tokens = completed [] pieces := by
  refine ⟨cut (cells source), isCut_iff.2 rfl, fun other => isCut_iff.1, ?_, ?_⟩
  · have hp : tokenize .permissive source = .ok (tokensFrom true (cut (cells source))) := rfl
    rw [hp, eq_completed_of_tokenize hp]
  · exact fun tokens => eq_completed_of_tokenize

/-! ## Numerals -/

theorem number_of_mem_tokensOf {before : List Char} {piece : Piece × Nat} {lexeme : List Char}
    {column : Nat} (h : ⟨.number lexeme, column⟩ ∈ tokensOf before piece) :
    lexeme = ['0'] ∨ piece.1 = .token (.number lexeme) := by
  obtain ⟨piece, column'⟩ := piece
  cases piece with
  | skipped c => cases h
  | token t =>
    have ht : ⟨.number lexeme, column⟩ = (⟨t, column'⟩ : Placed) →
        Piece.token t = .token (.number lexeme) := fun he => congrArg _ (Placed.mk.inj he).1.symm
    simp only [tokensOf] at h
    split at h
    · rcases List.mem_cons.1 h with hz | h
      · exact .inl (Token.number.inj (Placed.mk.inj hz).1)
      · exact .inr (ht (List.mem_singleton.1 h))
    · exact .inr (ht (List.mem_singleton.1 h))

theorem number_of_mem_completed {pieces : List (Piece × Nat)} {before lexeme : List Char}
    {column : Nat} (h : ⟨.number lexeme, column⟩ ∈ completed before pieces) :
    lexeme = ['0'] ∨ ∃ piece ∈ pieces, piece.1 = .token (.number lexeme) := by
  induction pieces generalizing before with
  | nil => cases h
  | cons first pieces ih =>
    rcases List.mem_append.1 h with h | h
    · refine (number_of_mem_tokensOf h).imp_right fun hp => ?_
      exact ⟨first, List.mem_cons_self, hp⟩
    · refine (ih h).imp_right ?_
      rintro ⟨piece, hm, hp⟩
      exact ⟨piece, List.mem_cons_of_mem first hm, hp⟩

/-- Every number token of a text is a numeral. -/
theorem numerals_of_tokenize {mode : Mode} {source : List Char} {tokens : List Placed}
    (h : tokenize mode source = .ok tokens) : Numerals tokens := by
  intro lexeme column hm
  rw [eq_completed_of_tokenize h] at hm
  rcases number_of_mem_completed hm with rfl | ⟨piece, hp, he⟩
  · exact .digit rfl nofun
  · have hc : IsCut source (cut (cells source)) := isCut_iff.2 rfl
    obtain ⟨rest, hmax⟩ := hc.maximal hp
    rw [he] at hmax
    exact hmax.1

end Argand
