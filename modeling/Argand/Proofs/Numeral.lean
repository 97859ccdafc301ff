import Mathlib.Data.List.TakeWhile
import Argand.Expression.Token
import Argand.Decimal.Numeral

/-!
Numerals as they stand in an expression.

A number token is a digit, or a point before a digit, with the digits and points behind it.  It is
read as a double exactly when it has at most one point (`ofText?_of_isNumeral`).  It then stands for
its digits as a whole number, with as many decimal places as there are characters behind the point
(`numeralValue`).
-/

namespace Argand

/-- A text of digits and points. -/
def IsRun (text : List Char) : Prop := ∀ c ∈ text, c.isDigit ∨ c = '.'

/-- The form of a number token: a digit, or a point and a digit, then digits and points. -/
inductive IsNumeral : List Char → Prop
  | digit {d : Char} {rest : List Char} : d.isDigit → IsRun rest → IsNumeral (d :: rest)
  | point {d : Char} {rest : List Char} : d.isDigit → IsRun rest → IsNumeral ('.' :: d :: rest)

/-- Every number token of a list has the form of a number token. -/
def Numerals (tokens : List Placed) : Prop :=
  ∀ lexeme column, ⟨.number lexeme, column⟩ ∈ tokens → IsNumeral lexeme

/-- The characters behind the point. -/
def decimals (lexeme : List Char) : List Char := (lexeme.dropWhile (· ≠ '.')).drop 1

/-- The double that a numeral with at most one point stands for. -/
def numeralValue (lexeme : List Char) : Binary64 :=
  Decimal.toBinary64 false
    ⟨Nat.ofDigitChars 10 (lexeme.filter Char.isDigit) 0, -(decimals lexeme).length⟩

/-! ## Runs and where they have points -/

theorem Numerals.tail {tokens tail : List Placed} (h : Numerals tokens) (ht : tail <:+ tokens) :
    Numerals tail :=
  fun lexeme column hm => h lexeme column (ht.subset hm)

theorem IsRun.tail {c : Char} {text : List Char} (h : IsRun (c :: text)) : IsRun text :=
  fun d hd => h d (List.mem_cons_of_mem c hd)

theorem isRun_of_isNumeral {lexeme : List Char} (h : IsNumeral lexeme) : IsRun lexeme := by
  cases h with
  | digit hd hr =>
    intro c hc
    rcases List.mem_cons.1 hc with rfl | hc
    · exact .inl hd
    · exact hr c hc
  | point hd hr =>
    intro c hc
    rcases List.mem_cons.1 hc with rfl | hc
    · exact .inr rfl
    rcases List.mem_cons.1 hc with rfl | hc
    · exact .inl hd
    · exact hr c hc

theorem ne_point_of_isDigit {c : Char} (h : c.isDigit) : c ≠ '.' := by
  rintro rfl
  exact absurd h (by decide)

/-- A run is all digits, or has a first point. -/
theorem IsRun.split {text : List Char} (h : IsRun text) :
    (∀ c ∈ text, c.isDigit) ∨
      ∃ whole rest, text = whole ++ '.' :: rest ∧ (∀ c ∈ whole, c.isDigit) ∧ IsRun rest := by
  induction text with
  | nil => exact .inl nofun
  | cons c text ih =>
    rcases h c List.mem_cons_self with hc | rfl
    · rcases ih h.tail with hd | ⟨whole, rest, rfl, hw, hr⟩
      · exact .inl (List.forall_mem_cons.2 ⟨hc, hd⟩)
      · exact .inr ⟨c :: whole, rest, rfl, List.forall_mem_cons.2 ⟨hc, hw⟩, hr⟩
    · exact .inr ⟨[], text, rfl, nofun, h.tail⟩

theorem count_point_of_digits {text : List Char} (h : ∀ c ∈ text, c.isDigit) :
    text.count '.' = 0 :=
  List.count_eq_zero.2 fun hm => ne_point_of_isDigit (h '.' hm) rfl

theorem takeWhile_isDigit {whole rest : List Char} (h : ∀ c ∈ whole, c.isDigit) :
    (whole ++ '.' :: rest).takeWhile Char.isDigit = whole := by
  rw [List.takeWhile_append_of_pos h, List.takeWhile_cons_of_neg (by decide), List.append_nil]

theorem dropWhile_isDigit {whole rest : List Char} (h : ∀ c ∈ whole, c.isDigit) :
    (whole ++ '.' :: rest).dropWhile Char.isDigit = '.' :: rest := by
  rw [List.dropWhile_append_of_pos h, List.dropWhile_cons_of_neg (by decide)]

theorem filter_isDigit {whole fraction : List Char} (hw : ∀ c ∈ whole, c.isDigit)
    (hf : ∀ c ∈ fraction, c.isDigit) :
    (whole ++ '.' :: fraction).filter Char.isDigit = whole ++ fraction := by
  rw [List.filter_append, List.filter_cons_of_neg (by decide), List.filter_eq_self.2 hw,
    List.filter_eq_self.2 hf]

/-! ## The value of a numeral -/

theorem decimals_digits {text : List Char} (h : ∀ c ∈ text, c.isDigit) : decimals text = [] := by
  have ha : text.dropWhile (· ≠ '.') = [] :=
    List.dropWhile_eq_nil_iff.2 fun c hc => decide_eq_true (ne_point_of_isDigit (h c hc))
  rw [decimals, ha, List.drop_nil]

theorem decimals_point {whole rest : List Char} (h : ∀ c ∈ whole, c.isDigit) :
    decimals (whole ++ '.' :: rest) = rest := by
  have hd : (whole ++ '.' :: rest).dropWhile (· ≠ '.') = '.' :: rest := by
    rw [List.dropWhile_append_of_pos fun c hc => decide_eq_true (ne_point_of_isDigit (h c hc)),
      List.dropWhile_cons_of_neg (by decide)]
  rw [decimals, hd, List.drop_succ_cons, List.drop_zero]

theorem Decimal.ofText?_digits {text : List Char} (hne : text ≠ []) (h : ∀ c ∈ text, c.isDigit) :
    Decimal.ofText? text = some ⟨Nat.ofDigitChars 10 text 0, 0⟩ := by
  unfold Decimal.ofText?
  simp [List.takeWhile_eq_self_iff.2 h, List.dropWhile_eq_nil_iff.2 h, assemble?, hne, exponent?]

theorem Decimal.ofText?_point {whole fraction : List Char} (hne : whole ≠ [] ∨ fraction ≠ [])
    (hw : ∀ c ∈ whole, c.isDigit) (hf : ∀ c ∈ fraction, c.isDigit) :
    Decimal.ofText? (whole ++ '.' :: fraction) =
      some ⟨Nat.ofDigitChars 10 (whole ++ fraction) 0, -fraction.length⟩ := by
  unfold Decimal.ofText?
  have hne : ¬(whole = [] ∧ fraction = []) := fun ⟨h₁, h₂⟩ => hne.elim (· h₁) (· h₂)
  simp [takeWhile_isDigit hw, dropWhile_isDigit hw, List.takeWhile_eq_self_iff.2 hf,
    List.dropWhile_eq_nil_iff.2 hf, assemble?, hne, exponent?]

/-- A second point is no exponent. -/
theorem Decimal.ofText?_two_points {whole fraction rest : List Char} (hw : ∀ c ∈ whole, c.isDigit)
    (hf : ∀ c ∈ fraction, c.isDigit) :
    Decimal.ofText? (whole ++ '.' :: (fraction ++ '.' :: rest)) = none := by
  unfold Decimal.ofText?
  simp [takeWhile_isDigit hw, dropWhile_isDigit hw, takeWhile_isDigit hf, dropWhile_isDigit hf,
    assemble?, exponent?]

theorem toLower_of_isDigit {c : Char} (h : c.isDigit) : c.toLower = c := by
  simp only [Char.isDigit, Bool.and_eq_true, decide_eq_true_eq, ge_iff_le,
    UInt32.le_iff_toNat_le] at h
  have hupper : ¬( 'A'.val ≤ c.val) := fun h' =>
    absurd (Nat.le_trans (UInt32.le_iff_toNat_le.1 h') h.2) (by decide)
  unfold Char.toLower
  exact dif_neg fun h' => hupper h'.1

/-- A run has no letters to be lowered. -/
theorem map_toLower_of_isRun {text : List Char} (h : IsRun text) :
    text.map Char.toLower = text := by
  calc text.map Char.toLower
      = text.map id := by
        refine List.map_congr_left fun c hc => ?_
        rcases h c hc with hd | rfl
        · exact toLower_of_isDigit hd
        · rfl
    _ = text := List.map_id text

/-- A run is no word, so it is read as a decimal. -/
theorem unsigned?_of_isRun {text : List Char} (h : IsRun text) (negative : Bool) :
    Binary64.unsigned? negative text =
      (Decimal.ofText? text).map (Decimal.toBinary64 negative) := by
  have hi : 'i' ∉ text := fun hm => absurd (h 'i' hm) (by decide)
  have hn : 'n' ∉ text := fun hm => absurd (h 'n' hm) (by decide)
  have hinf : ¬(text = "inf".toList ∨ text = "infinity".toList) := by
    rintro (rfl | rfl)
    · exact hi (by decide)
    · exact hi (by decide)
  have hnan : text ≠ "nan".toList := by
    rintro rfl
    exact hn (by decide)
  unfold Binary64.unsigned?
  simp only [map_toLower_of_isRun h, if_neg hinf, if_neg hnan]

/-- A run has no sign in front. -/
theorem ofText?_of_isRun {text : List Char} (h : IsRun text) :
    Binary64.ofText? text = (Decimal.ofText? text).map (Decimal.toBinary64 false) := by
  rw [← unsigned?_of_isRun h false]
  unfold Binary64.ofText?
  split
  · exact absurd (h '+' List.mem_cons_self) (by decide)
  · exact absurd (h '-' List.mem_cons_self) (by decide)
  · rfl

/-- A numeral with a point has a digit on one side of it. -/
theorem IsNumeral.digits_beside {whole rest : List Char} (h : IsNumeral (whole ++ '.' :: rest)) :
    whole ≠ [] ∨ ∃ d ∈ rest.head?, d.isDigit := by
  rcases whole with _ | ⟨c, whole⟩
  · cases h with
    | digit hd _ => exact absurd hd (by decide)
    | point hd _ => exact .inr ⟨_, rfl, hd⟩
  · exact .inl (List.cons_ne_nil c whole)

/-- A numeral is a double exactly if it has at most one point. -/
theorem ofText?_of_isNumeral {lexeme : List Char} (h : IsNumeral lexeme) :
    Binary64.ofText? lexeme =
      if lexeme.count '.' ≤ 1 then some (numeralValue lexeme) else none := by
  have hr := isRun_of_isNumeral h
  rw [ofText?_of_isRun hr]
  rcases hr.split with hd | ⟨whole, rest, rfl, hw, hr⟩
  · have hne : lexeme ≠ [] := by
      rintro rfl
      cases h
    rw [Decimal.ofText?_digits hne hd, count_point_of_digits hd, if_pos (Nat.zero_le 1),
      numeralValue, decimals_digits hd, List.filter_eq_self.2 hd]
    rfl
  · have hside := h.digits_beside
    rcases hr.split with hf | ⟨fraction, more, rfl, hf, -⟩
    · have hne : whole ≠ [] ∨ rest ≠ [] := by
        refine hside.imp_right ?_
        rintro ⟨d, hd, -⟩ rfl
        cases hd
      have hc : (whole ++ '.' :: rest).count '.' ≤ 1 := by
        simp [count_point_of_digits hw, count_point_of_digits hf]
      rw [Decimal.ofText?_point hne hw hf, if_pos hc, numeralValue, decimals_point hw,
        filter_isDigit hw hf]
      rfl
    · have hc : ¬(whole ++ '.' :: (fraction ++ '.' :: more)).count '.' ≤ 1 := by
        simp [count_point_of_digits hw, count_point_of_digits hf]
      rw [Decimal.ofText?_two_points hw hf, if_neg hc]
      rfl

end Argand
