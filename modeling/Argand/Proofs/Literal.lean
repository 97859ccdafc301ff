import Argand.Complex.Literal
import Argand.Proofs.ReadBack
import Argand.Proofs.SignedZero

/-!
A complex number in writing reads back as the same number.

The writer drops parts that are zero and the signs of zeros, and the reader takes a text apart at
its last sign.  Between the two stands the plain form of a double without a sign (`IsPlain`): digits
and points, `inf` or `NaN`.  It has no sign, no blank and no mark of an exponent, so the last sign
of `a+bi` and of `a-bi` is the one between the parts, and the only sign of `-bi` is its first
character.

What is read back is the number with the signs of its zeros dropped, that is, its sum with zero
(`ofText_text`).

Main statement: each number is read back as the same one, and two numbers are the same exactly if
they are written in the same way (`text_reads_back`).
-/

namespace Argand

-- What holds of the members of a list is decided along the list, not character by character, also
-- where a library knows that there are only finitely many characters.
attribute [local instance (high)] List.decidableBAll

/-! ## The characters of a double -/

/-- A text of the characters that doubles without a sign are written with. -/
def IsPlain (text : List Char) : Prop :=
  text ≠ [] ∧ ∀ c ∈ text, c.isDigit ∨ c ∈ ['.', 'i', 'n', 'f', 'N', 'a']

theorem isBlank_of_isDigit {c : Char} (h : c.isDigit) : Text.isBlank c = false := by
  simp only [Char.isDigit, Bool.and_eq_true, decide_eq_true_eq, ge_iff_le,
    UInt32.le_iff_toNat_le] at h
  have hlow : 48 ≤ c.toNat := h.1
  have hhigh : c.toNat ≤ 57 := h.2
  simp [Text.isBlank, Text.inRanges, Text.blankRanges]
  omega

theorem isSign_of_isDigit {c : Char} (h : c.isDigit) : Complex.isSign c = false := by
  rw [Bool.eq_false_iff]
  intro hs
  rcases Bool.or_eq_true_iff.1 hs with hc | hc
  · rw [of_decide_eq_true hc] at h
    exact absurd h (by decide)
  · rw [of_decide_eq_true hc] at h
    exact absurd h (by decide)

namespace IsPlain

variable {text : List Char}

/-- What holds of digits and of the other characters holds of the whole text. -/
theorem forall_mem (h : IsPlain text) {p : Char → Prop} (hd : ∀ c : Char, c.isDigit → p c)
    (ho : ∀ c ∈ ['.', 'i', 'n', 'f', 'N', 'a'], p c) : ∀ c ∈ text, p c := by
  intro c hc
  rcases h.2 c hc with hc | hc
  · exact hd c hc
  · exact ho c hc

theorem not_isSign (h : IsPlain text) : ∀ c ∈ text, Complex.isSign c = false :=
  h.forall_mem (fun _ hd => isSign_of_isDigit hd) (by decide)

theorem not_mark (h : IsPlain text) : ∀ c ∈ text, c ≠ 'e' ∧ c ≠ 'E' := by
  refine h.forall_mem (fun c hd => ?_) (by decide)
  constructor
  · rintro rfl
    exact absurd hd (by decide)
  · rintro rfl
    exact absurd hd (by decide)

end IsPlain

theorem isPlain_of_isRun {text : List Char} (h : IsRun text) (hne : text ≠ []) : IsPlain text := by
  refine ⟨hne, fun c hc => (h c hc).imp_right ?_⟩
  rintro rfl
  exact List.mem_cons_self

namespace Binary64

theorem isPlain_positional_abs (x : Binary64) : IsPlain x.abs.positional := by
  cases x with
  | nan => exact ⟨nofun, by decide⟩
  | inf negative =>
    show IsPlain ['i', 'n', 'f']
    exact ⟨nofun, by decide⟩
  | finite negative units h =>
    exact isPlain_of_isRun (Decimal.isRun_positional _) (Decimal.positional_ne_nil _)

theorem abs_of_not_isNegative {x : Binary64} (h : x.isNegative = false) : x.abs = x := by
  cases x with
  | nan => rfl
  | inf negative =>
    obtain rfl : negative = false := h
    rfl
  | finite negative units hu =>
    obtain rfl : negative = false := h
    rfl

theorem isPlain_positional {x : Binary64} (h : x.isNegative = false) : IsPlain x.positional := by
  rw [← abs_of_not_isNegative h]
  exact x.isPlain_positional_abs

/-- A negative double is written with a minus sign before the double of the other sign. -/
theorem positional_of_isNegative {x : Binary64} (h : x.isNegative = true) :
    x.positional = '-' :: (-x).positional ∧ (-x).isNegative = false := by
  cases x with
  | nan => cases h
  | inf negative =>
    obtain rfl : negative = true := h
    exact ⟨rfl, rfl⟩
  | finite negative units hu =>
    obtain rfl : negative = true := h
    exact ⟨rfl, rfl⟩

/-- A double in writing is a text without signs, and possibly a minus sign before it. -/
theorem exists_isPlain_positional (x : Binary64) :
    ∃ body, IsPlain body ∧ (x.positional = body ∨ x.positional = '-' :: body) := by
  cases hx : x.isNegative with
  | false => exact ⟨_, isPlain_positional hx, .inl rfl⟩
  | true =>
    obtain ⟨hp, hn⟩ := positional_of_isNegative hx
    exact ⟨_, isPlain_positional hn, .inr hp⟩

/-- The last character of a double is not taken for the imaginary unit. -/
theorem getLast?_positional (x : Binary64) : x.positional.getLast? ≠ some 'i' := by
  cases x with
  | nan => decide
  | inf negative => cases negative <;> decide
  | finite negative units h =>
    intro hi
    have hm : 'i' ∈ (if negative then ['-'] else []) ++ (Decimal.shortest units).positional :=
      List.mem_of_getLast? hi
    rcases List.mem_append.1 hm with hm | hm
    · cases negative <;> exact absurd hm (by decide)
    · exact absurd ((Decimal.shortest units).isRun_positional 'i' hm) (by decide)

/-- A plus sign in front of a double without a sign is read over. -/
theorem ofText?_plus {text : List Char} (h : IsPlain text) :
    ofText? ('+' :: text) = ofText? text := by
  show unsigned? false text = ofText? text
  unfold ofText?
  split
  · exact absurd (h.not_isSign '+' List.mem_cons_self) (by decide)
  · exact absurd (h.not_isSign '-' List.mem_cons_self) (by decide)
  · rfl

end Binary64

namespace Complex

/-! ## The split at the last sign -/

theorem splitAtSign?_eq_none {text : List Char} (h : ∀ c ∈ text.tail, isSign c = false) :
    splitAtSign? text = none := by
  fun_induction splitAtSign? text with
  | case1 a b rest front back hs ih =>
    rw [ih fun c hc => h c (List.mem_cons_of_mem b hc)] at hs
    cases hs
  | case2 a b rest hs hb => exact absurd hb.1 (by simp [h b List.mem_cons_self])
  | case3 => rfl
  | case4 => rfl

/-- A text is split at a sign behind which it is not, with a character in front of it that is no
mark of an exponent. -/
theorem splitAtSign?_append {front back : List Char} {s : Char} (hs : isSign s = true)
    (hfront : ∃ c ∈ front.getLast?, c ≠ 'e' ∧ c ≠ 'E') (hback : splitAtSign? (s :: back) = none) :
    splitAtSign? (front ++ s :: back) = some (front, s :: back) := by
  induction front with
  | nil =>
    obtain ⟨c, hc, -⟩ := hfront
    cases hc
  | cons a front ih =>
    cases front with
    | nil =>
      obtain ⟨c, hc, hm⟩ := hfront
      obtain rfl : a = c := Option.some.inj hc
      show splitAtSign? (a :: s :: back) = _
      rw [splitAtSign?, hback]
      exact if_pos ⟨hs, hm⟩
    | cons b front =>
      have hsome := ih (by rwa [List.getLast?_cons_cons] at hfront)
      rw [List.cons_append] at hsome
      rw [List.cons_append, List.cons_append, splitAtSign?, hsome]

/-- The sign of the real part is no place to split at. -/
example : splitAtSign? "-inf+NaN".toList = some ("-inf".toList, "+NaN".toList) := by decide

/-! ## What is read -/

theorem ofCompact?_real {text : List Char} (h : text.getLast? ≠ some 'i') :
    ofCompact? text = (Binary64.ofText? text).map ofReal :=
  if_neg h

theorem ofCompact?_unit (body : List Char) :
    ofCompact? (body ++ ['i']) =
      match splitAtSign? body with
      | some (front, back) =>
        (Binary64.ofText? front).bind fun re => (imaginary? back).map fun im => ⟨re, im⟩
      | none => (imaginary? body).map fun im => ⟨.zero, im⟩ := by
  have hb : (body ++ ['i']).dropLast = body := List.dropLast_concat
  refine (if_pos List.getLast?_concat).trans ?_
  exact hb.symm ▸ rfl

/-- A number of units with a digit or a word in it is a double. -/
theorem imaginary?_eq {text : List Char} {c : Char} (hc : c ∈ text) (hs : isSign c = false) :
    imaginary? text = Binary64.ofText? text := by
  have hone : ¬(text = [] ∨ text = ['+']) := by
    rintro (rfl | rfl)
    · cases hc
    · rw [List.mem_singleton.1 hc] at hs
      cases hs
  have hminus : text ≠ ['-'] := by
    rintro rfl
    rw [List.mem_singleton.1 hc] at hs
    cases hs
  unfold imaginary?
  rw [if_neg hone, if_neg hminus]

theorem imaginary?_positional (x : Binary64) : imaginary? x.positional = some x := by
  obtain ⟨body, hp, hx⟩ := x.exists_isPlain_positional
  obtain ⟨c, hc⟩ := List.exists_mem_of_ne_nil body hp.1
  have hm : c ∈ x.positional := by
    rcases hx with hx | hx
    · rwa [hx]
    · rw [hx]
      exact List.mem_cons_of_mem _ hc
  rw [imaginary?_eq hm (hp.not_isSign c hc), Binary64.ofText?_positional]

theorem imaginary?_plus {x : Binary64} (h : x.isNegative = false) :
    imaginary? ('+' :: x.positional) = some x := by
  have hp := Binary64.isPlain_positional h
  obtain ⟨c, hc⟩ := List.exists_mem_of_ne_nil _ hp.1
  rw [imaginary?_eq (List.mem_cons_of_mem _ hc) (hp.not_isSign c hc), Binary64.ofText?_plus hp,
    Binary64.ofText?_positional]

/-- A double and a number of units with its sign are read as a number with these parts. -/
theorem ofCompact?_both {x y : Binary64} {s : Char} {back : List Char} (hs : isSign s = true)
    (hback : ∀ c ∈ back, isSign c = false) (hy : imaginary? (s :: back) = some y) :
    ofCompact? (x.positional ++ s :: back ++ ['i']) = some ⟨x, y⟩ := by
  have hlast : ∃ c ∈ x.positional.getLast?, c ≠ 'e' ∧ c ≠ 'E' := by
    obtain ⟨body, hp, hx⟩ := x.exists_isPlain_positional
    have hlast : x.positional.getLast? = body.getLast? := by
      rcases hx with hx | hx
      · rw [hx]
      · rw [hx, List.getLast?_cons_of_ne_nil hp.1]
    rw [hlast, List.getLast?_eq_some_getLast hp.1]
    exact ⟨_, rfl, hp.not_mark _ (List.getLast_mem hp.1)⟩
  rw [ofCompact?_unit, splitAtSign?_append hs hlast (splitAtSign?_eq_none hback)]
  show (Binary64.ofText? x.positional).bind _ = _
  rw [Binary64.ofText?_positional, Option.bind_some, hy]
  rfl

theorem ofCompact?_imaginary (y : Binary64) :
    ofCompact? (y.positional ++ ['i']) = some ⟨.zero, y⟩ := by
  have hnone : splitAtSign? y.positional = none := by
    refine splitAtSign?_eq_none fun c hc => ?_
    obtain ⟨body, hp, hy⟩ := y.exists_isPlain_positional
    rcases hy with hy | hy
    · rw [hy] at hc
      exact hp.not_isSign c (List.mem_of_mem_tail hc)
    · rw [hy] at hc
      exact hp.not_isSign c hc
  rw [ofCompact?_unit, hnone, imaginary?_positional]
  rfl

/-! ## What is written -/

/-- A number is read back from its writing with the signs of its zeros dropped. -/
theorem ofCompact?_text (z : Complex) : ofCompact? z.text = some (z + zero) := by
  have hz : z + zero = ⟨z.re + .zero, z.im + .zero⟩ := rfl
  rw [hz]
  unfold text
  dsimp only
  generalize hre : z.re + .zero = re
  generalize him : z.im + .zero = im
  cases hi : im.isZero with
  | true =>
    obtain rfl : im = .zero := by
      rw [← him] at hi ⊢
      exact Binary64.eq_zero_of_isZero_add_zero hi
    rw [if_pos rfl, ofCompact?_real re.getLast?_positional, Binary64.ofText?_positional]
    rfl
  | false =>
    rw [if_neg nofun]
    cases hr : re.isZero with
    | true =>
      obtain rfl : re = .zero := by
        rw [← hre] at hr ⊢
        exact Binary64.eq_zero_of_isZero_add_zero hr
      rw [if_pos rfl]
      exact ofCompact?_imaginary im
    | false =>
      rw [if_neg nofun, Binary64.lt_zero_of_not_isZero hi]
      cases hn : im.isNegative with
      | true =>
        obtain ⟨hp, hpos⟩ := Binary64.positional_of_isNegative hn
        rw [if_pos rfl]
        refine ofCompact?_both rfl (Binary64.isPlain_positional hpos).not_isSign ?_
        rw [← hp]
        exact imaginary?_positional im
      | false =>
        rw [if_neg nofun]
        exact ofCompact?_both rfl (Binary64.isPlain_positional hn).not_isSign (imaginary?_plus hn)

/-- What holds of the characters of the parts, of signs and of the unit holds of the whole number in
writing. -/
theorem forall_mem_text {z : Complex} {p : Char → Prop}
    (hx : ∀ x ∈ [z.re + .zero, z.im + .zero, -(z.im + .zero)], ∀ c ∈ x.positional, p c)
    (hm : ∀ c ∈ ['+', '-', 'i'], p c) : ∀ c ∈ z.text, p c := by
  simp only [List.forall_mem_cons] at hx hm
  obtain ⟨hre, him, hneg, -⟩ := hx
  obtain ⟨hplus, hminus, hi, -⟩ := hm
  have hunit : ∀ c ∈ ['i'], p c := List.forall_mem_singleton.2 hi
  unfold text
  dsimp only
  split
  · exact hre
  split
  · exact List.forall_mem_append.2 ⟨him, hunit⟩
  split
  · refine List.forall_mem_append.2 ⟨List.forall_mem_append.2 ⟨hre, ?_⟩, hunit⟩
    exact List.forall_mem_cons.2 ⟨hminus, hneg⟩
  · refine List.forall_mem_append.2 ⟨List.forall_mem_append.2 ⟨hre, ?_⟩, hunit⟩
    exact List.forall_mem_cons.2 ⟨hplus, him⟩

/-- What holds of digits, of the other characters of doubles and of signs holds of every number in
writing. -/
theorem forall_mem_text_of_plain (z : Complex) {p : Char → Prop} (hd : ∀ c : Char, c.isDigit → p c)
    (ho : ∀ c ∈ ['.', 'i', 'n', 'f', 'N', 'a'], p c) (hs : ∀ c ∈ ['+', '-'], p c) :
    ∀ c ∈ z.text, p c := by
  refine forall_mem_text (fun x _ => ?_) ?_
  · obtain ⟨body, hp, hx | hx⟩ := x.exists_isPlain_positional
    · rw [hx]
      exact hp.forall_mem hd ho
    · rw [hx]
      exact List.forall_mem_cons.2 ⟨hs '-' (by decide), hp.forall_mem hd ho⟩
  · have hi : ∀ c ∈ ['i'], p c := List.forall_mem_singleton.2 (ho 'i' (by decide))
    exact List.forall_mem_append.2 ⟨hs, hi⟩

/-- There is no blank in a number in writing. -/
theorem not_isBlank_of_mem_text (z : Complex) : ∀ c ∈ z.text, Text.isBlank c = false :=
  z.forall_mem_text_of_plain (fun _ => isBlank_of_isDigit) (by decide) (by decide)

theorem ofText_text (z : Complex) : ofText z.text = .ok (z + zero) := by
  have hb : Text.withoutBlanks z.text = z.text :=
    List.filter_eq_self.2 fun c hc => by rw [z.not_isBlank_of_mem_text c hc, Bool.not_false]
  unfold ofText
  rw [hb, ofCompact?_text]

theorem text_eq_of_add_zero {z w : Complex} (h : z + zero = w + zero) : z.text = w.text := by
  have hre : z.re + .zero = w.re + .zero := congrArg re h
  have him : z.im + .zero = w.im + .zero := congrArg im h
  unfold text
  rw [hre, him]

/-- **A number in writing is read back as the same number**, whatever its parts are, and two numbers
are the same exactly if they are written in the same way. -/
theorem text_reads_back (z : Complex) :
    (∃ w, ofText z.text = .ok w ∧ w.same z = true) ∧
      ∀ w : Complex, z.same w = true ↔ z.text = w.text := by
  refine ⟨⟨z + zero, ofText_text z, ?_⟩, fun w => ?_⟩
  · exact same_iff.2 ⟨Binary64.place_add_zeroOf z.re false, Binary64.place_add_zeroOf z.im false⟩
  · constructor
    · intro h
      exact text_eq_of_add_zero (same_iff_add_zero.1 h)
    · intro h
      have ht := ofText_text z
      rw [h, ofText_text w] at ht
      exact same_iff_add_zero.2 (Except.ok.inj ht).symm

end Complex

end Argand
