import Mathlib.Data.List.Chain
import Argand.Proofs.Readers

/-!
The forms of a complex number.

A complex number on its own is written in one of six forms, with doubles `r` and `t`, a sign `s` and
a double `u` without a sign in front:

    r    i    s i    t i    r s i    r s u i

The reader does not try them one after another.  It looks for the last sign that is neither the
first character nor behind the mark of an exponent, and takes the text apart there.  `Form.read`
does no more than that, for any text, and the number is the value of the form that is read
(`ofCompact?_eq_value_read`).  What remains to be shown is that the form of a number is the one read
from its text (`Form.read_text`).

This rests on what a double can look like (`IsDoubleText`): a sign in it stands in front or behind
the mark of an exponent, so a double is not taken apart, and its last character is neither a mark of
an exponent nor a sign nor an `i`.  So the sign between two parts is no sign of an exponent, and
where it is the last one that counts, the parts are those of the form.

Main statement: `Complex.ofText_eq_ok_iff_form`.
-/

namespace Argand

-- What holds of the members of a list is decided along the list, not character by character.
attribute [local instance (high)] List.decidableBAll

/-- If the second character is a sign, then it is the sign of an exponent. -/
def Follows (a b : Char) : Prop := Complex.isSign b = true → a = 'e' ∨ a = 'E'

def Sign.char : Sign → Char
  | plus => '+'
  | minus => '-'

theorem Sign.isSign_char (s : Sign) : Complex.isSign s.char = true := by
  cases s <;> rfl

theorem exists_char_eq_of_isSign {c : Char} (h : Complex.isSign c = true) :
    ∃ s : Sign, c = s.char := by
  rcases Bool.or_eq_true_iff.1 h with h | h
  · exact ⟨.plus, of_decide_eq_true h⟩
  · exact ⟨.minus, of_decide_eq_true h⟩

namespace Complex

/-! ## Texts that are not taken apart -/

theorem splitAtSign?_eq_none_iff {text : List Char} :
    splitAtSign? text = none ↔ text.IsChain Follows := by
  fun_induction splitAtSign? text with
  | case1 a b rest front back hs ih =>
    refine iff_of_false (Option.some_ne_none _) fun h => ?_
    rw [ih.2 (List.isChain_cons_cons.1 h).2] at hs
    cases hs
  | case2 a b rest hs hb =>
    refine iff_of_false (Option.some_ne_none _) fun h => ?_
    rcases (List.isChain_cons_cons.1 h).1 hb.1 with ha | ha
    · exact hb.2.1 ha
    · exact hb.2.2 ha
  | case3 a b rest hs hb ih =>
    refine iff_of_true rfl (List.isChain_cons_cons.2 ⟨fun hsign => ?_, ih.1 hs⟩)
    by_contra hm
    exact hb ⟨hsign, not_or.1 hm⟩
  | case4 text hshort =>
    refine iff_of_true rfl ?_
    rcases text with _ | ⟨a, _ | ⟨b, rest⟩⟩
    · exact .nil
    · exact List.isChain_singleton a
    · exact absurd rfl (hshort a b rest)

theorem isChain_of_not_isSign {text : List Char} (h : ∀ c ∈ text, isSign c = false) :
    text.IsChain Follows :=
  splitAtSign?_eq_none_iff.1 (splitAtSign?_eq_none fun c hc => h c (List.mem_of_mem_tail hc))

/-! ## The characters of a double -/

/-- What the split of a text depends on in a double. -/
structure IsDoubleText (text : List Char) : Prop where
  chain : text.IsChain Follows
  last : ∃ c ∈ text.getLast?, isSign c = false ∧ c ≠ 'i' ∧ c ≠ 'e' ∧ c ≠ 'E'

/-- A double without a sign in front. -/
structure IsUnsignedText (text : List Char) : Prop extends IsDoubleText text where
  head : ∀ c ∈ text.head?, isSign c = false

theorem IsDoubleText.cons {c : Char} {text : List Char} (h : IsDoubleText text)
    (hhead : ∀ d ∈ text.head?, Follows c d) : IsDoubleText (c :: text) := by
  obtain ⟨l, hl, hlast⟩ := h.last
  refine ⟨List.isChain_cons.2 ⟨hhead, h.chain⟩, l, ?_, hlast⟩
  rw [List.getLast?_cons, Option.mem_def.1 hl]
  rfl

theorem IsUnsignedText.follows {text : List Char} (h : IsUnsignedText text) (c : Char) :
    ∀ d ∈ text.head?, Follows c d := by
  intro d hd hs
  rw [h.head d hd] at hs
  cases hs

/-- A text in which no character is a sign. -/
theorem isUnsignedText_of_not_isSign {text : List Char} (h : ∀ c ∈ text, isSign c = false)
    (hlast : ∃ c ∈ text.getLast?, c ≠ 'i' ∧ c ≠ 'e' ∧ c ≠ 'E') : IsUnsignedText text := by
  obtain ⟨l, hl, hne⟩ := hlast
  exact ⟨⟨isChain_of_not_isSign h, l, hl, h l (List.mem_of_getLast? hl), hne⟩,
    fun c hc => h c (List.mem_of_mem_head? hc)⟩

/-- A word, in either case. -/
theorem isUnsignedText_of_word {text word : List Char} (h : text.map Char.toLower = word)
    (hsign : ∀ c ∈ word, isSign c = false) (hlast : ∃ c ∈ word.getLast?, c ≠ 'i' ∧ c ≠ 'e') :
    IsUnsignedText text := by
  subst h
  refine isUnsignedText_of_not_isSign (fun c hc => ?_) ?_
  · have hl := hsign c.toLower (List.mem_map_of_mem hc)
    rw [Bool.eq_false_iff]
    intro hs
    rcases Bool.or_eq_true_iff.1 hs with hs | hs
    · rw [of_decide_eq_true hs] at hl
      exact absurd hl (by decide)
    · rw [of_decide_eq_true hs] at hl
      exact absurd hl (by decide)
  · obtain ⟨l, hl, hi, he⟩ := hlast
    rw [List.getLast?_map, Option.mem_def, Option.map_eq_some_iff] at hl
    obtain ⟨c, hc, rfl⟩ := hl
    refine ⟨c, hc, ?_, ?_, ?_⟩
    · rintro rfl
      exact hi rfl
    · rintro rfl
      exact he rfl
    · rintro rfl
      exact he rfl

theorem isUnsignedText_of_isRun {text : List Char} (h : IsRun text) (hne : text ≠ []) :
    IsUnsignedText text := by
  have hmem {p : Char → Prop} (hd : ∀ c : Char, c.isDigit → p c) (hpoint : p '.') :
      ∀ c ∈ text, p c := by
    intro c hc
    rcases h c hc with hc | rfl
    · exact hd c hc
    · exact hpoint
  have hneDigit {c d : Char} (hd : d.isDigit) (hc : c.isDigit = false) : d ≠ c := by
    rintro rfl
    rw [hd] at hc
    cases hc
  refine isUnsignedText_of_not_isSign (hmem (fun c hd => isSign_of_isDigit hd) rfl) ?_
  rw [List.getLast?_eq_some_getLast hne]
  refine ⟨_, rfl, hmem (p := fun c => c ≠ 'i' ∧ c ≠ 'e' ∧ c ≠ 'E') (fun c hd => ?_) (by decide) _
    (List.getLast_mem hne)⟩
  exact ⟨hneDigit hd rfl, hneDigit hd rfl, hneDigit hd rfl⟩

theorem isUnsignedText_of_natural? {text : List Char} {n : Nat}
    (h : Decimal.natural? text = some n) : IsUnsignedText text := by
  unfold Decimal.natural? at h
  split at h
  · next hd => exact isUnsignedText_of_isRun (fun c hc => .inl (List.all_eq_true.1 hd.2 c hc)) hd.1
  · cases h

/-- The sign of an exponent stands behind its mark. -/
theorem isUnsignedText_of_exponent? {text : List Char} {e : Int} (hne : text ≠ [])
    (h : Decimal.exponent? text = some e) : IsUnsignedText text := by
  rcases text with _ | ⟨c, text⟩
  · exact absurd rfl hne
  rw [Decimal.exponent?] at h
  split at h
  · next hmark =>
    have hdouble : IsDoubleText text := by
      unfold Decimal.integer? at h
      split at h
      · next digits =>
        obtain ⟨_, hn, -⟩ := Option.map_eq_some_iff.1 h
        obtain ⟨n, hn, -⟩ := Option.bind_eq_some_iff.1 hn
        have hdigits := isUnsignedText_of_natural? hn
        exact hdigits.cons (hdigits.follows '+')
      · next digits =>
        obtain ⟨_, hn, -⟩ := Option.map_eq_some_iff.1 h
        obtain ⟨n, hn, -⟩ := Option.bind_eq_some_iff.1 hn
        have hdigits := isUnsignedText_of_natural? hn
        exact hdigits.cons (hdigits.follows '-')
      · obtain ⟨_, hn, -⟩ := Option.map_eq_some_iff.1 h
        obtain ⟨n, hn, -⟩ := Option.bind_eq_some_iff.1 hn
        exact (isUnsignedText_of_natural? hn).toIsDoubleText
    refine ⟨hdouble.cons fun d _ _ => hmark, fun d hd => ?_⟩
    obtain rfl : c = d := Option.some.inj hd
    rcases hmark with rfl | rfl <;> rfl
  · cases h

/-- Digits and points, and possibly an exponent behind them. -/
theorem IsUnsignedText.append {mantissa rest : List Char} {e : Int} (h : IsUnsignedText mantissa)
    (hne : mantissa ≠ []) (he : Decimal.exponent? rest = some e) :
    IsUnsignedText (mantissa ++ rest) := by
  by_cases hrest : rest = []
  · rw [hrest, List.append_nil]
    exact h
  · have hexponent := isUnsignedText_of_exponent? hrest he
    refine ⟨⟨List.isChain_append.2 ⟨h.chain, hexponent.chain, ?_⟩, ?_⟩, ?_⟩
    · intro c _
      exact hexponent.follows c
    · rw [List.getLast?_append_of_ne_nil _ hrest]
      exact hexponent.last
    · rw [List.head?_append_of_ne_nil _ hne]
      exact h.head

theorem isUnsignedText_of_ofText? {text : List Char} {d : Decimal}
    (h : Decimal.ofText? text = some d) : IsUnsignedText text := by
  obtain ⟨whole, fraction, rest, hw, hf, hd, ht⟩ := exists_parts_of_ofText? h
  unfold Decimal.assemble? at hd
  split at hd
  · cases hd
  next hdigits =>
  obtain ⟨e, he, -⟩ := Option.map_eq_some_iff.1 hd
  have hwhole : IsRun whole := fun c hc => .inl (hw c hc)
  rcases ht with ⟨rfl, rfl⟩ | rfl
  · have hne : whole ≠ [] := fun h0 => hdigits ⟨h0, rfl⟩
    exact (isUnsignedText_of_isRun hwhole hne).append hne he
  · have hrun : IsRun (whole ++ '.' :: fraction) :=
      List.forall_mem_append.2
        ⟨hwhole, List.forall_mem_cons.2 ⟨.inr rfl, fun c hc => .inl (hf c hc)⟩⟩
    have hne : whole ++ '.' :: fraction ≠ [] := List.append_ne_nil_of_right_ne_nil _ nofun
    rw [← List.cons_append, ← List.append_assoc]
    exact (isUnsignedText_of_isRun hrun hne).append hne he

theorem isUnsignedText_of_unsigned? {text : List Char} {negative : Bool} {x : Binary64}
    (h : Binary64.unsigned? negative text = some x) : IsUnsignedText text := by
  unfold Binary64.unsigned? at h
  dsimp only at h
  split at h
  · next hword =>
    rcases hword with hword | hword
    · exact isUnsignedText_of_word hword (by decide) ⟨'f', rfl, by decide⟩
    · exact isUnsignedText_of_word hword (by decide) ⟨'y', rfl, by decide⟩
  split at h
  · next hword => exact isUnsignedText_of_word hword (by decide) ⟨'n', rfl, by decide⟩
  · obtain ⟨d, hd, -⟩ := Option.map_eq_some_iff.1 h
    exact isUnsignedText_of_ofText? hd

theorem isDoubleText_of_ofText? {text : List Char} {x : Binary64}
    (h : Binary64.ofText? text = some x) : IsDoubleText text := by
  unfold Binary64.ofText? at h
  split at h
  · next text =>
    have htext := isUnsignedText_of_unsigned? h
    exact htext.cons (htext.follows '+')
  · next text =>
    have htext := isUnsignedText_of_unsigned? h
    exact htext.cons (htext.follows '-')
  · exact (isUnsignedText_of_unsigned? h).toIsDoubleText

/-! ### Signs in front -/

/-- A sign in front of a double turns its sign round, or leaves it. -/
theorem ofText?_char (s : Sign) (u : List Char) :
    Binary64.ofText? (s.char :: u) = (Binary64.unsigned? false u).map s.before := by
  cases s with
  | plus => exact Option.map_id'.symm
  | minus =>
    show Binary64.unsigned? true u = (Binary64.unsigned? false u).map Neg.neg
    unfold Binary64.unsigned?
    dsimp only
    split
    · rfl
    split
    · rfl
    · rw [Option.map_map]
      exact congrArg (fun f => (Decimal.ofText? u).map f) (funext Decimal.toBinary64_true)

/-- No double has two signs in front. -/
theorem unsigned?_eq_none {u : List Char} (h : u.head?.any isSign = true) (negative : Bool) :
    Binary64.unsigned? negative u = none := by
  obtain ⟨c, hc, hs⟩ := (Option.any_eq_true _ _).1 h
  cases hu : Binary64.unsigned? negative u with
  | none => rfl
  | some x =>
    rw [(isUnsignedText_of_unsigned? hu).head c hc] at hs
    cases hs

theorem ofText?_of_not_isSign {u : List Char} (h : ¬u.head?.any isSign = true) :
    Binary64.ofText? u = Binary64.unsigned? false u := by
  unfold Binary64.ofText?
  split
  · exact absurd rfl h
  · exact absurd rfl h
  · rfl

/-! ## Forms -/

/-- A form of a complex number, with texts as its parts. -/
inductive Form where
  | real (r : List Char)
  | unit
  | signedUnit (s : Sign)
  | imaginary (t : List Char)
  | realUnit (r : List Char) (s : Sign)
  | both (r : List Char) (s : Sign) (u : List Char)
deriving DecidableEq

namespace Form

def text : Form → List Char
  | real r => r
  | unit => ['i']
  | signedUnit s => [s.char, 'i']
  | imaginary t => t ++ ['i']
  | realUnit r s => r ++ [s.char, 'i']
  | both r s u => r ++ s.char :: u ++ ['i']

/-- The number in this form, if the texts are doubles, the last one without a sign in front. -/
def value? : Form → Option Complex
  | real r => (Binary64.ofText? r).map fun x => ⟨x, .zero⟩
  | unit => some ⟨.zero, .one⟩
  | signedUnit s => some ⟨.zero, s.before .one⟩
  | imaginary t => (Binary64.ofText? t).map fun y => ⟨.zero, y⟩
  | realUnit r s => (Binary64.ofText? r).map fun x => ⟨x, s.before .one⟩
  | both r s u =>
    if u.head?.any isSign then none
    else (Binary64.ofText? r).bind fun x => (Binary64.ofText? u).map fun y => ⟨x, s.before y⟩

/-- Where the form is to be taken apart. -/
def parts? : Form → Option (List Char × List Char)
  | realUnit r s => some (r, [s.char])
  | both r s u => some (r, s.char :: u)
  | _ => none

/-! ### The form that is read -/

/-- The form of an imaginary part on its own. -/
def alone : List Char → Form
  | [] => unit
  | ['+'] => signedUnit .plus
  | ['-'] => signedUnit .minus
  | t => imaginary t

/-- The form of an imaginary part behind a real one; its first character is a sign. -/
def behind (r : List Char) : List Char → Form
  | [] => imaginary r
  | c :: u =>
    let s := if c = '-' then Sign.minus else .plus
    if u = [] then realUnit r s else both r s u

/-- The form that a text has if it is a number. -/
def read (text : List Char) : Form :=
  if text.getLast? = some 'i' then
    match splitAtSign? text.dropLast with
    | some (front, back) => behind front back
    | none => alone text.dropLast
  else real text

theorem read_real {text : List Char} (h : text.getLast? ≠ some 'i') : read text = real text :=
  if_neg h

theorem read_unit (body : List Char) :
    read (body ++ ['i']) =
      match splitAtSign? body with
      | some (front, back) => behind front back
      | none => alone body := by
  have hb : (body ++ ['i']).dropLast = body := List.dropLast_concat
  refine (if_pos List.getLast?_concat).trans ?_
  rw [hb]

theorem behind_char (r : List Char) (s : Sign) (u : List Char) :
    behind r (s.char :: u) = if u = [] then realUnit r s else both r s u := by
  cases s <;> rfl

/-- An imaginary part that is neither left out nor a sign. -/
theorem alone_eq {t : List Char} {c : Char} (hc : c ∈ t) (hs : isSign c = false) :
    alone t = imaginary t := by
  unfold alone
  split
  · cases hc
  · rw [List.mem_singleton.1 hc] at hs
    cases hs
  · rw [List.mem_singleton.1 hc] at hs
    cases hs
  · rfl

theorem text_alone (body : List Char) : (alone body).text = body ++ ['i'] := by
  unfold alone
  split <;> rfl

theorem text_behind (r : List Char) (s : Sign) (u : List Char) :
    (behind r (s.char :: u)).text = r ++ s.char :: u ++ ['i'] := by
  rw [behind_char]
  split
  · next hu =>
    rw [hu, text, List.append_assoc]
    rfl
  · rfl

/-- The form that is read from a text has this text. -/
theorem text_read (source : List Char) : (read source).text = source := by
  by_cases hlast : source.getLast? = some 'i'
  · obtain ⟨body, rfl⟩ := List.getLast?_eq_some_iff.1 hlast
    rw [read_unit]
    cases hsplit : splitAtSign? body with
    | none => exact text_alone body
    | some parts =>
      obtain ⟨front, back⟩ := parts
      obtain ⟨c, u, rfl, hc⟩ := exists_sign_of_splitAtSign? hsplit
      obtain ⟨s, rfl⟩ := exists_char_eq_of_isSign hc
      rw [← append_of_splitAtSign? hsplit]
      exact text_behind front s u
  · rw [read_real hlast]
    rfl

/-! ### Its value -/

theorem value?_alone (body : List Char) :
    (alone body).value? = (imaginary? body).map fun y => ⟨.zero, y⟩ := by
  unfold alone imaginary?
  split
  · rfl
  · rfl
  · rfl
  · next hne hplus hminus =>
    rw [if_neg (not_or.2 ⟨hne, hplus⟩), if_neg hminus]
    rfl

theorem imaginary?_sign (s : Sign) : imaginary? [s.char] = some (s.before .one) := by
  cases s <;> rfl

/-- The sign in front of a double, read with it or on its own. -/
theorem imaginary?_char (s : Sign) {u : List Char} (hu : u ≠ []) :
    imaginary? (s.char :: u) =
      if u.head?.any isSign then none else (Binary64.ofText? u).map s.before := by
  have hone (c : Char) : s.char :: u ≠ [c] := fun h => hu (List.cons.inj h).2
  unfold imaginary?
  rw [if_neg (not_or.2 ⟨nofun, hone '+'⟩), if_neg (hone '-'), ofText?_char]
  split
  · next hs =>
    rw [unsigned?_eq_none hs]
    rfl
  · next hs => rw [ofText?_of_not_isSign hs]

theorem value?_behind (r : List Char) (s : Sign) (u : List Char) :
    (behind r (s.char :: u)).value? =
      (Binary64.ofText? r).bind fun x => (imaginary? (s.char :: u)).map fun y => ⟨x, y⟩ := by
  rw [behind_char]
  split
  · next hu =>
    rw [hu, imaginary?_sign, value?]
    cases Binary64.ofText? r <;> rfl
  · next hu =>
    rw [imaginary?_char s hu, value?]
    split
    · cases Binary64.ofText? r <;> rfl
    · simp only [Option.map_map]
      rfl

end Form

/-- The reader gives the value of the form that is read. -/
theorem ofCompact?_eq_value_read (text : List Char) :
    ofCompact? text = (Form.read text).value? := by
  by_cases hlast : text.getLast? = some 'i'
  · obtain ⟨body, rfl⟩ := List.getLast?_eq_some_iff.1 hlast
    rw [ofCompact?_unit, Form.read_unit]
    cases hsplit : splitAtSign? body with
    | none => exact (Form.value?_alone body).symm
    | some parts =>
      obtain ⟨front, back⟩ := parts
      obtain ⟨c, u, rfl, hc⟩ := exists_sign_of_splitAtSign? hsplit
      obtain ⟨s, rfl⟩ := exists_char_eq_of_isSign hc
      exact (Form.value?_behind front s u).symm
  · rw [ofCompact?_real hlast, Form.read_real hlast]
    rfl

/-! ### Numbers -/

namespace Form

theorem isDoubleText_of_map {text : List Char} {f : Binary64 → Complex}
    (h : ((Binary64.ofText? text).map f).isSome) : IsDoubleText text := by
  obtain ⟨x, hx⟩ := Option.isSome_iff_exists.1 (Option.isSome_map .. ▸ h)
  exact isDoubleText_of_ofText? hx

theorem isDoubleText_both {r u : List Char} {s : Sign} (h : (both r s u).value?.isSome) :
    IsDoubleText r ∧ IsUnsignedText u := by
  obtain ⟨z, hz⟩ := Option.isSome_iff_exists.1 h
  rw [value?] at hz
  split at hz
  · cases hz
  · next hs =>
    obtain ⟨x, hx, hz⟩ := Option.bind_eq_some_iff.1 hz
    obtain ⟨y, hy, -⟩ := Option.map_eq_some_iff.1 hz
    rw [ofText?_of_not_isSign hs] at hy
    exact ⟨isDoubleText_of_ofText? hx, isUnsignedText_of_unsigned? hy⟩

/-- A number is taken apart between its parts and nowhere else. -/
theorem splitAtSign?_eq_parts? {form : Form} (h : form.value?.isSome) {body : List Char}
    (hb : form.text = body ++ ['i']) : splitAtSign? body = form.parts? := by
  have hmark {r : List Char} (hr : IsDoubleText r) : ∃ c ∈ r.getLast?, c ≠ 'e' ∧ c ≠ 'E' := by
    obtain ⟨c, hc, -, -, hm⟩ := hr.last
    exact ⟨c, hc, hm⟩
  cases form with
  | real r =>
    obtain ⟨c, hc, -, hi, -⟩ := (isDoubleText_of_map h).last
    rw [show r = body ++ ['i'] from hb, List.getLast?_concat] at hc
    exact absurd (Option.some.inj hc).symm hi
  | unit =>
    obtain rfl := List.append_cancel_right (show [] ++ ['i'] = body ++ ['i'] from hb)
    rfl
  | signedUnit s =>
    obtain rfl := List.append_cancel_right (show [s.char] ++ ['i'] = body ++ ['i'] from hb)
    rfl
  | imaginary t =>
    obtain rfl : t = body := List.append_cancel_right hb
    exact splitAtSign?_eq_none_iff.2 (isDoubleText_of_map h).chain
  | realUnit r s =>
    have hb : r ++ [s.char] ++ ['i'] = body ++ ['i'] := by rwa [List.append_assoc]
    obtain rfl := List.append_cancel_right hb
    exact splitAtSign?_append s.isSign_char (hmark (isDoubleText_of_map h)) rfl
  | both r s u =>
    obtain ⟨hr, hu⟩ := isDoubleText_both h
    obtain rfl : r ++ s.char :: u = body := List.append_cancel_right hb
    exact splitAtSign?_append s.isSign_char (hmark hr)
      (splitAtSign?_eq_none_iff.2 (hu.cons (hu.follows s.char)).chain)

/-- The form of a number is the one that is read from its text. -/
theorem read_text {form : Form} (h : form.value?.isSome) : read form.text = form := by
  cases form with
  | real r =>
    obtain ⟨c, hc, -, hi, -⟩ := (isDoubleText_of_map h).last
    refine read_real fun hlast => hi ?_
    exact Option.some.inj (hc.symm.trans hlast)
  | unit => rfl
  | signedUnit s => cases s <;> rfl
  | imaginary t =>
    obtain ⟨c, hc, hs, -⟩ := (isDoubleText_of_map h).last
    show read (t ++ ['i']) = _
    rw [read_unit, splitAtSign?_eq_parts? h rfl]
    exact alone_eq (List.mem_of_getLast? hc) hs
  | realUnit r s =>
    have ht : (realUnit r s).text = r ++ [s.char] ++ ['i'] := by
      rw [List.append_assoc]
      rfl
    rw [ht, read_unit, splitAtSign?_eq_parts? h ht]
    exact (behind_char r s []).trans (if_pos rfl)
  | both r s u =>
    have hu : u ≠ [] := by
      rintro rfl
      obtain ⟨c, hc, -⟩ := (isDoubleText_both h).2.last
      cases hc
    show read (r ++ s.char :: u ++ ['i']) = _
    rw [read_unit, splitAtSign?_eq_parts? h rfl]
    exact (behind_char r s u).trans (if_neg hu)

end Form

/-- **A text is read as a complex number exactly if it has one of the six forms**, blanks apart, and
then it has only one of them.  It is taken apart where the real part of this form ends and nowhere
else, so no sign of an exponent is taken for the sign between the parts, or the other way round.
Whether the text is a number or not, the two pieces are the whole text again. -/
theorem ofText_eq_ok_iff_form (source : List Char) :
    let text := Text.withoutBlanks source
    (∀ z, ofText source = .ok z ↔ ∃ form : Form, form.text = text ∧ form.value? = some z) ∧
      (∀ form form' : Form, form.text = text → form'.text = text →
        form.value?.isSome → form'.value?.isSome → form = form') ∧
      (∀ form : Form, form.text = text → form.value?.isSome →
        ∀ body, text = body ++ ['i'] → splitAtSign? body = form.parts?) ∧
      ∀ body front back, text = body ++ ['i'] → splitAtSign? body = some (front, back) →
        front ++ back = body := by
  intro text
  refine ⟨fun z => ⟨fun h => ?_, ?_⟩, ?_, ?_, ?_⟩
  · refine ⟨.read text, Form.text_read text, ?_⟩
    rw [← ofCompact?_eq_value_read]
    exact ofCompact?_of_ofText h
  · rintro ⟨form, ht, hz⟩
    have hread : Form.read text = form := by
      rw [← ht]
      exact Form.read_text (Option.isSome_of_eq_some hz)
    have hcompact : ofCompact? text = some z := by rw [ofCompact?_eq_value_read, hread, hz]
    unfold ofText
    rw [hcompact]
  · intro form form' ht ht' h h'
    rw [← Form.read_text h, ← Form.read_text h', ht, ht']
  · intro form ht h body hb
    exact Form.splitAtSign?_eq_parts? h (ht.trans hb)
  · intro body front back _ h
    exact append_of_splitAtSign? h

/-- Exponents with either sign, in a number with two parts. -/
theorem ofText_exponents :
    let source := "1e-3 - 2E+4i".toList
    let form := Form.both "1e-3".toList .minus "2E+4".toList
    form.text = Text.withoutBlanks source ∧ form.value?.isSome ∧
      (∃ z, form.value? = some z ∧ ofText source = .ok z) ∧
      (∀ other : Form, other.text = Text.withoutBlanks source → other.value?.isSome →
        other = form) ∧
      splitAtSign? "1e-3-2E+4".toList = some ("1e-3".toList, "-2E+4".toList) := by
  intro source form
  have ht : form.text = Text.withoutBlanks source := by decide +kernel
  have hv : form.value?.isSome := by decide +kernel
  obtain ⟨z, hz⟩ := Option.isSome_iff_exists.1 hv
  obtain ⟨hread, hunique, hsplit, -⟩ := ofText_eq_ok_iff_form source
  refine ⟨ht, hv, ⟨z, hz, (hread z).2 ⟨form, ht, hz⟩⟩, ?_, hsplit form ht hv _ (by decide +kernel)⟩
  intro other hother h
  exact hunique other form hother ht h hv

end Complex

end Argand
