import Argand.Proofs.Literal
import Argand.Proofs.Sums

/-!
The two readers of complex numbers agree.

A complex number can be read in one go, as a literal of its own, or as an expression.  One reader
takes the text apart at its last sign and reads signs as parts of numbers; the other cuts it into
tokens, puts a zero before a sign at the beginning, and adds and subtracts.  On the characters that
both take (`IsShared`), a text that the first reader accepts is written as a sum of literals with
the same value, up to the signs of zeros (`ofCompact?_cases`), and of such sums it is known what the
second reader makes (`LiteralSum.parse_eq_ok`).

Main statement: each text that is a complex number on its own is an expression with the same value,
in either mode, and so is every finite number in writing (`readers_agree`).
-/

namespace Argand

-- What holds of the members of a list is decided along the list, not character by character.
attribute [local instance (high)] List.decidableBAll

/-- A text of the characters that both readers take. -/
def IsShared (text : List Char) : Prop := ∀ c ∈ text, c.isDigit ∨ c ∈ ['.', '+', '-', 'i']

theorem IsShared.forall_mem {text : List Char} (h : IsShared text) {p : Char → Prop}
    (hd : ∀ c : Char, c.isDigit → p c) (ho : ∀ c ∈ ['.', '+', '-', 'i'], p c) :
    ∀ c ∈ text, p c := by
  intro c hc
  rcases h c hc with hc | hc
  · exact hd c hc
  · exact ho c hc

theorem IsShared.append {front back : List Char} (h : IsShared (front ++ back)) :
    IsShared front ∧ IsShared back :=
  List.forall_mem_append.1 h

/-! ## Doubles without an exponent -/

theorem isNumber_digits {text : List Char} (hne : text ≠ []) (h : ∀ c ∈ text, c.isDigit) :
    IsNumber text := by
  refine ⟨?_, ?_⟩
  · rcases text with _ | ⟨c, text⟩
    · exact absurd rfl hne
    · exact .digit (h c List.mem_cons_self) fun d hd => .inl (h d (List.mem_cons_of_mem c hd))
  · rw [count_point_of_digits h]
    exact Nat.zero_le 1

theorem isNumber_point {whole fraction : List Char} (hne : ¬(whole = [] ∧ fraction = []))
    (hw : ∀ c ∈ whole, c.isDigit) (hf : ∀ c ∈ fraction, c.isDigit) :
    IsNumber (whole ++ '.' :: fraction) := by
  have hrun : IsRun fraction := fun c hc => .inl (hf c hc)
  refine ⟨?_, ?_⟩
  · rcases whole with _ | ⟨c, whole⟩
    · rcases fraction with _ | ⟨c, fraction⟩
      · exact absurd ⟨rfl, rfl⟩ hne
      · exact .point (hf c List.mem_cons_self) hrun.tail
    · refine .digit (hw c List.mem_cons_self) fun d hd => ?_
      rcases List.mem_append.1 hd with hd | hd
      · exact .inl (hw d (List.mem_cons_of_mem c hd))
      · rcases List.mem_cons.1 hd with rfl | hd
        · exact .inr rfl
        · exact hrun d hd
  · rw [List.count_append, List.count_cons_self, count_point_of_digits hw, count_point_of_digits hf]

/-- Behind the digits of a decimal there is nothing, unless there is the mark of an exponent. -/
theorem rest_eq_nil_of_assemble? {whole fraction rest : List Char} {d : Decimal}
    (h : Decimal.assemble? whole fraction rest = some d) (hm : ∀ c ∈ rest, c ≠ 'e' ∧ c ≠ 'E') :
    rest = [] ∧ ¬(whole = [] ∧ fraction = []) := by
  unfold Decimal.assemble? at h
  by_cases hne : whole = [] ∧ fraction = []
  · rw [if_pos hne] at h
    cases h
  · rw [if_neg hne] at h
    obtain ⟨e, he, -⟩ := Option.map_eq_some_iff.1 h
    rcases rest with _ | ⟨c, rest⟩
    · exact ⟨rfl, hne⟩
    · rw [Decimal.exponent?, if_neg (not_or.2 (hm c List.mem_cons_self))] at he
      cases he

/-- A decimal is digits, possibly with a point and more digits behind them, and an exponent. -/
theorem exists_parts_of_ofText? {text : List Char} {d : Decimal}
    (h : Decimal.ofText? text = some d) :
    ∃ whole fraction rest, (∀ c ∈ whole, c.isDigit) ∧ (∀ c ∈ fraction, c.isDigit) ∧
      Decimal.assemble? whole fraction rest = some d ∧
      (text = whole ++ rest ∧ fraction = [] ∨ text = whole ++ '.' :: (fraction ++ rest)) := by
  have ht : text.takeWhile Char.isDigit ++ text.dropWhile Char.isDigit = text :=
    List.takeWhile_append_dropWhile
  have hw : ∀ c ∈ text.takeWhile Char.isDigit, c.isDigit := List.all_eq_true.1 List.all_takeWhile
  unfold Decimal.ofText? at h
  dsimp only at h
  generalize text.takeWhile Char.isDigit = whole at h ht hw
  generalize text.dropWhile Char.isDigit = rest at h ht
  subst ht
  split at h
  · next rest =>
    have hf : ∀ c ∈ rest.takeWhile Char.isDigit, c.isDigit := List.all_eq_true.1 List.all_takeWhile
    refine ⟨whole, _, _, hw, hf, h, .inr ?_⟩
    rw [List.takeWhile_append_dropWhile]
  · exact ⟨whole, [], rest, hw, nofun, h, .inl ⟨rfl, rfl⟩⟩

/-- A decimal without the mark of an exponent is a number of the grammar. -/
theorem isNumber_of_ofText? {text : List Char} {d : Decimal} (h : Decimal.ofText? text = some d)
    (hm : ∀ c ∈ text, c ≠ 'e' ∧ c ≠ 'E') : IsNumber text := by
  obtain ⟨whole, fraction, rest, hw, hf, hd, ⟨rfl, rfl⟩ | rfl⟩ := exists_parts_of_ofText? h
  · obtain ⟨rfl, hne⟩ := rest_eq_nil_of_assemble? hd fun c hc => hm c (List.mem_append_right _ hc)
    rw [List.append_nil]
    exact isNumber_digits (fun h0 => hne ⟨h0, rfl⟩) hw
  · obtain ⟨rfl, hne⟩ := rest_eq_nil_of_assemble? hd fun c hc =>
      hm c (List.mem_append_right _ (List.mem_cons_of_mem _ (List.mem_append_right _ hc)))
    rw [List.append_nil]
    exact isNumber_point hne hw hf

theorem unsigned?_of_isNumber {text : List Char} (h : IsNumber text) (negative : Bool) :
    Binary64.unsigned? negative text =
      some (if negative then -numeralValue text else numeralValue text) := by
  have hr := isRun_of_isNumeral h.1
  have hv := ofText?_of_isNumber h
  rw [ofText?_of_isRun hr] at hv
  obtain ⟨d, hd, hx⟩ := Option.map_eq_some_iff.1 hv
  rw [unsigned?_of_isRun hr, hd, Option.map_some]
  cases negative with
  | false => exact congrArg some hx
  | true =>
    rw [Decimal.toBinary64_true, hx]
    rfl

/-- A double of shared characters that has no sign is a number of the grammar. -/
theorem isNumber_of_unsigned? {text : List Char} {negative : Bool} {x : Binary64}
    (h : Binary64.unsigned? negative text = some x) (hs : IsShared text) : IsNumber text := by
  have hlower : text.map Char.toLower = text := by
    refine (List.map_congr_left (g := id) ?_).trans (List.map_id text)
    exact hs.forall_mem (fun c hd => toLower_of_isDigit hd) (by decide)
  have hn : 'n' ∉ text := fun hm => absurd (hs 'n' hm) (by decide)
  have hinf : ¬(text = "inf".toList ∨ text = "infinity".toList) := by
    rintro (rfl | rfl)
    · exact hn (by decide)
    · exact hn (by decide)
  have hnan : text ≠ "nan".toList := by
    rintro rfl
    exact hn (by decide)
  unfold Binary64.unsigned? at h
  simp only [hlower, if_neg hinf, if_neg hnan] at h
  obtain ⟨d, hd, -⟩ := Option.map_eq_some_iff.1 h
  refine isNumber_of_ofText? hd (hs.forall_mem (fun c hc => ?_) (by decide))
  constructor
  · rintro rfl
    exact absurd hc (by decide)
  · rintro rfl
    exact absurd hc (by decide)

/-! ## One literal, with a sign or without -/

/-- A sign in writing, if there is one. -/
def signText (sign : Option Sign) : List Char := (sign.map fun s => s.token.text).getD []

/-- The sign before a double, if there is one. -/
def signed? (sign : Option Sign) (x : Binary64) : Binary64 := (sign.map fun s => s.before x).getD x

theorem signed?_none (x : Binary64) : signed? none x = x := rfl

theorem signed?_some (s : Sign) (x : Binary64) : signed? (some s) x = s.before x := rfl

theorem im_value_unit : Summand.unit.value.im = .one := by
  rw [Summand.value, Complex.i]

/-- A double of shared characters is a number of the grammar, possibly with a sign in front. -/
theorem ofText?_cases {text : List Char} {x : Binary64} (h : Binary64.ofText? text = some x)
    (hs : IsShared text) :
    ∃ (sign : Option Sign) (l : Number), text = signText sign ++ l.1 ∧
      x = signed? sign (numeralValue l.1) := by
  unfold Binary64.ofText? at h
  split at h
  · next text =>
    have hn := isNumber_of_unsigned? h (List.forall_mem_cons.1 hs).2
    rw [unsigned?_of_isNumber hn] at h
    exact ⟨some .plus, ⟨text, hn⟩, rfl, (Option.some.inj h).symm⟩
  · next text =>
    have hn := isNumber_of_unsigned? h (List.forall_mem_cons.1 hs).2
    rw [unsigned?_of_isNumber hn] at h
    exact ⟨some .minus, ⟨text, hn⟩, rfl, (Option.some.inj h).symm⟩
  · have hn := isNumber_of_unsigned? h hs
    rw [unsigned?_of_isNumber hn] at h
    exact ⟨none, ⟨_, hn⟩, rfl, (Option.some.inj h).symm⟩

/-- A number of units of shared characters, with the unit behind it, is an imaginary literal or the
unit itself, possibly with a sign in front. -/
theorem imaginary?_cases {text : List Char} {y : Binary64} (h : Complex.imaginary? text = some y)
    (hs : IsShared text) :
    ∃ (sign : Option Sign) (m : Summand), text ++ ['i'] = signText sign ++ spelled m.tokens ∧
      m.value.re = .zero ∧ y = signed? sign m.value.im := by
  unfold Complex.imaginary? at h
  split at h
  · next hone =>
    obtain rfl := Option.some.inj h
    rcases hone with rfl | rfl
    · refine ⟨none, .unit, rfl, rfl, ?_⟩
      rw [signed?_none, im_value_unit]
    · refine ⟨some .plus, .unit, rfl, rfl, ?_⟩
      rw [signed?_some, im_value_unit, Sign.before]
  split at h
  · next hminus =>
    obtain rfl := Option.some.inj h
    subst hminus
    refine ⟨some .minus, .unit, rfl, rfl, ?_⟩
    rw [signed?_some, im_value_unit, Sign.before]
  · obtain ⟨sign, l, rfl, rfl⟩ := ofText?_cases h hs
    refine ⟨sign, .imaginary l, ?_, rfl, rfl⟩
    show signText sign ++ l.1 ++ ['i'] = signText sign ++ (l.1 ++ (['i'] ++ []))
    rw [List.append_assoc]
    rfl

/-- A literal begins with no sign. -/
theorem not_isSign_of_mem_head? (m : Summand) {c : Char} (hc : c ∈ (spelled m.tokens).head?) :
    Complex.isSign c = false := by
  have hnumber {lexeme rest : List Char} (hl : IsNumeral lexeme) (hc : c ∈ (lexeme ++ rest).head?) :
      Complex.isSign c = false := by
    cases hl with
    | digit hd _ =>
      obtain rfl := Option.some.inj hc
      exact isSign_of_isDigit hd
    | point _ _ =>
      obtain rfl := Option.some.inj hc
      rfl
  cases m with
  | real l => exact hnumber l.2.1 hc
  | imaginary l => exact hnumber l.2.1 hc
  | unit =>
    obtain rfl := Option.some.inj hc
    rfl

/-- Of a text with a sign in front that is a signed literal, the sign is that sign. -/
theorem eq_some_of_signText {s : Char} {text : List Char} {sign : Option Sign} {m : Summand}
    (hs : Complex.isSign s = true) (h : s :: text = signText sign ++ spelled m.tokens) :
    ∃ s', sign = some s' := by
  cases sign with
  | some s' => exact ⟨s', rfl⟩
  | none =>
    have hc : s ∈ (spelled m.tokens).head? := by
      rw [← show s :: text = spelled m.tokens from h]
      rfl
    rw [not_isSign_of_mem_head? m hc] at hs
    cases hs

/-! ## Values of sums -/

namespace Sign

theorem re_between (s : Sign) (z w : Complex) : (s.between z w).re = z.re + s.before w.re := by
  cases s <;> rfl

theorem im_between (s : Sign) (z w : Complex) : (s.between z w).im = z.im + s.before w.im := by
  cases s <;> rfl

theorem before_zero (s : Sign) : ∃ negative, s.before .zero = Binary64.zeroOf negative := by
  cases s
  · exact ⟨false, rfl⟩
  · exact ⟨true, rfl⟩

end Sign

namespace LiteralSum

/-- One literal, with a sign or without. -/
def single : Option Sign → Summand → LiteralSum
  | none, m => ⟨some m, [], by simp⟩
  | some s, m => ⟨none, [(s, m)], by simp⟩

/-- The sum with one more literal behind it. -/
def and (sum : LiteralSum) (s : Sign) (m : Summand) : LiteralSum where
  first := sum.first
  others := sum.others ++ [(s, m)]
  nonempty := by simp

theorem spelled_single (sign : Option Sign) (m : Summand) :
    spelled (single sign m).tokens = signText sign ++ spelled m.tokens := by
  cases sign with
  | none =>
    show spelled (m.tokens ++ []) = _
    rw [List.append_nil]
    rfl
  | some s =>
    show spelled (s.token :: (m.tokens ++ [])) = _
    rw [List.append_nil, spelled_cons]
    rfl

theorem spelled_and (sum : LiteralSum) (s : Sign) (m : Summand) :
    spelled (sum.and s m).tokens = spelled sum.tokens ++ (s.token.text ++ spelled m.tokens) := by
  have ht : (sum.and s m).tokens = sum.tokens ++ s.token :: m.tokens := by
    simp [tokens, and, SignedSummands.tokens]
  rw [ht, spelled_append, spelled_cons]

theorem value_and (sum : LiteralSum) (s : Sign) (m : Summand) :
    (sum.and s m).value = s.between sum.value m.value := by
  show List.foldl _ sum.head.value (sum.others ++ [(s, m)]) = _
  rw [List.foldl_append]
  rfl

/-- The sign before a literal is the sign of its parts. -/
theorem place_value_single (sign : Option Sign) (m : Summand) :
    (single sign m).value.re.place = (signed? sign m.value.re).place ∧
      (single sign m).value.im.place = (signed? sign m.value.im).place := by
  cases sign with
  | none => exact ⟨rfl, rfl⟩
  | some s =>
    show (s.between .zero m.value).re.place = _ ∧ (s.between .zero m.value).im.place = _
    rw [s.re_between, s.im_between]
    exact ⟨Binary64.place_zeroOf_add false _, Binary64.place_zeroOf_add false _⟩

/-- An imaginary literal behind a real sum leaves the real part as it is. -/
theorem place_value_and (sum : LiteralSum) (s : Sign) {m : Summand} (hre : m.value.re = .zero)
    (him : sum.value.im.place = some 0) :
    (sum.and s m).value.re.place = sum.value.re.place ∧
      (sum.and s m).value.im.place = (s.before m.value.im).place := by
  rw [value_and, s.re_between, s.im_between, hre]
  obtain ⟨negative, hz⟩ := s.before_zero
  obtain ⟨negative', hz'⟩ := Binary64.exists_zeroOf_of_place him
  rw [hz, hz']
  exact ⟨Binary64.place_add_zeroOf _ negative, Binary64.place_zeroOf_add negative' _⟩

end LiteralSum

theorem signed?_zero (sign : Option Sign) : (signed? sign .zero).place = some 0 := by
  cases sign with
  | none => rfl
  | some s => cases s <;> rfl

/-! ## The first reader, read by the second -/

namespace Complex

theorem exists_sign_of_splitAtSign? {text front back : List Char}
    (h : splitAtSign? text = some (front, back)) :
    ∃ s rest, back = s :: rest ∧ isSign s = true := by
  fun_induction splitAtSign? text generalizing front back with
  | case1 a b rest front' back' h' ih =>
    obtain ⟨-, rfl⟩ : a :: front' = front ∧ back' = back := by simpa using h
    exact ih h'
  | case2 a b rest h' hs =>
    obtain ⟨-, rfl⟩ : [a] = front ∧ b :: rest = back := by simpa using h
    exact ⟨b, rest, rfl, hs.1⟩
  | case3 => contradiction
  | case4 => contradiction

/-- A text of shared characters that is a number on its own is written as a sum of literals with the
same value. -/
theorem ofCompact?_cases {text : List Char} {z : Complex} (h : ofCompact? text = some z)
    (hs : IsShared text) :
    ∃ sum : LiteralSum, text = spelled sum.tokens ∧ sum.value.same z = true := by
  by_cases hlast : text.getLast? = some 'i'
  · obtain ⟨body, rfl⟩ := List.getLast?_eq_some_iff.1 hlast
    obtain ⟨hbody, -⟩ := hs.append
    rw [ofCompact?_unit] at h
    cases hsplit : splitAtSign? body with
    | none =>
      rw [hsplit] at h
      obtain ⟨y, hy, rfl⟩ := Option.map_eq_some_iff.1 h
      obtain ⟨sign, m, ht, hre, rfl⟩ := imaginary?_cases hy hbody
      obtain ⟨hvre, hvim⟩ := LiteralSum.place_value_single sign m
      refine ⟨.single sign m, ?_, same_iff.2 ⟨?_, hvim⟩⟩
      · rw [LiteralSum.spelled_single, ht]
      · rw [hvre, hre]
        exact signed?_zero sign
    | some parts =>
      obtain ⟨front, back⟩ := parts
      rw [hsplit] at h
      obtain ⟨x, hx, h⟩ := Option.bind_eq_some_iff.1 h
      obtain ⟨y, hy, rfl⟩ := Option.map_eq_some_iff.1 h
      obtain ⟨s, rest, rfl, hsign⟩ := exists_sign_of_splitAtSign? hsplit
      obtain rfl := append_of_splitAtSign? hsplit
      obtain ⟨hfront, hback⟩ := hbody.append
      obtain ⟨sign, l, rfl, rfl⟩ := ofText?_cases hx hfront
      obtain ⟨sign', m, ht, hre, rfl⟩ := imaginary?_cases hy hback
      obtain ⟨s', rfl⟩ := eq_some_of_signText hsign ht
      obtain ⟨hvre, hvim⟩ := LiteralSum.place_value_single sign (.real l)
      have hzero : (LiteralSum.single sign (.real l)).value.im.place = some 0 :=
        hvim.trans (signed?_zero sign)
      obtain ⟨hare, haim⟩ := LiteralSum.place_value_and (.single sign (.real l)) s' hre hzero
      refine ⟨.and (.single sign (.real l)) s' m, ?_, same_iff.2 ⟨?_, haim⟩⟩
      · rw [LiteralSum.spelled_and, LiteralSum.spelled_single, List.append_assoc, ht]
        show _ = signText sign ++ (l.1 ++ []) ++ _
        rw [List.append_nil]
        rfl
      · rw [hare, hvre]
        rfl
  · rw [ofCompact?_real hlast] at h
    obtain ⟨x, hx, rfl⟩ := Option.map_eq_some_iff.1 h
    obtain ⟨sign, l, rfl, rfl⟩ := ofText?_cases hx hs
    obtain ⟨hvre, hvim⟩ := LiteralSum.place_value_single sign (.real l)
    refine ⟨.single sign (.real l), ?_, same_iff.2 ⟨hvre, hvim.trans (signed?_zero sign)⟩⟩
    rw [LiteralSum.spelled_single]
    show _ = signText sign ++ (l.1 ++ [])
    rw [List.append_nil]

theorem ofCompact?_of_ofText {text : List Char} {z : Complex} (h : ofText text = .ok z) :
    ofCompact? (Text.withoutBlanks text) = some z := by
  unfold ofText at h
  cases hz : ofCompact? (Text.withoutBlanks text) with
  | none =>
    rw [hz] at h
    cases h
  | some w =>
    rw [hz] at h
    cases h
    rfl

/-- A text of shared characters that is a number on its own is an expression with the same value. -/
theorem parse_of_ofText {source : List Char} {z : Complex} (h : ofText source = .ok z)
    (hs : IsShared (Text.withoutBlanks source)) (mode : Mode) :
    ∃ tree w, parse mode source = .ok tree ∧ tree.Constant w ∧ w.same z = true := by
  obtain ⟨sum, ht, hz⟩ := ofCompact?_cases (ofCompact?_of_ofText h) hs
  obtain ⟨tree, hp, hc⟩ := sum.parse_eq_ok ht mode
  exact ⟨tree, sum.value, hp, hc, hz⟩

/-! ## Finite numbers in writing -/

/-- A finite number in writing has shared characters only. -/
theorem isShared_text {z : Complex} (hre : z.re.isFinite = true) (him : z.im.isFinite = true) :
    IsShared z.text := by
  have hdouble {x : Binary64} (h : x.isFinite = true) : IsShared x.positional := by
    cases x with
    | nan => cases h
    | inf _ => cases h
    | finite negative units hu =>
      have hr := (Decimal.shortest units).isRun_positional
      refine List.forall_mem_append.2 ⟨?_, fun c hc => (hr c hc).imp_right ?_⟩
      · cases negative <;> decide
      · rintro rfl
        exact List.mem_cons_self
  have hadd {x : Binary64} (h : x.isFinite = true) : (x + .zero).isFinite = true := by
    rw [Binary64.add_zero_eq]
    split
    · rfl
    · exact h
  have hneg {x : Binary64} (h : x.isFinite = true) : (-x).isFinite = true := by
    cases x with
    | finite negative units hu => rfl
    | _ => cases h
  refine forall_mem_text (fun x hx => hdouble ?_) (by decide)
  simp only [List.mem_cons, List.not_mem_nil, or_false] at hx
  rcases hx with rfl | rfl | rfl
  · exact hadd hre
  · exact hadd him
  · exact hneg (hadd him)

end Complex

/-- **The two readers agree.**  A text that is a complex number on its own, and has no characters
but digits, points, signs, `i` and blanks, is an expression without variables in either mode, and
its value with every resolver is the same number.  So a finite number in writing is an expression
with this number as its value. -/
theorem readers_agree (mode : Mode) :
    (∀ source z, Complex.ofText source = .ok z → IsShared (Text.withoutBlanks source) →
      ∃ tree, parse mode source = .ok tree ∧ tree.variableNames = [] ∧
        ∀ (σ : Type) (resolver : Resolver σ) (state : σ),
          ∃ w, (tree.evaluate resolver state).result = .ok w ∧ w.same z = true) ∧
    ∀ z : Complex, z.re.isFinite = true → z.im.isFinite = true →
      ∃ tree, parse mode z.text = .ok tree ∧ tree.variableNames = [] ∧
        ∀ (σ : Type) (resolver : Resolver σ) (state : σ),
          ∃ w, (tree.evaluate resolver state).result = .ok w ∧ w.same z = true := by
  refine ⟨fun source z h hs => ?_, fun z hre him => ?_⟩
  · obtain ⟨tree, w, hp, hc, hw⟩ := Complex.parse_of_ofText h hs mode
    exact ⟨tree, hp, hc.closed, fun σ resolver state => ⟨w, hc.evaluate resolver state, hw⟩⟩
  · have hs : IsShared (Text.withoutBlanks z.text) := fun c hc =>
      Complex.isShared_text hre him c (List.mem_filter.1 hc).1
    obtain ⟨tree, w, hp, hc, hw⟩ := Complex.parse_of_ofText (Complex.ofText_text z) hs mode
    have hzero : (z + Complex.zero).same z = true :=
      Complex.same_iff.2 ⟨Binary64.place_add_zeroOf z.re false,
        Binary64.place_add_zeroOf z.im false⟩
    have hwz : w.same z = true := Complex.same_iff_add_zero.2 <|
      (Complex.same_iff_add_zero.1 hw).trans (Complex.same_iff_add_zero.1 hzero)
    exact ⟨tree, hp, hc.closed, fun σ resolver state => ⟨w, hc.evaluate resolver state, hwz⟩⟩

/-- A sign before each part, blanks, a number without a digit before its point and a unit without a
number, for strict readers; and the unit as it is printed, for permissive ones. -/
theorem readers_agree_signs :
    (∃ z tree, Complex.ofText "- .5 - i".toList = .ok z ∧
      parse .strict "- .5 - i".toList = .ok tree ∧
        ∃ w, (tree.evaluate .ofAnswers ⟨[], []⟩).result = .ok w ∧ w.same z = true) ∧
    ∃ tree, parse .permissive Complex.i.text = .ok tree ∧
      ∃ w, (tree.evaluate .ofAnswers ⟨[], []⟩).result = .ok w ∧ w.same Complex.i = true := by
  constructor
  · have hsome : (Complex.ofCompact? (Text.withoutBlanks "- .5 - i".toList)).isSome = true := by
      decide +kernel
    obtain ⟨z, hz⟩ := Option.isSome_iff_exists.1 hsome
    have h : Complex.ofText "- .5 - i".toList = .ok z := by
      unfold Complex.ofText
      rw [hz]
    have hs : IsShared (Text.withoutBlanks "- .5 - i".toList) := by
      unfold IsShared
      decide +kernel
    obtain ⟨tree, hp, -, he⟩ := (readers_agree .strict).1 _ z h hs
    exact ⟨z, tree, h, hp, he _ .ofAnswers ⟨[], []⟩⟩
  · obtain ⟨tree, hp, -, he⟩ :=
      (readers_agree .permissive).2 Complex.i (by decide +kernel) (by decide +kernel)
    exact ⟨tree, hp, he _ .ofAnswers ⟨[], []⟩⟩

end Argand
