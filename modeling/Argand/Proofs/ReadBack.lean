import Argand.Decimal.Notation
import Argand.Proofs.Numeral

/-!
A double in writing reads back as the same double.

`shortest` accepts a decimal only when the reader gives the magnitude back, so what it finds needs
no proof; but its search may in principle find nothing, and then the whole expansion of the
magnitude is written.  So the reader has to be right on a decimal that is exactly a magnitude
(`IsUnits`): its tests for powers of ten that cannot matter never catch one
(`toBinary64_of_isUnits`).

The plain form of a decimal is digits with at most one point.  It is read as a decimal that may have
moved its zeros from the exponent into the coefficient, and that is the same double
(`unsigned?_positional`).

Main statement: every double, the infinities, the NaN and the negative zero among them, is read back
from its plain form (`Binary64.ofText?_positional`).
-/

namespace Argand

open Binary64 (unitsPerOne)

namespace Decimal

/-! ## Decimals that are exactly a magnitude -/

/-- The decimal is exactly so many units. -/
def IsUnits (units : Nat) (d : Decimal) : Prop :=
  match d.exponent with
  | .ofNat e => d.coefficient * 10 ^ e * unitsPerOne = units
  | .negSucc e => d.coefficient * unitsPerOne = units * 10 ^ (e + 1)

theorem isUnits_shift {units c : Nat} {e : Int} (h : IsUnits units ⟨c * 10, e⟩) :
    IsUnits units ⟨c, e + 1⟩ := by
  cases e with
  | ofNat e =>
    have h : c * 10 * 10 ^ e * unitsPerOne = units := h
    show c * 10 ^ (e + 1) * unitsPerOne = units
    rw [Nat.pow_succ', ← Nat.mul_assoc, h]
  | negSucc e =>
    have h : c * 10 * unitsPerOne = units * 10 ^ (e + 1) := h
    rw [Nat.mul_right_comm, Nat.pow_succ, ← Nat.mul_assoc] at h
    have hc : c * unitsPerOne = units * 10 ^ e := Nat.eq_of_mul_eq_mul_right (by decide) h
    cases e with
    | zero =>
      show c * 10 ^ 0 * unitsPerOne = units
      rw [Nat.pow_zero, Nat.mul_one] at hc ⊢
      exact hc
    | succ e => exact hc

/-- Zeros that are moved into the exponent do not change the number. -/
theorem isUnits_reduced {units : Nat} {d : Decimal} (h : IsUnits units d) :
    IsUnits units d.reduced := by
  fun_induction reduced d with
  | case1 d hd ih =>
    refine ih (isUnits_shift ?_)
    rw [Nat.div_mul_cancel (Nat.dvd_of_mod_eq_zero hd.2)]
    exact h
  | case2 d hd => exact h

theorem isUnits_neg {units c n : Nat} (hn : 0 < n) (h : c * unitsPerOne = units * 10 ^ n) :
    IsUnits units ⟨c, -(n : Int)⟩ := by
  cases n with
  | zero => exact absurd hn (Nat.lt_irrefl 0)
  | succ e => exact h

theorem isUnits_exact (units : Nat) : IsUnits units (exact units) := by
  refine isUnits_reduced (isUnits_neg (by decide) ?_)
  rw [unitsPerOne, Nat.mul_assoc, ← Nat.mul_pow]

theorem two_pow_le_ten_pow (n : Nat) : 2 ^ (3 * n) ≤ 10 ^ n := by
  rw [Nat.pow_mul]
  exact Nat.pow_le_pow_left (by decide) n

/-- The magnitude of a finite double is no decimal with a huge exponent. -/
theorem exponent_lt_of_isUnits {units c e : Nat} (hu : Representable units) (hc : c ≠ 0)
    (h : c * 10 ^ e * unitsPerOne = units) : e < 400 := by
  have hlt : 2 ^ (3 * e + fractionBits) < 2 ^ magnitudeBits := by
    calc 2 ^ (3 * e + fractionBits)
        = 2 ^ (3 * e) * unitsPerOne := Nat.pow_add ..
      _ ≤ 10 ^ e * unitsPerOne := Nat.mul_le_mul_right _ (two_pow_le_ten_pow e)
      _ ≤ c * 10 ^ e * unitsPerOne :=
          Nat.mul_le_mul_right _ (Nat.le_mul_of_pos_left _ (Nat.pos_of_ne_zero hc))
      _ = units := h
      _ < 2 ^ magnitudeBits := hu.1
  have he := (Nat.pow_lt_pow_iff_right (by decide)).1 hlt
  unfold fractionBits magnitudeBits at he
  omega

/-- A magnitude other than zero is no decimal far below the smallest double. -/
theorem lt_log2_of_isUnits {units c e : Nat} (hc : c ≠ 0)
    (h : c * unitsPerOne = units * 10 ^ (e + 1)) : 3 * e < c.log2 + 1200 := by
  have hu : units ≠ 0 := by
    rintro rfl
    rw [Nat.zero_mul] at h
    exact absurd h (Nat.mul_ne_zero hc (Nat.ne_of_gt Binary64.unitsPerOne_pos))
  have hlt : 2 ^ (3 * (e + 1)) < 2 ^ (c.log2 + 1 + fractionBits) := by
    calc 2 ^ (3 * (e + 1))
        ≤ 10 ^ (e + 1) := two_pow_le_ten_pow (e + 1)
      _ ≤ units * 10 ^ (e + 1) := Nat.le_mul_of_pos_left _ (Nat.pos_of_ne_zero hu)
      _ = c * unitsPerOne := h.symm
      _ < 2 ^ (c.log2 + 1) * unitsPerOne :=
          Nat.mul_lt_mul_of_pos_right Nat.lt_log2_self Binary64.unitsPerOne_pos
      _ = 2 ^ (c.log2 + 1 + fractionBits) := (Nat.pow_add ..).symm
  have he := (Nat.pow_lt_pow_iff_right (by decide)).1 hlt
  unfold fractionBits at he
  omega

theorem eq_zero_of_isUnits {units : Nat} {e : Int} (h : IsUnits units ⟨0, e⟩) : units = 0 := by
  cases e with
  | ofNat e =>
    have h : 0 * 10 ^ e * unitsPerOne = units := h
    rw [← h, Nat.zero_mul, Nat.zero_mul]
  | negSucc e =>
    have h : 0 * unitsPerOne = units * 10 ^ (e + 1) := h
    rw [Nat.zero_mul] at h
    exact (Nat.mul_eq_zero.1 h.symm).resolve_right (Nat.ne_of_gt (Nat.pow_pos (by decide)))

theorem toBinary64_zero (e : Int) (negative : Bool) :
    toBinary64 negative ⟨0, e⟩ = .finite negative 0 Binary64.representable_zero := rfl

theorem toBinary64_ofNat {c : Nat} (hc : c ≠ 0) (e : Nat) (negative : Bool) :
    toBinary64 negative ⟨c, .ofNat e⟩ =
      if 400 ≤ e then .inf negative else .round negative (c * 10 ^ e * unitsPerOne) 1 := by
  unfold toBinary64
  simp only [if_neg hc]

theorem toBinary64_negSucc {c : Nat} (hc : c ≠ 0) (e : Nat) (negative : Bool) :
    toBinary64 negative ⟨c, .negSucc e⟩ =
      if c.log2 + 1200 ≤ 3 * e then .finite negative 0 Binary64.representable_zero
      else .round negative (c * unitsPerOne) (10 ^ (e + 1)) := by
  unfold toBinary64
  simp only [if_neg hc]

/-- A decimal that is exactly a magnitude is read as it. -/
theorem toBinary64_of_isUnits {units : Nat} {d : Decimal} (h : IsUnits units d)
    (hu : Representable units) (negative : Bool) :
    d.toBinary64 negative = .finite negative units hu := by
  obtain ⟨c, e⟩ := d
  by_cases hc : c = 0
  · subst hc
    obtain rfl := eq_zero_of_isUnits h
    exact toBinary64_zero e negative
  · cases e with
    | ofNat e =>
      have h : c * 10 ^ e * unitsPerOne = units := h
      rw [toBinary64_ofNat hc, if_neg (Nat.not_le.2 (exponent_lt_of_isUnits hu hc h)), h,
        ← Binary64.round_mul negative hu Nat.one_pos, Nat.mul_one]
    | negSucc e =>
      have h : c * unitsPerOne = units * 10 ^ (e + 1) := h
      rw [toBinary64_negSucc hc, if_neg (Nat.not_le.2 (lt_log2_of_isUnits hc h)), h]
      exact Binary64.round_mul negative hu (Nat.pow_pos (by decide))

/-! ## The shortest decimal -/

/-- The sign in front is the sign of what is read, and changes nothing else. -/
theorem toBinary64_cases (d : Decimal) :
    (∃ units h, ∀ negative, d.toBinary64 negative = .finite negative units h) ∨
      ∀ negative, d.toBinary64 negative = .inf negative := by
  have hround (n m : Nat) :
      (∃ units h, ∀ negative, Binary64.round negative n m = .finite negative units h) ∨
        ∀ negative, Binary64.round negative n m = .inf negative := by
    by_cases hb : Binary64.nearestUnits n m < 2 ^ magnitudeBits
    · refine .inl ⟨_, ⟨hb, Binary64.two_pow_dvd_nearestUnits n m⟩, fun negative => ?_⟩
      simp only [Binary64.round, Binary64.ofUnits, dif_pos hb]
    · refine .inr fun negative => ?_
      simp only [Binary64.round, Binary64.ofUnits, dif_neg hb]
  unfold toBinary64
  split
  · exact .inl ⟨0, Binary64.representable_zero, fun negative => rfl⟩
  · split
    · split
      · exact .inr fun negative => rfl
      · exact hround _ _
    · split
      · exact .inl ⟨0, Binary64.representable_zero, fun negative => rfl⟩
      · exact hround _ _

theorem toBinary64_true (d : Decimal) : d.toBinary64 true = -d.toBinary64 false := by
  obtain ⟨units, hu, hd⟩ | hd := toBinary64_cases d
  · rw [hd, hd]
    rfl
  · rw [hd, hd]
    rfl

theorem toBinary64_of_readsBack {units : Nat} {d : Decimal} (h : ReadsBack units d)
    (hu : Representable units) (negative : Bool) :
    d.toBinary64 negative = .finite negative units hu := by
  unfold ReadsBack at h
  obtain ⟨units', hu', hd⟩ | hd := toBinary64_cases d
  · rw [hd false] at h
    subst h
    exact hd negative
  · rw [hd false] at h
    exact h.elim

/-- The shortest decimal of a magnitude is read as it. -/
theorem toBinary64_shortest {units : Nat} (hu : Representable units) (negative : Bool) :
    (shortest units).toBinary64 negative = .finite negative units hu := by
  unfold shortest
  split
  · next hz =>
    subst hz
    rfl
  · extract_lets candidates
    cases hf : candidates.find? fun d => ReadsBack units d with
    | some d =>
      have hd : ReadsBack units d := by simpa using List.find?_some hf
      rw [Option.getD_some]
      exact toBinary64_of_readsBack hd hu negative
    | none =>
      rw [Option.getD_none]
      exact toBinary64_of_isUnits (isUnits_exact units) hu negative

/-! ## The plain form -/

theorem isDigit_of_mem_digits {d : Decimal} {c : Char} (h : c ∈ d.digits) : c.isDigit :=
  Nat.isDigit_of_mem_toDigits (by decide) (by decide) h

/-- Digits with zeros behind them are the coefficient times a power of ten. -/
theorem ofDigitChars_digits_append (d : Decimal) (e : Nat) :
    Nat.ofDigitChars 10 (d.digits ++ List.replicate e '0') 0 = d.coefficient * 10 ^ e := by
  rw [Nat.ofDigitChars_append, digits, Nat.ofDigitChars_ten_toDigits,
    Nat.ofDigitChars_replicate_zero, Nat.mul_comm]

/-- Zeros in front of digits do not count. -/
theorem ofDigitChars_append_digits (d : Decimal) (e : Nat) :
    Nat.ofDigitChars 10 (List.replicate e '0' ++ d.digits) 0 = d.coefficient := by
  rw [Nat.ofDigitChars_append, Nat.ofDigitChars_replicate_zero, Nat.mul_zero, digits,
    Nat.ofDigitChars_ten_toDigits]

/-- The plain form is digits, or digits on both sides of a point. -/
theorem positional_cases (d : Decimal) :
    (∃ e, d.exponent = .ofNat e ∧ d.positional = d.digits ++ List.replicate e '0') ∨
      ∃ whole fraction, d.positional = whole ++ '.' :: fraction ∧ whole ≠ [] ∧
        d.exponent = -(fraction.length : Int) ∧
        ∃ zeros, whole ++ fraction = List.replicate zeros '0' ++ d.digits := by
  unfold positional
  cases he : d.exponent with
  | ofNat e => exact .inl ⟨e, rfl, rfl⟩
  | negSucc e =>
    dsimp only
    generalize hz : e + 1 + 1 - d.digits.length = zeros
    generalize hp : List.replicate zeros '0' ++ d.digits = padded
    have hl : e + 1 < padded.length := by
      rw [← hp, List.length_append, List.length_replicate]
      omega
    refine .inr ⟨_, _, rfl, ?_, ?_, zeros, ?_⟩
    · rw [← List.length_pos_iff, List.length_take]
      omega
    · rw [List.length_drop, Nat.sub_sub_self (Nat.le_of_lt hl)]
      rfl
    · rw [List.take_append_drop, hp]

theorem isDigit_of_mem_zeros_append {d : Decimal} {zeros : Nat} {c : Char}
    (h : c ∈ List.replicate zeros '0' ++ d.digits) : c.isDigit := by
  rcases List.mem_append.1 h with hz | hd
  · rw [List.eq_of_mem_replicate hz]
    rfl
  · exact isDigit_of_mem_digits hd

theorem isDigit_of_mem_append_zeros {d : Decimal} {zeros : Nat} {c : Char}
    (h : c ∈ d.digits ++ List.replicate zeros '0') : c.isDigit :=
  isDigit_of_mem_zeros_append (List.mem_append.2 (List.mem_append.1 h).symm)

/-- The plain form is made of digits and points. -/
theorem isRun_positional (d : Decimal) : IsRun d.positional := by
  obtain ⟨e, -, hp⟩ | ⟨whole, fraction, hp, -, -, zeros, hd⟩ := d.positional_cases
  · rw [hp]
    exact fun c hc => .inl (isDigit_of_mem_append_zeros hc)
  · have hdigit : ∀ c ∈ whole ++ fraction, c.isDigit := by
      rw [hd]
      exact fun c hc => isDigit_of_mem_zeros_append hc
    rw [hp]
    intro c hc
    rcases List.mem_append.1 hc with hc | hc
    · exact .inl (hdigit c (List.mem_append_left _ hc))
    · rcases List.mem_cons.1 hc with rfl | hc
      · exact .inr rfl
      · exact .inl (hdigit c (List.mem_append_right _ hc))

theorem positional_ne_nil (d : Decimal) : d.positional ≠ [] := by
  obtain ⟨e, -, hp⟩ | ⟨whole, fraction, hp, hne, -⟩ := d.positional_cases
  · rw [hp]
    exact List.append_ne_nil_of_left_ne_nil Nat.toDigits_ne_nil _
  · rw [hp]
    exact List.append_ne_nil_of_left_ne_nil hne _

/-- Zeros that are moved into the coefficient do not change the double. -/
theorem toBinary64_mul_ten_pow {c e units : Nat} {hu : Representable units} {negative : Bool}
    (h : toBinary64 negative ⟨c, .ofNat e⟩ = .finite negative units hu) :
    toBinary64 negative ⟨c * 10 ^ e, .ofNat 0⟩ = .finite negative units hu := by
  by_cases hc : c = 0
  · subst hc
    rw [toBinary64_zero] at h
    rw [Nat.zero_mul, toBinary64_zero, h]
  · have hce : c * 10 ^ e ≠ 0 := Nat.mul_ne_zero hc (Nat.ne_of_gt (Nat.pow_pos (by decide)))
    rw [toBinary64_ofNat hc] at h
    rw [toBinary64_ofNat hce, if_neg (by decide), Nat.pow_zero, Nat.mul_one]
    by_cases he : 400 ≤ e
    · rw [if_pos he] at h
      cases h
    · rw [if_neg he] at h
      exact h

/-- A decimal that is read as a double is read as it from its plain form too. -/
theorem ofText?_positional {d : Decimal} {units : Nat} {hu : Representable units} {negative : Bool}
    (h : d.toBinary64 negative = .finite negative units hu) :
    (ofText? d.positional).map (toBinary64 negative) = some (.finite negative units hu) := by
  obtain ⟨e, he, hp⟩ | ⟨whole, fraction, hp, hne, he, zeros, hd⟩ := d.positional_cases
  · have hne : d.digits ++ List.replicate e '0' ≠ [] := hp ▸ d.positional_ne_nil
    rw [hp, ofText?_digits hne fun c hc => isDigit_of_mem_append_zeros hc,
      ofDigitChars_digits_append]
    refine congrArg some (toBinary64_mul_ten_pow ?_)
    rw [← he]
    exact h
  · have hdigit : ∀ c ∈ whole ++ fraction, c.isDigit := by
      rw [hd]
      exact fun c hc => isDigit_of_mem_zeros_append hc
    rw [hp, ofText?_point (.inl hne) (fun c hc => hdigit c (List.mem_append_left _ hc))
      (fun c hc => hdigit c (List.mem_append_right _ hc)), hd, ofDigitChars_append_digits, ← he]
    exact congrArg some h

end Decimal

/-! ## Doubles -/

namespace Binary64

/-- **Every double is read back from its plain form.** -/
theorem ofText?_positional (x : Binary64) : ofText? x.positional = some x := by
  cases x with
  | nan => rfl
  | inf negative => cases negative <;> rfl
  | finite negative units hu =>
    have hr := (Decimal.shortest units).isRun_positional
    have hd := Decimal.ofText?_positional (Decimal.toBinary64_shortest hu negative)
    rw [← unsigned?_of_isRun hr] at hd
    cases negative with
    | true => exact hd
    | false =>
      show ofText? (Decimal.shortest units).positional = _
      rw [ofText?_of_isRun hr, ← unsigned?_of_isRun hr]
      exact hd

end Binary64

end Argand
