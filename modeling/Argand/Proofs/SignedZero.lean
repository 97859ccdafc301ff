import Argand.Complex.Basic

/-!
Sums with a zero, and numbers that are the same up to the sign of a zero.

A sum with a zero of either sign stands where the other operand does (`place_add_zeroOf`,
`place_zeroOf_add`): only the sign of a zero can get lost in it.  It does get lost in a sum with the
zero that has no sign (`add_zero_eq`), so two doubles stand at the same place exactly if these sums
are equal (`same_iff_add_zero`), and the same holds of the parts of complex numbers
(`Complex.same_iff_add_zero`).

A comparison with zero is read off the place (`zero_le_iff`, `le_zero_iff`, `lt_zero_iff`), and
unless it is a NaN, a double with a sign bit is at most zero and one without it at least.
-/

namespace Argand

namespace Binary64

/-! ## Places -/

theorem signed_eq_zero {negative : Bool} {units : Nat} : signed negative units = 0 ↔ units = 0 := by
  cases negative <;> simp [signed]

theorem natAbs_signed (negative : Bool) (units : Nat) : (signed negative units).natAbs = units := by
  cases negative <;> simp [signed]

theorem signed_neg_iff (negative : Bool) (units : Nat) :
    signed negative units < 0 ↔ negative = true ∧ units ≠ 0 := by
  cases negative <;> simp [signed]
  omega

/-- The sign of a product. -/
theorem signed_bne (s t : Bool) (u v : Nat) :
    signed (s != t) (u * v) = signed s u * signed t v := by
  have hcast : ((u * v : Nat) : Int) = u * v := Int.natCast_mul u v
  cases s <;> cases t
  · exact hcast
  · exact (congrArg Neg.neg hcast).trans (Int.mul_neg ..).symm
  · exact (congrArg Neg.neg hcast).trans (Int.neg_mul ..).symm
  · exact hcast.trans (Int.neg_mul_neg ..).symm

theorem signed_inj {s t : Bool} {u v : Nat} (h : signed s u = signed t v) (hu : u ≠ 0) :
    s = t ∧ u = v := by
  have huv : u = v := by
    rw [← natAbs_signed s u, h, natAbs_signed]
  refine ⟨?_, huv⟩
  subst huv
  have hs := signed_neg_iff s u
  rw [h, signed_neg_iff] at hs
  cases s <;> cases t <;> simp_all

theorem isZero_finite {negative : Bool} {units : Nat} {h : Representable units} :
    (finite negative units h).isZero = true ↔ units = 0 := by
  simp [isZero, place, signed_eq_zero]

theorem not_isZero_inf (negative : Bool) : (inf negative).isZero = false := by
  simp [isZero, place, signed_eq_zero]

/-- Away from zero a double is determined by its place. -/
theorem eq_of_same {x y : Binary64} (h : x.same y = true) (hx : x.isZero = false) : x = y := by
  have hp : x.place = y.place := of_decide_eq_true h
  have hne : 2 ^ magnitudeBits ≠ 0 := Nat.ne_of_gt (Nat.two_pow_pos magnitudeBits)
  cases x with
  | nan =>
    cases y with
    | nan => rfl
    | inf _ => cases hp
    | finite _ _ _ => cases hp
  | inf s =>
    cases y with
    | nan => cases hp
    | inf t => rw [(signed_inj (Option.some.inj hp) hne).1]
    | finite t v hv =>
      have he := (signed_inj (Option.some.inj hp) hne).2
      exact absurd hv.1 (Nat.not_lt.2 (Nat.le_of_eq he))
  | finite s u hu =>
    have hu0 : u ≠ 0 := fun h0 => by
      rw [isZero_finite.2 h0] at hx
      cases hx
    cases y with
    | nan => cases hp
    | inf t =>
      have he := (signed_inj (Option.some.inj hp) hu0).2
      exact absurd hu.1 (Nat.not_lt.2 (Nat.le_of_eq he.symm))
    | finite t v hv =>
      obtain ⟨rfl, rfl⟩ := signed_inj (Option.some.inj hp) hu0
      rfl

/-! ## Sums with a zero -/

/-- The zero with the given sign. -/
def zeroOf (negative : Bool) : Binary64 := finite negative 0 representable_zero

/-- A magnitude is its own rounding, and an exact zero gets the sign given for it. -/
theorem roundSigned_signed (zeroNegative negative : Bool) {units : Nat} (h : Representable units) :
    roundSigned zeroNegative (signed negative units) 1 =
      finite (if units = 0 then zeroNegative else negative) units h := by
  have hs :
      (if signed negative units = 0 then zeroNegative else decide (signed negative units < 0)) =
        if units = 0 then zeroNegative else negative := by
    by_cases hu : units = 0
    · rw [if_pos (signed_eq_zero.2 hu), if_pos hu]
    · rw [if_neg (mt signed_eq_zero.1 hu), if_neg hu]
      simp [signed_neg_iff, hu]
  unfold roundSigned
  rw [hs, natAbs_signed, ← round_mul _ h Nat.one_pos, Nat.mul_one]

theorem finite_add_finite (s t : Bool) {u v : Nat} (hu : Representable u) (hv : Representable v) :
    finite s u hu + finite t v hv = roundSigned (s && t) (signed s u + signed t v) 1 := by
  show add (finite s u hu) (finite t v hv) = _
  rw [add]

theorem finite_add_zeroOf (s t : Bool) {u : Nat} (hu : Representable u) :
    finite s u hu + zeroOf t = finite (if u = 0 then s && t else s) u hu := by
  rw [zeroOf, finite_add_finite, signed_eq_zero.2 rfl, Int.add_zero, roundSigned_signed _ _ hu]

theorem zeroOf_add_finite (s t : Bool) {u : Nat} (hu : Representable u) :
    zeroOf t + finite s u hu = finite (if u = 0 then t && s else s) u hu := by
  rw [zeroOf, finite_add_finite, signed_eq_zero.2 rfl, Int.zero_add, roundSigned_signed _ _ hu]

theorem place_finite_of_ite {c : Prop} [Decidable c] {s t : Bool} {u : Nat}
    (hu : Representable u) (hc : c → u = 0) :
    (finite (if c then t else s) u hu).place = (finite s u hu).place := by
  by_cases h : c
  · obtain rfl := hc h
    exact congrArg some ((signed_eq_zero.2 rfl).trans (signed_eq_zero.2 rfl).symm)
  · rw [if_neg h]

/-- A zero that is added changes at most the sign of a zero. -/
theorem place_add_zeroOf (x : Binary64) (t : Bool) : (x + zeroOf t).place = x.place := by
  cases x with
  | nan => rfl
  | inf s => rfl
  | finite s u hu =>
    rw [finite_add_zeroOf]
    exact place_finite_of_ite hu id

theorem place_zeroOf_add (t : Bool) (x : Binary64) : (zeroOf t + x).place = x.place := by
  cases x with
  | nan => rfl
  | inf s => rfl
  | finite s u hu =>
    rw [zeroOf_add_finite]
    exact place_finite_of_ite hu id

theorem exists_zeroOf_of_place {x : Binary64} (h : x.place = some 0) : ∃ t, x = zeroOf t := by
  cases x with
  | nan => cases h
  | inf s =>
    have hne : 2 ^ magnitudeBits ≠ 0 := Nat.ne_of_gt (Nat.two_pow_pos magnitudeBits)
    exact absurd (signed_eq_zero.1 (Option.some.inj h)) hne
  | finite s u hu =>
    obtain rfl := signed_eq_zero.1 (Option.some.inj h)
    exact ⟨s, rfl⟩

/-- Behind a sum with the zero that has no sign, no zero has one. -/
theorem add_zero_eq (x : Binary64) : x + zero = if x.isZero then zero else x := by
  cases x with
  | nan => rfl
  | inf s =>
    rw [not_isZero_inf]
    rfl
  | finite s u hu =>
    show finite s u hu + zeroOf false = _
    rw [finite_add_zeroOf, Bool.and_false]
    by_cases h : u = 0
    · subst h
      rw [if_pos rfl, if_pos (isZero_finite.2 rfl)]
      rfl
    · rw [if_neg h, if_neg (mt isZero_finite.1 h)]

theorem same_iff {x y : Binary64} : x.same y = true ↔ x.place = y.place := decide_eq_true_iff

theorem isZero_iff {x : Binary64} : x.isZero = true ↔ x.place = some 0 := decide_eq_true_iff

theorem eq_zero_of_isZero_add_zero {x : Binary64} (h : (x + zero).isZero = true) :
    x + zero = zero := by
  rw [add_zero_eq] at h ⊢
  cases hx : x.isZero with
  | true => rfl
  | false =>
    rw [hx] at h
    exact absurd (hx.symm.trans h) nofun

/-- Below zero are the doubles with a minus sign, the zero apart. -/
theorem lt_zero_of_not_isZero {x : Binary64} (h : x.isZero = false) : x.lt zero = x.isNegative := by
  have hlt {p : Int} (hp : x.place = some p) : x.lt zero = decide (p < 0) := by
    have hz : zero.place = some 0 := rfl
    unfold lt
    rw [hp, hz]
  have hne : 2 ^ magnitudeBits ≠ 0 := Nat.ne_of_gt (Nat.two_pow_pos magnitudeBits)
  cases x with
  | nan => rfl
  | inf negative =>
    rw [hlt rfl]
    simp [signed_neg_iff, isNegative]
  | finite negative units hu =>
    have hu0 : units ≠ 0 := fun h0 => by
      rw [isZero_finite.2 h0] at h
      cases h
    rw [hlt rfl]
    simp [signed_neg_iff, isNegative, hu0]

/-- Two doubles are the same exactly if they are equal once no zero has a sign. -/
theorem same_iff_add_zero {x y : Binary64} : x.same y = true ↔ x + zero = y + zero := by
  constructor
  · intro h
    have hz : x.isZero = y.isZero := by
      rw [Bool.eq_iff_iff, isZero_iff, isZero_iff, same_iff.1 h]
    rw [add_zero_eq, add_zero_eq, ← hz]
    cases hx : x.isZero with
    | true => rfl
    | false => exact eq_of_same h hx
  · intro h
    have hx : (x + zero).place = x.place := place_add_zeroOf x false
    have hy : (y + zero).place = y.place := place_add_zeroOf y false
    rw [same_iff, ← hx, ← hy, h]

/-! ## On which side of zero -/

section

variable {x : Binary64} {p : Int}

theorem zero_le_iff (hp : x.place = some p) : zero.le x = true ↔ 0 ≤ p := by
  have hzero : zero.place = some 0 := rfl
  unfold le
  rw [hzero, hp]
  exact decide_eq_true_iff

theorem le_zero_iff (hp : x.place = some p) : x.le zero = true ↔ p ≤ 0 := by
  have hzero : zero.place = some 0 := rfl
  unfold le
  rw [hzero, hp]
  exact decide_eq_true_iff

theorem lt_zero_iff (hp : x.place = some p) : x.lt zero = true ↔ p < 0 := by
  have hzero : zero.place = some 0 := rfl
  unfold lt
  rw [hzero, hp]
  exact decide_eq_true_iff

/-- A double that is not below zero is above it or a zero. -/
theorem lt_zero_eq_false (h : zero.le x = true) : x.lt zero = false := by
  cases hp : x.place with
  | none => rw [lt, hp]
  | some p =>
    rw [Bool.eq_false_iff, Ne, lt_zero_iff hp]
    exact Int.not_lt_of_ge ((zero_le_iff hp).1 h)

theorem exists_place (hx : x.isNaN = false) : ∃ u, x.place = some (signed x.isNegative u) := by
  cases x with
  | nan => cases hx
  | inf s => exact ⟨_, rfl⟩
  | finite s u hu => exact ⟨u, rfl⟩

theorem zero_le_of_not_isNegative (hx : x.isNaN = false) (h : x.isNegative = false) :
    zero.le x = true := by
  obtain ⟨u, hu⟩ := exists_place hx
  rw [h] at hu
  exact (zero_le_iff hu).2 (Int.natCast_nonneg u)

theorem le_zero_of_isNegative (hx : x.isNaN = false) (h : x.isNegative = true) :
    x.le zero = true := by
  obtain ⟨u, hu⟩ := exists_place hx
  rw [h] at hu
  exact (le_zero_iff hu).2 (Int.neg_nonpos_of_nonneg (Int.natCast_nonneg u))

end

end Binary64

namespace Complex

theorem same_iff {z w : Complex} :
    z.same w = true ↔ z.re.place = w.re.place ∧ z.im.place = w.im.place := by
  rw [same, Bool.and_eq_true, Binary64.same_iff, Binary64.same_iff]

theorem same_iff_add_zero {z w : Complex} : z.same w = true ↔ z + zero = w + zero := by
  have hadd (z : Complex) : z + zero = ⟨z.re + .zero, z.im + .zero⟩ := rfl
  rw [same, Bool.and_eq_true, Binary64.same_iff_add_zero, Binary64.same_iff_add_zero, hadd, hadd,
    Complex.mk.injEq]

end Complex

end Argand
