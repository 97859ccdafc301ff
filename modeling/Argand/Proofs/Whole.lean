import Argand.Proofs.ZeroBlind

/-!
Whole numbers as doubles, and powers with a whole exponent.

A whole number of magnitude at most `2 ^ 53` is a double without any rounding (`place_ofInt`).  As
an exponent it is known by its place, so it does not matter how it was computed: up to the limit of
a hundred such an exponent gives a power by repeated squaring, the two special cases in front of it
apart (`pow_of_whole`).  One half and minus one half are no whole numbers, so the exponents that
stand for roots are not among them.
-/

namespace Argand

namespace Binary64

/-! ## Representable magnitudes -/

theorem representable_mul_two_pow {m s : Nat} (hm : m ≤ 2 ^ (53 : Nat))
    (hs : 54 + s ≤ magnitudeBits) :
    Representable (m * 2 ^ s) := by
  refine ⟨?_, two_pow_spacing_dvd hm⟩
  calc m * 2 ^ s ≤ 2 ^ 53 * 2 ^ s := Nat.mul_le_mul_right _ hm
    _ = 2 ^ (53 + s) := (Nat.pow_add ..).symm
    _ < 2 ^ magnitudeBits := Nat.pow_lt_pow_right (by decide) (by omega)

/-- Whole numbers up to `2 ^ 53` need no rounding. -/
theorem representable_whole {m : Nat} (h : m ≤ 2 ^ (53 : Nat)) : Representable (m * unitsPerOne) :=
  representable_mul_two_pow h (by decide)

/-! ## Whole numbers -/

theorem signed_natAbs (k : Int) (c : Nat) : signed (decide (k < 0)) (k.natAbs * c) = k * c := by
  unfold signed
  by_cases hk : k < 0
  · simp only [hk, decide_true, if_true, Int.natCast_mul]
    rw [← Int.neg_mul]
    congr 1
    omega
  · simp only [hk, decide_false, Bool.false_eq_true, if_false, Int.natCast_mul]
    congr 1
    omega

theorem ofInt_eq {k : Int} (h : k.natAbs ≤ 2 ^ (53 : Nat)) :
    ofInt k = finite (decide (k < 0)) (k.natAbs * unitsPerOne) (representable_whole h) := by
  unfold ofInt
  rw [← signed_natAbs, roundSigned_signed false _ (representable_whole h)]
  by_cases hk : k = 0
  · subst hk
    simp
  · have hu : k.natAbs * unitsPerOne ≠ 0 :=
      Nat.mul_ne_zero (by omega) (Nat.ne_of_gt unitsPerOne_pos)
    rw [if_neg hu]

theorem place_ofInt {k : Int} (h : k.natAbs ≤ 2 ^ (53 : Nat)) :
    (ofInt k).place = some (k * unitsPerOne) := by
  rw [ofInt_eq h]
  exact congrArg some (signed_natAbs k unitsPerOne)

theorem isZero_ofInt {k : Int} (h : k.natAbs ≤ 2 ^ (53 : Nat)) :
    (ofInt k).isZero = decide (k = 0) := by
  have hu : (unitsPerOne : Int) ≠ 0 := Int.natCast_ne_zero.2 (Nat.ne_of_gt unitsPerOne_pos)
  rw [Bool.eq_iff_iff, isZero_iff, place_ofInt h, decide_eq_true_iff, Option.some.injEq,
    Int.mul_eq_zero]
  exact or_iff_left hu

/-- A small whole number is found to be one. -/
theorem integralExponent?_ofInt {k : Int} (h : k.natAbs ≤ largestIntegralExponent) :
    (ofInt k).integralExponent? = some k := by
  have h53 : k.natAbs ≤ 2 ^ (53 : Nat) := Nat.le_trans h (by decide)
  have hu : k.natAbs * unitsPerOne % unitsPerOne = 0 ∧
      k.natAbs * unitsPerOne ≤ largestIntegralExponent * unitsPerOne :=
    ⟨Nat.mul_mod_left .., Nat.mul_le_mul_right _ h⟩
  have hk := signed_natAbs k 1
  rw [ofInt_eq h53, integralExponent?, if_pos hu, Nat.mul_div_cancel _ unitsPerOne_pos]
  rw [Nat.mul_one] at hk
  rw [hk]
  simp

end Binary64

namespace Complex

open Binary64

/-! ## One half -/

theorem place_half : ∃ p : Int, half.place = some p ∧ 2 * p = unitsPerOne := by
  have hr : Representable (1 * 2 ^ (fractionBits - 1)) :=
    representable_mul_two_pow (by decide) (by decide)
  have hu : unitsPerOne = 1 * 2 ^ (fractionBits - 1) * 2 := by
    rw [Nat.one_mul, ← Nat.pow_succ, Nat.succ_eq_add_one, Nat.sub_add_cancel (by decide),
      unitsPerOne]
  refine ⟨signed false (1 * 2 ^ (fractionBits - 1)), ?_, ?_⟩
  · unfold half
    rw [hu, round_mul false hr (by decide)]
    rfl
  · rw [hu, Nat.mul_comm _ 2, Int.natCast_mul]
    rfl

/-- Neither one half nor minus one half is a whole number. -/
theorem not_same_half {x : Binary64} {k : Int} (hx : x.place = some (k * unitsPerOne)) :
    x.same half = false ∧ x.same (-half) = false := by
  obtain ⟨p, hp, h2⟩ := place_half
  have hp0 : p ≠ 0 := by
    have := Int.natCast_pos.2 unitsPerOne_pos
    omega
  have hodd (c : Int) (hc : c = 1 ∨ c = -1) : k * unitsPerOne ≠ c * p := by
    intro h
    rw [← h2, ← Int.mul_assoc] at h
    have := Int.eq_of_mul_eq_mul_right hp0 h
    omega
  constructor
  · rw [Bool.eq_false_iff, Ne, Binary64.same_iff, hx, hp]
    intro h
    exact hodd 1 (.inl rfl) ((Option.some.inj h).trans (Int.one_mul p).symm)
  · rw [Bool.eq_false_iff, Ne, Binary64.same_iff, place_neg, hx, hp]
    intro h
    exact hodd (-1) (.inr rfl) ((Option.some.inj h).trans (Int.neg_one_mul p).symm)

/-! ## Powers -/

/-- A real number that is whole and of magnitude at most a hundred. -/
def IsWholeExponent (w : Complex) : Prop :=
  ∃ k : Int, k.natAbs ≤ 100 ∧ w.same (ofReal (.ofInt k)) = true

/-- A power with a small whole exponent, of whichever sign its zeros are. -/
theorem pow_of_whole {w : Complex} {k : Int} (hk : k.natAbs ≤ largestIntegralExponent)
    (hw : w.same (ofReal (.ofInt k)) = true) (z : Complex) :
    z.pow w = if k = 0 then one else if z.isZero then zero else z.powInt k := by
  obtain ⟨hre, him⟩ := same_parts.1 hw
  dsimp only [ofReal] at hre him
  have h53 : k.natAbs ≤ 2 ^ (53 : Nat) := Nat.le_trans hk (by decide)
  have hplace : w.re.place = some (k * unitsPerOne) := by
    rw [Binary64.same_iff.1 hre, place_ofInt h53]
  have him0 : w.im.isZero = true := by
    rw [Binary64.isZero_eq him]
    exact Binary64.isZero_finite.2 rfl
  have hzero : w.isZero = decide (k = 0) := by
    rw [isZero, him0, Bool.and_true, Binary64.isZero_eq hre, isZero_ofInt h53]
  obtain ⟨hhalf, hneg⟩ := not_same_half hplace
  have hexp : w.re.integralExponent? = some k :=
    (integralExponent?_eq hre).trans (integralExponent?_ofInt hk)
  unfold pow
  simp only [hzero, him0, hhalf, hneg, hexp, decide_eq_true_eq, if_true, Bool.false_eq_true,
    if_false]

end Complex

end Argand
