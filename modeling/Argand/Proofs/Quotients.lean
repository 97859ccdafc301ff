import Argand.Decimal.Basic
import Argand.Evaluation.Evaluate
import Argand.Proofs.Nearest
import Argand.Proofs.ZeroBlind

/-!
What the check for a zero divisor leaves open.

A quotient is divided by the rounded square of the divisor's magnitude, and the check before it
looks at the divisor itself.  A divisor that is no zero passes, but its square can be too small for
a double or too large, and the quotient is then a NaN in places where the exact one is a plain
number.

| square of the divisor | parts of the quotient that are a NaN | divisors |
| :-- | :-- | :-- |
| zero | those with a zero numerator | no part has a square above half the smallest double |
| infinite | those with an infinite one | with a part of `2 ^ 512` or more, not below `2 ^ 511` |
| anything else | none | |

The quotient of a number by itself has the square as its numerator, so it is the first to go wrong.

Main statement: for a finite divisor other than zero no quotient has a NaN exactly if its quotient
by itself has none, and that is so exactly if its square is neither zero nor infinite
(`Complex.div_of_finite`).
-/

namespace Argand

namespace Binary64

/-! ## Operations that give no NaN -/

theorem isNaN_neg (x : Binary64) : (-x).isNaN = x.isNaN := by cases x <;> rfl

/-- A product of finite doubles may be infinite, but it is no NaN. -/
theorem isNaN_mul {x y : Binary64} (hx : x.isFinite = true) (hy : y.isFinite = true) :
    (x * y).isNaN = false := by
  obtain ⟨s, u, hu, rfl⟩ := exists_finite hx
  obtain ⟨t, v, hv, rfl⟩ := exists_finite hy
  rw [finite_mul_finite]
  exact isNaN_round ..

theorem isNaN_fma {x y z : Binary64} (hx : x.isFinite = true) (hy : y.isFinite = true)
    (hz : z.isNaN = false) : (fma x y z).isNaN = false := by
  obtain ⟨s, u, hu, rfl⟩ := exists_finite hx
  obtain ⟨t, v, hv, rfl⟩ := exists_finite hy
  cases z with
  | nan => exact hz
  | inf r => rfl
  | finite r w hw =>
    rw [fma_finite]
    exact isNaN_round ..

/-- A quotient is a NaN for two zeros and for two infinities only. -/
theorem isNaN_div {x y : Binary64} (hx : x.isNaN = false) (hy : y.isNaN = false) :
    (x / y).isNaN = true ↔
      x.isZero = true ∧ y.isZero = true ∨ x.isFinite = false ∧ y.isFinite = false := by
  cases x with
  | nan => exact absurd hx.symm Bool.false_ne_true
  | inf s =>
    cases y with
    | nan => exact absurd hy.symm Bool.false_ne_true
    | inf t => exact iff_of_true rfl (.inr ⟨rfl, rfl⟩)
    | finite t v hv =>
      refine iff_of_false Bool.false_ne_true ?_
      rw [not_isZero_inf]
      simp [isFinite]
  | finite s u hu =>
    cases y with
    | nan => exact absurd hy.symm Bool.false_ne_true
    | inf t =>
      rw [finite_div_inf, isNaN_round, not_isZero_inf]
      simp [isFinite]
    | finite t v hv =>
      rw [finite_div_finite, isZero_finite, isZero_finite]
      by_cases hv0 : v = 0
      · by_cases hu0 : u = 0
        · simp [hv0, hu0, isNaN]
        · simp [hv0, hu0, isNaN, isFinite]
      · rw [if_neg hv0, isNaN_round]
        simp [hv0, isFinite]

/-! ## Squares -/

/-- The square of the double is at most one half of the smallest double above zero. -/
def Vanishes (x : Binary64) : Prop :=
  ∃ p, x.place = some p ∧ 2 * (p.natAbs * p.natAbs) ≤ unitsPerOne

/-- The magnitude of the double is at most `2 ^ k`. -/
def AtMostTwoPow (k : Nat) (x : Binary64) : Prop :=
  ∃ p, x.place = some p ∧ p.natAbs ≤ 2 ^ k * unitsPerOne

/-- The magnitude of the double is at least `2 ^ k`. -/
def AtLeastTwoPow (k : Nat) (x : Binary64) : Prop :=
  ∃ p, x.place = some p ∧ 2 ^ k * unitsPerOne ≤ p.natAbs

/-- A finite double has the property of its place if its magnitude has it. -/
theorem exists_place_finite {s : Bool} {u : Nat} {hu : Representable u} {P : Nat → Prop} :
    (∃ p, (finite s u hu).place = some p ∧ P p.natAbs) ↔ P u := by
  constructor
  · rintro ⟨p, hp, h⟩
    rwa [← Option.some.inj hp, natAbs_signed] at h
  · intro h
    exact ⟨signed s u, rfl, by rwa [natAbs_signed]⟩

section

variable {s : Bool} {u : Nat} {hu : Representable u} {k : Nat}

theorem vanishes_finite : (finite s u hu).Vanishes ↔ 2 * (u * u) ≤ unitsPerOne :=
  exists_place_finite (P := fun n => 2 * (n * n) ≤ unitsPerOne)

theorem atMostTwoPow_finite : (finite s u hu).AtMostTwoPow k ↔ u ≤ 2 ^ k * unitsPerOne :=
  exists_place_finite (P := fun n => n ≤ 2 ^ k * unitsPerOne)

theorem atLeastTwoPow_finite : (finite s u hu).AtLeastTwoPow k ↔ 2 ^ k * unitsPerOne ≤ u :=
  exists_place_finite (P := fun n => 2 ^ k * unitsPerOne ≤ n)

end

theorem roundSigned_natCast (n d : Nat) : roundSigned false n d = round false n d := by
  have hn : decide ((n : Int) < 0) = false := decide_eq_false (by omega)
  rw [roundSigned, hn, ite_self, Int.natAbs_natCast]

/-- The sum of two squares, the first one without a rounding of its own. -/
theorem fma_self_finite (s : Bool) {u w : Nat} (hu : Representable u) (hw : Representable w) :
    fma (finite s u hu) (finite s u hu) (finite false w hw) =
      round false (u * u + w * unitsPerOne) unitsPerOne := by
  have hsum : signed (s != s) (u * u) + signed false w * unitsPerOne =
      ((u * u + w * unitsPerOne : Nat) : Int) := by
    simp only [bne_self_eq_false, signed, Bool.false_eq_true, if_false, Int.natCast_add,
      Int.natCast_mul]
  rw [fma_finite, hsum, Bool.and_false, roundSigned_natCast]

theorem mul_self_finite (t : Bool) {v : Nat} (hv : Representable v) :
    finite t v hv * finite t v hv = round false (v * v) unitsPerOne := by
  rw [finite_mul_finite, bne_self_eq_false]

/-- The sum of two squares is zero exactly if each square is too small for a double. -/
theorem isZero_square_iff {x y : Binary64} (hx : x.isFinite = true) (hy : y.isFinite = true) :
    (fma x x (y * y)).isZero = true ↔ x.Vanishes ∧ y.Vanishes := by
  obtain ⟨s, u, hu, rfl⟩ := exists_finite hx
  obtain ⟨t, v, hv, rfl⟩ := exists_finite hy
  have hU := unitsPerOne_pos
  have hv0 := nearestUnits_eq_zero_iff (n := v * v) hU
  rw [vanishes_finite, vanishes_finite, mul_self_finite]
  rcases round_cases false (v * v) unitsPerOne with ⟨hw, heq⟩ | ⟨hle, heq⟩ <;> rw [heq]
  · rw [fma_self_finite, isZero_round _ _ hU, ← hv0]
    constructor
    · intro h
      have hw0 : nearestUnits (v * v) unitsPerOne = 0 := by
        refine Nat.eq_zero_of_not_pos fun hpos => ?_
        have := Nat.mul_le_mul_right unitsPerOne (Nat.succ_le_of_lt hpos)
        omega
      rw [hw0, Nat.zero_mul, Nat.add_zero] at h
      exact ⟨h, hw0⟩
    · rintro ⟨h, hw0⟩
      rwa [hw0, Nat.zero_mul, Nat.add_zero]
  · have hinf : fma (finite s u hu) (finite s u hu) (inf false) = inf false := rfl
    have hpos := Nat.two_pow_pos magnitudeBits
    rw [hinf, not_isZero_inf]
    refine iff_of_false Bool.false_ne_true fun h => ?_
    have := hv0.2 h.2
    omega

theorem square_two_pow (k : Nat) :
    2 ^ k * unitsPerOne * (2 ^ k * unitsPerOne) = 2 ^ (2 * k + fractionBits) * unitsPerOne := by
  have hpow : 2 ^ (2 * k + fractionBits) = 2 ^ k * 2 ^ k * unitsPerOne := by
    rw [Nat.pow_add, Nat.two_mul, Nat.pow_add, unitsPerOne]
  rw [hpow]
  generalize unitsPerOne = one
  ac_rfl

/-- The sum of two squares stays finite well below the square root of the largest double. -/
theorem isFinite_square {x y : Binary64} {k : Nat} (hk : 2 * k + fractionBits + 1 < magnitudeBits)
    (hx : x.isFinite = true) (hy : y.isFinite = true) (hxk : x.AtMostTwoPow k)
    (hyk : y.AtMostTwoPow k) : (fma x x (y * y)).isFinite = true := by
  obtain ⟨s, u, hu, rfl⟩ := exists_finite hx
  obtain ⟨t, v, hv, rfl⟩ := exists_finite hy
  have hU := unitsPerOne_pos
  have hsquare {n : Nat} (h : n ≤ 2 ^ k * unitsPerOne) :
      n * n ≤ 2 ^ (2 * k + fractionBits) * unitsPerOne := by
    rw [← square_two_pow]
    exact Nat.mul_le_mul h h
  have huk := hsquare (atMostTwoPow_finite.1 hxk)
  have hvk := hsquare (atMostTwoPow_finite.1 hyk)
  have hw := nearestUnits_le_two_pow hU hvk
  have hlimit (e : Nat) (he : e < magnitudeBits) : 2 ^ e < 2 ^ magnitudeBits :=
    Nat.pow_lt_pow_right (by decide) he
  rw [mul_self_finite]
  rcases round_cases false (v * v) unitsPerOne with ⟨hr, heq⟩ | ⟨hle, -⟩
  · rw [heq, fma_self_finite, isFinite_round]
    refine Nat.lt_of_le_of_lt (nearestUnits_le_two_pow hU ?_) (hlimit _ hk)
    calc u * u + nearestUnits (v * v) unitsPerOne * unitsPerOne
        ≤ 2 ^ (2 * k + fractionBits) * unitsPerOne + 2 ^ (2 * k + fractionBits) * unitsPerOne :=
          Nat.add_le_add huk (Nat.mul_le_mul_right _ hw)
      _ = 2 ^ (2 * k + fractionBits + 1) * unitsPerOne := by
          rw [← Nat.two_mul, Nat.pow_succ']
          exact (Nat.mul_assoc ..).symm
  · exact absurd (Nat.lt_of_le_of_lt (Nat.le_trans hle hw) (hlimit _ (by omega))) (Nat.lt_irrefl _)

/-- The sum of two squares is infinite from the square root of the limit on. -/
theorem isFinite_square_eq_false {x y : Binary64} {k : Nat}
    (hk : magnitudeBits ≤ 2 * k + fractionBits) (hx : x.isFinite = true) (hy : y.isFinite = true)
    (h : x.AtLeastTwoPow k ∨ y.AtLeastTwoPow k) : (fma x x (y * y)).isFinite = false := by
  obtain ⟨s, u, hu, rfl⟩ := exists_finite hx
  obtain ⟨t, v, hv, rfl⟩ := exists_finite hy
  have hU := unitsPerOne_pos
  have hsquare {n : Nat} (h : 2 ^ k * unitsPerOne ≤ n) :
      2 ^ magnitudeBits * unitsPerOne ≤ n * n := by
    refine Nat.le_trans (Nat.mul_le_mul_right _ (Nat.pow_le_pow_right (by decide) hk)) ?_
    rw [← square_two_pow]
    exact Nat.mul_le_mul h h
  have hover {n : Nat} (h : 2 ^ magnitudeBits * unitsPerOne ≤ n) :
      ¬(round false n unitsPerOne).isFinite = true := by
    rw [isFinite_round]
    exact Nat.not_lt_of_le (two_pow_le_nearestUnits hU h)
  rw [mul_self_finite, ← Bool.not_eq_true]
  rcases round_cases false (v * v) unitsPerOne with ⟨hr, heq⟩ | ⟨-, heq⟩ <;> rw [heq]
  · rw [fma_self_finite]
    rcases h with hxk | hyk
    · have huk := hsquare (atLeastTwoPow_finite.1 hxk)
      exact hover (Nat.le_trans huk (Nat.le_add_right ..))
    · have hvk := hsquare (atLeastTwoPow_finite.1 hyk)
      exact absurd (heq ▸ rfl) (hover hvk)
  · exact Bool.false_ne_true

end Binary64

/-! ## Quotients of complex numbers -/

namespace Complex

open Binary64

/-- Both parts are finite. -/
def isFinite (z : Complex) : Bool := z.re.isFinite && z.im.isFinite

/-- Some part is a NaN. -/
def hasNaN (z : Complex) : Bool := z.re.isNaN || z.im.isNaN

/-- The rounded square of the magnitude, by which a quotient divides. -/
def square (w : Complex) : Binary64 := fma w.re w.re (w.im * w.im)

/-- What a quotient has in its two parts before it divides them. -/
def numerator (z w : Complex) : Complex :=
  ⟨fma z.re w.re (z.im * w.im), fma z.im w.re (-(z.re * w.im))⟩

/-- The square of the magnitude is a finite double other than zero. -/
def HasSquare (w : Complex) : Prop := w.square.isZero = false ∧ w.square.isFinite = true

theorem isFinite_iff {z : Complex} :
    z.isFinite = true ↔ z.re.isFinite = true ∧ z.im.isFinite = true := Bool.and_eq_true_iff

/-- The numerator of a quotient by itself is the square and a zero or an infinity. -/
theorem numerator_self_re (w : Complex) : (numerator w w).re = w.square := rfl

theorem hasNaN_numerator {z w : Complex} (hz : z.isFinite = true) (hw : w.isFinite = true) :
    (numerator z w).hasNaN = false := by
  obtain ⟨hzr, hzi⟩ := isFinite_iff.1 hz
  obtain ⟨hwr, hwi⟩ := isFinite_iff.1 hw
  have hre := isNaN_fma hzr hwr (isNaN_mul hzi hwi)
  have him := isNaN_fma hzi hwr ((isNaN_neg _).trans (isNaN_mul hzr hwi))
  exact Bool.or_eq_false_iff.2 ⟨hre, him⟩

theorem isNaN_square {w : Complex} (hw : w.isFinite = true) : w.square.isNaN = false :=
  (Bool.or_eq_false_iff.1 (hasNaN_numerator hw hw)).1

/-- The parts of a quotient that are a NaN. -/
theorem isNaN_div_parts {z w : Complex} (hz : z.isFinite = true) (hw : w.isFinite = true) :
    ((z / w).re.isNaN = true ↔ (numerator z w).re.isZero = true ∧ w.square.isZero = true ∨
      (numerator z w).re.isFinite = false ∧ w.square.isFinite = false) ∧
    ((z / w).im.isNaN = true ↔ (numerator z w).im.isZero = true ∧ w.square.isZero = true ∨
      (numerator z w).im.isFinite = false ∧ w.square.isFinite = false) := by
  obtain ⟨hre, him⟩ := Bool.or_eq_false_iff.1 (hasNaN_numerator hz hw)
  have hs := isNaN_square hw
  exact ⟨isNaN_div hre hs, isNaN_div him hs⟩

theorem hasNaN_div_of_hasSquare {z w : Complex} (hz : z.isFinite = true) (hw : w.isFinite = true)
    (h : w.HasSquare) : (z / w).hasNaN = false := by
  obtain ⟨hre, him⟩ := isNaN_div_parts hz hw
  rw [h.1, h.2] at hre him
  rw [hasNaN, Bool.or_eq_false_iff, ← Bool.not_eq_true, ← Bool.not_eq_true, hre, him]
  simp

/-- A number without a square cannot even be divided by itself. -/
theorem hasSquare_of_hasNaN_div_self {w : Complex} (hw : w.isFinite = true)
    (h : (w / w).hasNaN = false) : w.HasSquare := by
  have hre := (isNaN_div_parts hw hw).1
  rw [(Bool.or_eq_false_iff.1 h).1, numerator_self_re] at hre
  simp only [Bool.false_eq_true, false_iff, not_or, and_self] at hre
  exact ⟨Bool.eq_false_iff.2 hre.1, by simpa using hre.2⟩

/-- **Which divisors are safe.**  The check for a zero divisor lets every other finite one pass.  No
quotient of a finite number by it has a NaN exactly if its quotient by itself has none, and that is
so exactly if the square of its magnitude, as it is rounded, is neither zero nor infinite.  The
square is zero if both parts are so small that their squares round to zero.  It is finite if no part
is above `2 ^ 511`, and infinite if one is `2 ^ 512` or more. -/
theorem div_of_finite {w : Complex} (hw : w.isFinite = true) (h0 : w.isZero = false) :
    (∀ z column, BinaryOperator.div.apply z w column = .ok (z / w)) ∧
    ((∀ z : Complex, z.isFinite = true → (z / w).hasNaN = false) ↔ w.HasSquare) ∧
    ((w / w).hasNaN = false ↔ w.HasSquare) ∧
    (w.square.isZero = true ↔ w.re.Vanishes ∧ w.im.Vanishes) ∧
    (w.re.AtMostTwoPow 511 → w.im.AtMostTwoPow 511 → w.square.isFinite = true) ∧
    (w.re.AtLeastTwoPow 512 ∨ w.im.AtLeastTwoPow 512 → w.square.isFinite = false) := by
  obtain ⟨hre, him⟩ := isFinite_iff.1 hw
  refine ⟨fun z column => ?_, ⟨fun h => ?_, fun h z hz => ?_⟩, ⟨fun h => ?_, fun h => ?_⟩,
    ?_, ?_, ?_⟩
  · rw [BinaryOperator.apply, if_neg (Bool.eq_false_iff.1 h0)]
  · exact hasSquare_of_hasNaN_div_self hw (h w hw)
  · exact hasNaN_div_of_hasSquare hz hw h
  · exact hasSquare_of_hasNaN_div_self hw h
  · exact hasNaN_div_of_hasSquare hw hw h
  · exact isZero_square_iff hre him
  · exact isFinite_square (by decide) hre him
  · exact isFinite_square_eq_false (by decide) hre him

/-- No quotient of a finite number by `3+4i` has a NaN. -/
theorem div_of_finite_rightTriangle :
    let w : Complex := ⟨.ofInt 3, .ofInt 4⟩
    w.isFinite = true ∧ w.isZero = false ∧
      ∀ z : Complex, z.isFinite = true → (z / w).hasNaN = false := by
  intro w
  have hw : w.isFinite = true := by decide +kernel
  have h0 : w.isZero = false := by decide +kernel
  have hsquare : w.HasSquare := ⟨by decide +kernel, by decide +kernel⟩
  exact ⟨hw, h0, (div_of_finite hw h0).2.1.2 hsquare⟩

/-- The number with real part `1e-200`, whose square is too small for a double. -/
def tiny : Complex := ofReal ((Decimal.mk 1 (-200)).toBinary64 false)

/-- A finite number that is no zero passes the check, and both parts of its quotient by itself are a
NaN. -/
theorem tiny_div_tiny : tiny.isFinite = true ∧ tiny.isZero = false ∧
    ∀ column, BinaryOperator.div.apply tiny tiny column = .ok ⟨nan, nan⟩ := by
  have h0 : tiny.isZero = false := by decide +kernel
  have hq : tiny / tiny = ⟨nan, nan⟩ := by decide +kernel
  refine ⟨by decide +kernel, h0, fun column => ?_⟩
  rw [BinaryOperator.apply, if_neg (Bool.eq_false_iff.1 h0), hq]

end Complex

end Argand
