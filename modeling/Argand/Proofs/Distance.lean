import Argand.Complex.Comparison
import Argand.Proofs.Negation
import Argand.Proofs.Quotients

/-!
Numbers that are closer than a tolerance.

The distance of two numbers is the hypotenuse over the differences of their parts, and it is
compared with the tolerance on the number line.  What a comparison keeps to is decided in three
places:

| | |
| :-- | :-- |
| a difference | the other way round it has the other sign; it is finite for finite ones alone |
| the hypotenuse | it does not look at signs; it is finite for finite sides alone |
| the number line | the NaN stands nowhere, and nothing stands beyond the infinities |

So a distance that is below some tolerance is finite, and then all four parts are.  The converse
does not hold: the distance of finite numbers may be infinite, and no tolerance is above that.

Main statement: `Complex.compare_within`.
-/

namespace Argand

namespace Binary64

/-! ## The number line -/

theorem lt_iff {x y : Binary64} :
    x.lt y = true ↔ ∃ p q, x.place = some p ∧ y.place = some q ∧ p < q := by
  unfold lt
  cases x.place <;> cases y.place <;> simp

theorem le_iff {x y : Binary64} :
    x.le y = true ↔ ∃ p q, x.place = some p ∧ y.place = some q ∧ p ≤ q := by
  unfold le
  cases x.place <;> cases y.place <;> simp

theorem lt_of_lt_of_le {x y z : Binary64} (h : x.lt y = true) (h' : y.le z = true) :
    x.lt z = true := by
  obtain ⟨p, q, hp, hq, hlt⟩ := lt_iff.1 h
  obtain ⟨q', r, hq', hr, hle⟩ := le_iff.1 h'
  obtain rfl : q = q' := Option.some.inj (hq.symm.trans hq')
  exact lt_iff.2 ⟨p, r, hp, hr, Int.lt_of_lt_of_le hlt hle⟩

theorem lt_of_le_of_lt {x y z : Binary64} (h : x.le y = true) (h' : y.lt z = true) :
    x.lt z = true := by
  obtain ⟨p, q, hp, hq, hle⟩ := le_iff.1 h
  obtain ⟨q', r, hq', hr, hlt⟩ := lt_iff.1 h'
  obtain rfl : q = q' := Option.some.inj (hq.symm.trans hq')
  exact lt_iff.2 ⟨p, r, hp, hr, Int.lt_of_le_of_lt hle hlt⟩

theorem lt_irrefl (x : Binary64) : ¬x.lt x = true := by
  intro h
  obtain ⟨p, q, hp, hq, hlt⟩ := lt_iff.1 h
  obtain rfl : p = q := Option.some.inj (hp.symm.trans hq)
  exact Int.lt_irrefl p hlt

theorem isNaN_of_place {x : Binary64} {p : Int} (h : x.place = some p) : x.isNaN = false := by
  cases x with
  | nan => cases h
  | inf s => rfl
  | finite s u hu => rfl

/-- Nothing stands beyond the infinity. -/
theorem le_inf {x : Binary64} (hx : x.isNaN = false) : x.le (inf false) = true := by
  cases x with
  | nan => cases hx
  | inf s => cases s <;> decide +kernel
  | finite s u hu =>
    refine le_iff.2 ⟨signed s u, (2 ^ magnitudeBits : Nat), rfl, rfl, ?_⟩
    have hlt : (u : Int) < (2 ^ magnitudeBits : Nat) := Int.ofNat_lt.2 hu.1
    cases s
    · exact Int.le_of_lt hlt
    · exact Int.le_trans (Int.neg_nonpos_of_nonneg (Int.natCast_nonneg u)) (Int.natCast_nonneg _)

/-- What is below something and has no sign bit is finite, and what it is below is positive. -/
theorem isFinite_of_lt {x y : Binary64} (h : x.lt y = true) (hx : x.isNegative = false) :
    x.isFinite = true ∧ zero.lt y = true := by
  obtain ⟨p, q, hp, hq, -⟩ := lt_iff.1 h
  have hpos : zero.le x = true := zero_le_of_not_isNegative (isNaN_of_place hp) hx
  have hinf : x.lt (inf false) = true := lt_of_lt_of_le h (le_inf (isNaN_of_place hq))
  refine ⟨?_, lt_of_le_of_lt hpos h⟩
  cases x with
  | nan => cases hp
  | inf s =>
    obtain rfl : s = false := hx
    exact absurd hinf (lt_irrefl _)
  | finite s u hu => rfl

/-! ## Differences -/

theorem add_comm_eq (x y : Binary64) : x + y = y + x := by
  cases x with
  | nan => cases y <;> rfl
  | inf s =>
    cases y with
    | nan => rfl
    | inf t => cases s <;> cases t <;> rfl
    | finite t v hv => rfl
  | finite s u hu =>
    cases y with
    | nan => rfl
    | inf t => rfl
    | finite t v hv => rw [finite_add_finite, finite_add_finite, Bool.and_comm, Int.add_comm]

theorem abs_neg_eq (x : Binary64) : (-x).abs = x.abs := by cases x <;> rfl

/-- A difference the other way round has the same magnitude. -/
theorem abs_sub_comm_eq (x y : Binary64) : (y - x).abs = (x - y).abs := by
  have hsame : (-x + - -y).same (-(x + -y)) = true := neg_add_neg_same x (-y)
  rw [neg_neg_eq] at hsame
  calc (y + -x).abs = (-x + y).abs := by rw [add_comm_eq]
    _ = (-(x + -y)).abs := abs_eq hsame
    _ = (x + -y).abs := abs_neg_eq _

/-- Finite doubles at the same place have no difference. -/
theorem isZero_sub_of_same {x y : Binary64} (h : x.same y = true) (hx : x.isFinite = true) :
    (x - y).isZero = true := by
  have hself : (x - x).place = some 0 := by
    obtain ⟨s, u, hu, rfl⟩ := exists_finite hx
    show (finite s u hu + finite (!s) u hu).place = _
    rw [finite_add_finite, signed_not, Int.add_right_neg]
    exact place_round_zero _ Nat.one_pos
  have hsub : (x - x).same (x - y) = true := add_same (same_iff.2 rfl) (neg_same h)
  exact isZero_iff.2 ((same_iff.1 hsub).symm.trans hself)

theorem isFinite_of_sub {x y : Binary64} (h : (x - y).isFinite = true) :
    x.isFinite = true ∧ y.isFinite = true := by
  cases x with
  | nan => cases h
  | inf s =>
    cases y with
    | nan => cases h
    | inf t => cases s <;> cases t <;> cases h
    | finite t v hv => cases h
  | finite s u hu =>
    cases y with
    | nan => cases h
    | inf t => cases h
    | finite t v hv => exact ⟨rfl, rfl⟩

/-! ## The hypotenuse -/

theorem hypot_abs (x y : Binary64) : hypot x.abs y.abs = hypot x y := by
  cases x <;> cases y <;> rfl

theorem hypot_of_isZero {x y : Binary64} (hx : x.isZero = true) (hy : y.isZero = true) :
    hypot x y = zero := by
  have hzero {x : Binary64} (h : x.isZero = true) : x.same zero = true :=
    same_iff.2 (isZero_iff.1 h)
  have hroot : hypot zero zero = zero := by decide +kernel
  rw [hypot_eq (hzero hx) (hzero hy), hroot]

theorem isFinite_of_hypot {x y : Binary64} (h : (hypot x y).isFinite = true) :
    x.isFinite = true ∧ y.isFinite = true := by
  cases x with
  | nan => cases y <;> cases h
  | inf s => cases h
  | finite s u hu =>
    cases y with
    | nan => cases h
    | inf t => cases h
    | finite t v hv => exact ⟨rfl, rfl⟩

theorem isNegative_hypot (x y : Binary64) : (hypot x y).isNegative = false := by
  have hroot (n : Nat) : (roundRoot n).isNegative = false := isNegative_round ..
  cases x with
  | nan => cases y <;> rfl
  | inf s => rfl
  | finite s u hu =>
    cases y with
    | nan => rfl
    | inf t => rfl
    | finite t v hv => exact hroot _

end Binary64

namespace Complex

open Binary64

variable {z w : Complex} {t : Binary64}

theorem compare_eq_equivalent_iff : z.compare w t = .equivalent ↔ (z - w).abs.lt t = true := by
  unfold compare
  split
  · next h => exact iff_of_true rfl h
  · next h => exact iff_of_false nofun h

theorem abs_eq_hypot_abs (z : Complex) : z.abs = hypot z.re.abs z.im.abs := (hypot_abs ..).symm

/-- The distance is the same in both directions. -/
theorem abs_sub_comm (z w : Complex) : (w - z).abs = (z - w).abs := by
  have hre : (w - z).re.abs = (z - w).re.abs := abs_sub_comm_eq z.re w.re
  have him : (w - z).im.abs = (z - w).im.abs := abs_sub_comm_eq z.im w.im
  rw [abs_eq_hypot_abs, hre, him, ← abs_eq_hypot_abs]

theorem abs_sub_of_same (h : z.same w = true) (hz : z.isFinite = true) : (z - w).abs = .zero := by
  obtain ⟨hre, him⟩ := same_parts.1 h
  obtain ⟨hr, hi⟩ := isFinite_iff.1 hz
  exact hypot_of_isZero (isZero_sub_of_same hre hr) (isZero_sub_of_same him hi)

/-- A distance that is finite is one of finite numbers. -/
theorem isFinite_of_abs_sub (h : (z - w).abs.isFinite = true) :
    z.isFinite = true ∧ w.isFinite = true := by
  obtain ⟨hre, him⟩ := isFinite_of_hypot h
  obtain ⟨hzr, hwr⟩ := isFinite_of_sub hre
  obtain ⟨hzi, hwi⟩ := isFinite_of_sub him
  exact ⟨isFinite_iff.2 ⟨hzr, hzi⟩, isFinite_iff.2 ⟨hwr, hwi⟩⟩

/-- Numbers that are equivalent up to some tolerance are finite, and the tolerance is positive. -/
theorem isFinite_of_compare (h : z.compare w t = .equivalent) :
    (z.isFinite = true ∧ w.isFinite = true) ∧ Binary64.zero.lt t = true := by
  obtain ⟨hfinite, hpos⟩ :=
    isFinite_of_lt (compare_eq_equivalent_iff.1 h) (isNegative_hypot _ _)
  exact ⟨isFinite_of_abs_sub hfinite, hpos⟩

/-- **What a comparison up to a tolerance keeps to.**  It does not depend on the order of the
numbers.  Numbers that are equivalent stay so for every tolerance that is not smaller.  Numbers that
are the same, up to the sign of a zero, and finite are equivalent for every positive tolerance.  And
numbers that are equivalent are finite and the tolerance is positive, so they are different if a
part of one is infinite or the NaN, and if the tolerance is zero, negative or the NaN. -/
theorem compare_within (z w : Complex) (t : Binary64) :
    w.compare z t = z.compare w t ∧
    (∀ t', z.compare w t = .equivalent → t.le t' = true → z.compare w t' = .equivalent) ∧
    (z.same w = true → z.isFinite = true → Binary64.zero.lt t = true →
      z.compare w t = .equivalent) ∧
    (z.compare w t = .equivalent →
      (z.isFinite = true ∧ w.isFinite = true) ∧ Binary64.zero.lt t = true) ∧
    (z.isFinite = false ∨ w.isFinite = false ∨ Binary64.zero.lt t = false →
      z.compare w t = .different) := by
  refine ⟨?_, fun t' h hle => ?_, fun h hz ht => ?_, isFinite_of_compare, fun h => ?_⟩
  · rw [compare, abs_sub_comm, ← compare]
  · exact compare_eq_equivalent_iff.2 (lt_of_lt_of_le (compare_eq_equivalent_iff.1 h) hle)
  · exact compare_eq_equivalent_iff.2 (abs_sub_of_same h hz ▸ ht)
  · cases hc : z.compare w t with
    | different => rfl
    | equivalent =>
      obtain ⟨⟨hz, hw⟩, ht⟩ := isFinite_of_compare hc
      rcases h with h | h | h
      · exact absurd (hz.symm.trans h) nofun
      · exact absurd (hw.symm.trans h) nofun
      · exact absurd (ht.symm.trans h) nofun

/-- One with either zero as its imaginary part is equivalent to the other up to the default
tolerance, so it is up to the infinite one, and it is up to no tolerance where an infinity takes the
place of the zero. -/
theorem compare_within_signedZeros :
    let z : Complex := ⟨.one, .zero⟩
    let w : Complex := ⟨.one, -.zero⟩
    (z.same w = true ∧ z.isFinite = true ∧ Binary64.zero.lt Comparison.defaultTolerance = true ∧
      Comparison.defaultTolerance.le (inf false) = true) ∧
    z.compare w Comparison.defaultTolerance = .equivalent ∧
    z.compare w (inf false) = .equivalent ∧
    ∀ t, z.compare ⟨.one, inf false⟩ t = .different := by
  intro z w
  have hsame : z.same w = true := by decide +kernel
  have hz : z.isFinite = true := by decide +kernel
  have hpos : Binary64.zero.lt Comparison.defaultTolerance = true := by decide +kernel
  have hle : Comparison.defaultTolerance.le (inf false) = true := by decide +kernel
  obtain ⟨-, hmono, hequal, -, -⟩ := compare_within z w Comparison.defaultTolerance
  have hequivalent := hequal hsame hz hpos
  have hinf : isFinite ⟨.one, inf false⟩ = false := by decide +kernel
  exact ⟨⟨hsame, hz, hpos, hle⟩, hequivalent, hmono _ hequivalent hle,
    fun t => (compare_within z _ t).2.2.2.2 (.inr (.inl hinf))⟩

end Complex

end Argand
