import Argand.Complex.Power
import Argand.Proofs.Quotients
import Argand.Proofs.Roots
import Argand.Proofs.Whole

/-!
The principal root of a complex number.

Of its two parts the larger one, `Complex.largerRoot`, is the root of the mean of `|a|` and the
modulus, and the smaller one is `b` divided by twice the larger one.  All that can go wrong is in
the larger part.  For a number that is not zero there are three cases (`LargerRoot`).

| | larger part | smaller part |
| :-- | :-- | :-- |
| the modulus is too large for a double | infinite | zero |
| `a` is zero and `b` one unit, so that the mean rounds to zero | zero | infinite |
| any other number | finite, and not below the root of the smallest double | finite |

So the root of a finite number is not always finite (`Complex.sqrt_of_finite`).  In none of the
three cases is a part a NaN or does it have a wrong sign: the root lies in the right half-plane, and
above or below the real axis as the number does (`Complex.sqrt_principal`).
-/

namespace Argand

namespace Binary64

/-! ## Twice a double, and half the sum of two -/

theorem two_mul_two_pow (k : Nat) : 2 * 2 ^ k = 2 ^ (k + 1) := (Nat.pow_succ' ..).symm

theorem two_pow_mul_unitsPerOne_pos (k : Nat) : 0 < 2 ^ k * unitsPerOne :=
  Nat.mul_pos (Nat.two_pow_pos k) unitsPerOne_pos

theorem OnGrid.double {t : Nat} (h : OnGrid t) : OnGrid (2 * t) := by
  obtain ⟨m, s, hm, rfl⟩ := h.exists_eq_mul
  have hpow : 2 * (m * 2 ^ s) = m * 2 ^ (s + 1) := by
    rw [Nat.pow_succ]
    ac_rfl
  rw [hpow]
  exact onGrid_mul_two_pow (Nat.le_of_lt hm) (s + 1)

theorem finite_congr {s t : Bool} {u v : Nat} {hu : Representable u} {hv : Representable v}
    (hs : s = t) (h : u = v) : finite s u hu = finite t v hv := by
  subst hs h
  rfl

theorem ofInt_two : ofInt 2 = finite false (2 * unitsPerOne) (representable_whole (by decide)) := by
  have htwo : (2 : Int).natAbs = 2 := by decide
  rw [ofInt_eq (by decide)]
  exact finite_congr (by decide) (congrArg (· * unitsPerOne) htwo)

/-- Twice a double needs no rounding. -/
theorem two_mul_finite (s : Bool) {t : Nat} (ht : Representable t) (h : Representable (2 * t)) :
    ofInt 2 * finite s t ht = finite s (2 * t) h := by
  rw [ofInt_two, finite_mul_finite, Nat.mul_right_comm, round_mul _ h unitsPerOne_pos,
    Bool.false_bne]

theorem two_mul_inf (s : Bool) : ofInt 2 * inf s = inf s := by
  have hne : 2 * unitsPerOne ≠ 0 := Nat.ne_of_gt (Nat.mul_pos (by decide) unitsPerOne_pos)
  have hmul {u : Nat} (hu : Representable u) :
      finite false u hu * inf s = if u = 0 then nan else inf (false != s) := rfl
  rw [ofInt_two, hmul, if_neg hne, Bool.false_bne]

theorem midpoint_finite (u h : Nat) (hu : Representable u) (hh : Representable h) :
    midpoint (finite false u hu) (finite false h hh) = round false (u + h) 2 :=
  roundSigned_natCast (u + h) 2

/-! ## The extreme doubles -/

/-- The smallest double above zero. -/
def smallest : Binary64 :=
  finite false 1 ((onGrid_two_pow 0).representable (Nat.one_lt_two_pow (by decide)))

/-- The largest finite double. -/
def largest : Binary64 :=
  finite false largestUnits (onGrid_largestUnits.representable largestUnits_lt)

/-! ## The sign of another double -/

theorem isNaN_copySign (x y : Binary64) : (x.copySign y).isNaN = x.isNaN := by
  unfold copySign
  split <;> cases x <;> rfl

theorem isFinite_copySign (x y : Binary64) : (x.copySign y).isFinite = x.isFinite := by
  unfold copySign
  split <;> cases x <;> rfl

theorem isNegative_copySign {x : Binary64} (hx : x.isNaN = false) (y : Binary64) :
    (x.copySign y).isNegative = y.isNegative := by
  unfold copySign
  cases y.isNegative <;> cases x <;> first | rfl | cases hx

end Binary64

namespace Complex

open Binary64

/-! ## The larger part -/

/-- The part of the root of a number that is taken from a real root. -/
def largerRoot (z : Complex) : Binary64 :=
  (midpoint z.re.abs (hypot z.re (z.im + .zero))).sqrt

/-- What the larger part of a root is, for parts of the number with these magnitudes. -/
inductive LargerRoot (u v : Nat) : Binary64 → Prop
  /-- The modulus is too large for a double. -/
  | overflow : ¬4 * (u * u + v * v) < overflowTwice * overflowTwice → LargerRoot u v (inf false)
  /-- The mean is half a unit, and rounded to zero. -/
  | vanishing : u = 0 → v = 1 → LargerRoot u v .zero
  /-- Any other number. -/
  | regular {t : Nat} (ht : Representable t) :
      4 * (u * u + v * v) < overflowTwice * overflowTwice → ¬(u = 0 ∧ v = 1) →
      t ≤ 2 ^ (fractionBits + 512) → 2 ^ (fractionBits / 2) ≤ t →
      unitsPerOne ≤ t ∨ v < 2 * unitsPerOne → LargerRoot u v (finite false t ht)

/-- The mean of `|a|` and the modulus is no larger than the modulus. -/
theorem midpoint_of_le {u h : Nat} (hu : Representable u) (hh : Representable h) (hle : u ≤ h) :
    ∃ hm : Representable (nearestUnits (u + h) 2),
      midpoint (finite false u hu) (finite false h hh) =
        finite false (nearestUnits (u + h) 2) hm := by
  have hmean : nearestUnits (u + h) 2 ≤ h := nearestUnits_le_of_le (by decide) hh.2 (by omega)
  have hlt : nearestUnits (u + h) 2 < 2 ^ magnitudeBits := Nat.lt_of_le_of_lt hmean hh.1
  exact ⟨_, (midpoint_finite u h hu hh).trans (round_eq_finite false hlt)⟩

theorem unitsPerOne_eq : unitsPerOne = 2 ^ (fractionBits / 2) * 2 ^ (fractionBits / 2) := by
  rw [unitsPerOne, ← Nat.pow_add]
  exact congrArg (2 ^ ·) (by decide)

/-- The root of a mean that is not rounded to zero. -/
theorem LargerRoot.of_mean {u v m : Nat} (hm : Representable m) (hpos : 0 < m)
    (hlimit : 4 * (u * u + v * v) < overflowTwice * overflowTwice) (hne : ¬(u = 0 ∧ v = 1))
    (hv : unitsPerOne ≤ m ∨ v < 2 * unitsPerOne) : LargerRoot u v (finite false m hm).sqrt := by
  rw [sqrt_finite]
  refine .regular _ hlimit hne (rootUnits_le_two_pow hm.1) ?_ (hv.imp_left fun hle => ?_)
  · refine le_rootUnits_of_le (onGrid_two_pow _) ?_
    rw [← unitsPerOne_eq]
    exact Nat.le_mul_of_pos_left _ hpos
  · exact le_rootUnits_of_le (onGrid_two_pow _) (Nat.mul_le_mul_right _ hle)

theorem LargerRoot.of_modulus {u v h : Nat} (hu : Representable u) (hh : Representable h)
    (hle : u ≤ h) (hlimit : 4 * (u * u + v * v) < overflowTwice * overflowTwice)
    (hv : v ≤ h) (h0 : ¬(u = 0 ∧ v = 0)) (hone : u = 0 ∧ v = 1 → h = 1) :
    LargerRoot u v (midpoint (finite false u hu) (finite false h hh)).sqrt := by
  obtain ⟨hm, hmean⟩ := midpoint_of_le hu hh hle
  have hzero := nearestUnits_eq_zero_iff (n := u + h) (d := 2) (by decide)
  have hlarge : unitsPerOne * 2 ≤ u + h → unitsPerOne ≤ nearestUnits (u + h) 2 :=
    le_nearestUnits_of_le (by decide) (onGrid_two_pow _)
  rw [hmean]
  by_cases hm0 : nearestUnits (u + h) 2 = 0
  · have hsum := hzero.1 hm0
    have hsqrt : (finite false (nearestUnits (u + h) 2) hm).sqrt = .zero := by
      have hm0' : finite false (nearestUnits (u + h) 2) hm = finite false 0 representable_zero :=
        finite_congr rfl hm0
      rw [hm0']
      rfl
    rw [hsqrt]
    exact .vanishing (by omega) (by omega)
  · refine .of_mean hm (Nat.pos_of_ne_zero hm0) hlimit (fun h1 => ?_) ?_
    · have h1' := hone h1
      exact hm0 (hzero.2 (by omega))
    · omega

/-- The three cases of the larger part. -/
theorem largerRoot_cases (s t : Bool) {u v : Nat} (hu : Representable u) (hv : Representable v)
    (h0 : ¬(u = 0 ∧ v = 0)) : LargerRoot u v (largerRoot ⟨finite s u hu, finite t v hv⟩) := by
  have him : finite t v hv + .zero = finite (if v = 0 then t && false else t) v hv :=
    finite_add_zeroOf t false hv
  have hroot : largerRoot ⟨finite s u hu, finite t v hv⟩ =
      (midpoint (finite false u hu) (roundRoot (u * u + v * v))).sqrt := by
    unfold largerRoot
    dsimp only
    rw [him]
    rfl
  rw [hroot]
  by_cases hh : rootUnits (u * u + v * v) < 2 ^ magnitudeBits
  · rw [roundRoot_eq_finite hh]
    refine .of_modulus hu _ (le_rootUnits_of_le hu.2 (Nat.le_add_right ..))
      (rootUnits_lt_limit_iff.1 hh) (le_rootUnits_of_le hv.2 (Nat.le_add_left ..)) h0 ?_
    rintro ⟨rfl, rfl⟩
    rw [Nat.zero_mul, Nat.zero_add, rootUnits_mul_self (onGrid_two_pow 0)]
  · rw [roundRoot_eq_inf hh]
    exact .overflow (mt rootUnits_lt_limit_iff.2 hh)

/-- The modulus of the numbers next to zero fits. -/
theorem four_lt_overflowTwice_mul_self : 4 * (0 * 0 + 1 * 1) < overflowTwice * overflowTwice := by
  have hpow : 2 ^ (2 : Nat) ≤ 2 ^ magnitudeBits := Nat.pow_le_pow_right (by decide) (by decide)
  have hfour : 4 ≤ overflowTwice := Nat.le_trans hpow (Nat.le_add_left _ _)
  exact Nat.lt_of_lt_of_le (by decide) (Nat.mul_le_mul hfour hfour)

section

variable {u v : Nat} {r : Binary64} (h : LargerRoot u v r)

include h

theorem LargerRoot.isNaN : r.isNaN = false := by
  cases h <;> rfl

theorem LargerRoot.isNegative : r.isNegative = false := by
  cases h <;> rfl

theorem LargerRoot.isFinite_iff :
    r.isFinite = true ↔ 4 * (u * u + v * v) < overflowTwice * overflowTwice := by
  cases h with
  | overflow hover => exact iff_of_false Bool.false_ne_true hover
  | vanishing hu hv =>
    subst hu hv
    exact iff_of_true rfl four_lt_overflowTwice_mul_self
  | regular _ hlimit => exact iff_of_true rfl hlimit

end

/-! ## The smaller part -/

/-- What is known of the smaller part: it has the sign of what is divided, and one number only makes
it infinite. -/
structure SmallerRoot (u v : Nat) (s : Bool) (q : Binary64) : Prop where
  isNaN : q.isNaN = false
  isNegative : q.isNegative = s
  isFinite_iff : q.isFinite = true ↔ ¬(u = 0 ∧ v = 1)
  isZero : v = 0 → q.isZero = true

theorem SmallerRoot.of_round {u v n d : Nat} (s : Bool) (hd : 0 < d)
    (hlt : nearestUnits n d < 2 ^ magnitudeBits) (hne : ¬(u = 0 ∧ v = 1)) (h0 : v = 0 → n = 0) :
    SmallerRoot u v s (Binary64.round s n d) where
  isNaN := isNaN_round s n d
  isNegative := isNegative_round s n d
  isFinite_iff := iff_of_true ((isFinite_round s n d).2 hlt) hne
  isZero hv := by
    rw [isZero_round s n hd, h0 hv]
    exact Nat.zero_le d

/-- By twice the larger part no double is divided beyond the limit. -/
theorem mul_unitsPerOne_le {v t : Nat} (hv : v < 2 ^ magnitudeBits)
    (ht : 2 ^ (fractionBits / 2) ≤ t) (h : unitsPerOne ≤ t ∨ v < 2 * unitsPerOne) :
    v * unitsPerOne ≤ 2 ^ (magnitudeBits - 1) * (2 * t) := by
  have hpow : 2 ^ magnitudeBits = 2 ^ (magnitudeBits - 1) * 2 := by
    rw [← Nat.pow_succ, Nat.succ_eq_add_one, Nat.sub_add_cancel (by decide)]
  have hsmall : unitsPerOne * 2 ^ (fractionBits / 2) ≤ 2 ^ (magnitudeBits - 1) := by
    rw [unitsPerOne, ← Nat.pow_add]
    exact Nat.pow_le_pow_right (by decide) (by decide)
  rw [← Nat.mul_assoc, ← hpow]
  rcases h with h | h
  · exact Nat.mul_le_mul (Nat.le_of_lt hv) h
  · rw [hpow]
    calc v * unitsPerOne ≤ 2 * unitsPerOne * unitsPerOne :=
          Nat.mul_le_mul_right _ (Nat.le_of_lt h)
      _ = unitsPerOne * 2 ^ (fractionBits / 2) * 2 * 2 ^ (fractionBits / 2) := by
          rw [Nat.mul_right_comm _ 2, Nat.mul_assoc unitsPerOne, ← unitsPerOne_eq, Nat.mul_comm 2,
            Nat.mul_right_comm]
      _ ≤ 2 ^ (magnitudeBits - 1) * 2 * t := Nat.mul_le_mul (Nat.mul_le_mul_right 2 hsmall) ht

/-- The quotient by twice the larger part. -/
theorem LargerRoot.div {u v : Nat} {r : Binary64} (h : LargerRoot u v r) (s : Bool)
    (hv : Representable v) : SmallerRoot u v s (finite s v hv / (ofInt 2 * r)) := by
  cases h with
  | overflow hover =>
    have hne : ¬(u = 0 ∧ v = 1) := by
      rintro ⟨rfl, rfl⟩
      exact hover four_lt_overflowTwice_mul_self
    rw [two_mul_inf, finite_div_inf, Bool.bne_false]
    have hzero : nearestUnits 0 1 = 0 := (nearestUnits_eq_zero_iff Nat.one_pos).2 (Nat.zero_le 1)
    refine .of_round s Nat.one_pos ?_ hne fun _ => rfl
    rw [hzero]
    exact Nat.two_pow_pos _
  | vanishing hu hv1 =>
    subst hu hv1
    have hdouble : ofInt 2 * .zero = Binary64.zero :=
      two_mul_finite false representable_zero representable_zero
    have hquotient : finite s 1 hv / .zero = inf s := by
      cases s <;> rfl
    rw [hdouble, hquotient]
    exact ⟨rfl, rfl, iff_of_false Bool.false_ne_true (not_not_intro ⟨rfl, rfl⟩), nofun⟩
  | @regular t ht hlimit hne htop hbottom hlarge =>
    have hpos : 0 < 2 * t :=
      Nat.mul_pos (by decide) (Nat.lt_of_lt_of_le (Nat.two_pow_pos _) hbottom)
    have hdouble : Representable (2 * t) := by
      refine (OnGrid.double ht.2).representable ?_
      calc 2 * t ≤ 2 * 2 ^ (fractionBits + 512) := Nat.mul_le_mul_left 2 htop
        _ = 2 ^ (fractionBits + 512 + 1) := two_mul_two_pow (fractionBits + 512)
        _ < 2 ^ magnitudeBits := Nat.pow_lt_pow_right (by decide) (by decide)
    rw [two_mul_finite false ht hdouble, finite_div_finite, if_neg (Nat.ne_of_gt hpos),
      Bool.bne_false]
    refine .of_round s hpos ?_ hne fun h0 => by rw [h0, Nat.zero_mul]
    exact Nat.lt_of_le_of_lt (nearestUnits_le_two_pow hpos (mul_unitsPerOne_le hv.1 hbottom hlarge))
      (Nat.pow_lt_pow_right (by decide) (by decide))

/-! ## Both parts -/

/-- What is known of the root of a number other than zero, for the magnitudes of the parts of the
number: it lies in the right half-plane, and above or below the real axis as the sign says. -/
structure PrincipalRoot (u v : Nat) (s : Bool) (w : Complex) : Prop where
  hasNaN : w.hasNaN = false
  re_isNegative : w.re.isNegative = false
  im_isNegative : w.im.isNegative = s
  isFinite_iff : w.isFinite = true ↔
    4 * (u * u + v * v) < overflowTwice * overflowTwice ∧ ¬(u = 0 ∧ v = 1)

/-- The larger part may be the real one. -/
theorem PrincipalRoot.of_re {u v : Nat} {s : Bool} {r q : Binary64} (hr : LargerRoot u v r)
    (hq : SmallerRoot u v s q) : PrincipalRoot u v s ⟨r, q⟩ where
  hasNaN := Bool.or_eq_false_iff.2 ⟨hr.isNaN, hq.isNaN⟩
  re_isNegative := hr.isNegative
  im_isNegative := hq.isNegative
  isFinite_iff := Complex.isFinite_iff.trans (and_congr hr.isFinite_iff hq.isFinite_iff)

/-- The larger part may be the imaginary one. -/
theorem PrincipalRoot.of_im {u v : Nat} {r q b : Binary64} (hr : LargerRoot u v r)
    (hq : SmallerRoot u v false q) : PrincipalRoot u v b.isNegative ⟨q, r.copySign b⟩ where
  hasNaN := Bool.or_eq_false_iff.2 ⟨hq.isNaN, (isNaN_copySign r b).trans hr.isNaN⟩
  re_isNegative := hq.isNegative
  im_isNegative := isNegative_copySign hr.isNaN b
  isFinite_iff := by
    rw [Complex.isFinite_iff, isFinite_copySign, hr.isFinite_iff, hq.isFinite_iff, and_comm]

/-- The imaginary part as the root takes it: a zero has no sign. -/
theorem im_add_zero (t : Bool) {v : Nat} (hv : Representable v) :
    finite t v hv + .zero = finite (t && decide (v ≠ 0)) v hv := by
  have hadd : finite t v hv + .zero = finite (if v = 0 then t && false else t) v hv :=
    finite_add_zeroOf t false hv
  rw [hadd]
  by_cases h0 : v = 0 <;> simp [h0]

theorem sqrt_of_isZero {z : Complex} (h0 : z.isZero = true) : z.sqrt = zero := if_pos h0

theorem sqrt_of_not_isZero {z : Complex} (h0 : z.isZero = false) :
    z.sqrt =
      if Binary64.zero.le z.re then ⟨z.largerRoot, (z.im + .zero) / (ofInt 2 * z.largerRoot)⟩
      else ⟨(z.im + .zero).abs / (ofInt 2 * z.largerRoot),
          z.largerRoot.copySign (z.im + .zero)⟩ := by
  unfold sqrt
  rw [h0]
  rfl

theorem sqrt_parts (s t : Bool) {u v : Nat} (hu : Representable u) (hv : Representable v) :
    PrincipalRoot u v (t && decide (v ≠ 0)) (sqrt ⟨finite s u hu, finite t v hv⟩) := by
  have hz : isZero ⟨finite s u hu, finite t v hv⟩ = true ↔ u = 0 ∧ v = 0 := by
    rw [isZero, Bool.and_eq_true, isZero_finite, isZero_finite]
  by_cases h0 : u = 0 ∧ v = 0
  · have hsqrt := sqrt_of_isZero (hz.2 h0)
    obtain ⟨rfl, rfl⟩ := h0
    have hfits : 4 * (0 * 0 + 0 * 0) < overflowTwice * overflowTwice :=
      Nat.lt_trans (by decide) four_lt_overflowTwice_mul_self
    rw [hsqrt]
    exact ⟨rfl, rfl, (Bool.and_false t).symm, iff_of_true rfl ⟨hfits, by decide⟩⟩
  · have hr := largerRoot_cases s t hu hv h0
    rw [sqrt_of_not_isZero (Bool.eq_false_iff.2 (mt hz.1 h0))]
    dsimp only
    rw [im_add_zero]
    split
    · exact .of_re hr (hr.div _ hv)
    · exact PrincipalRoot.of_im (b := finite _ v hv) hr (hr.div false hv)

theorem exists_parts {z : Complex} (hz : z.isFinite = true) :
    ∃ s u hu t v hv, z = ⟨finite s u hu, finite t v hv⟩ := by
  obtain ⟨hre, him⟩ := isFinite_iff.1 hz
  obtain ⟨s, u, hu, hs⟩ := exists_finite hre
  obtain ⟨t, v, hv, ht⟩ := exists_finite him
  exact ⟨s, u, hu, t, v, hv, congrArg₂ Complex.mk hs ht⟩

/-! ## Which roots are finite -/

/-- The number has the smallest double above zero as its imaginary part, or the largest one below,
and lies on the imaginary axis. -/
def IsSmallestImaginary (z : Complex) : Prop :=
  z.re.isZero = true ∧ ∃ q, z.im.place = some q ∧ q.natAbs = 1

/-- The modulus itself is below the middle between the largest double and the limit. -/
def ModulusFits (z : Complex) : Prop :=
  ∃ p q, z.re.place = some p ∧ z.im.place = some q ∧
    4 * (p.natAbs * p.natAbs + q.natAbs * q.natAbs) < overflowTwice * overflowTwice

section

variable {s t : Bool} {u v : Nat} {hu : Representable u} {hv : Representable v}

theorem isSmallestImaginary_finite :
    IsSmallestImaginary ⟨finite s u hu, finite t v hv⟩ ↔ u = 0 ∧ v = 1 :=
  and_congr isZero_finite (exists_place_finite (P := fun n => n = 1))

theorem modulusFits_finite :
    ModulusFits ⟨finite s u hu, finite t v hv⟩ ↔
      4 * (u * u + v * v) < overflowTwice * overflowTwice := by
  constructor
  · rintro ⟨p, q, hp, hq, h⟩
    rwa [← Option.some.inj hp, ← Option.some.inj hq, natAbs_signed, natAbs_signed] at h
  · intro h
    exact ⟨signed s u, signed t v, rfl, rfl, by rwa [natAbs_signed, natAbs_signed]⟩

theorem isFinite_abs_finite :
    (abs ⟨finite s u hu, finite t v hv⟩).isFinite = true ↔
      4 * (u * u + v * v) < overflowTwice * overflowTwice := by
  have habs : abs ⟨finite s u hu, finite t v hv⟩ = roundRoot (u * u + v * v) := rfl
  rw [habs, roundRoot_eq, isFinite_round]
  exact rootUnits_lt_limit_iff

end

/-- Three halves of the limit are below twice the middle behind the largest double. -/
theorem three_mul_le_overflowTwice {k : Nat} (hk : k + fractionBits + 1 = magnitudeBits) :
    3 * (2 ^ k * unitsPerOne) ≤ overflowTwice := by
  have hspacing : k + fractionBits = 52 + largestSpacing := by
    have h : 53 + largestSpacing = magnitudeBits := by decide
    omega
  have hlargest : 2 ^ k * unitsPerOne ≤ largestUnits := by
    rw [unitsPerOne, ← Nat.pow_add, hspacing, Nat.pow_add, largestUnits]
    exact Nat.mul_le_mul_right _ (by decide)
  have hlimit : 2 ^ magnitudeBits = 2 * (2 ^ k * unitsPerOne) := by
    rw [unitsPerOne, ← Nat.pow_add, two_mul_two_pow, hk]
  rw [overflowTwice, hlimit]
  omega

theorem mul_self_add_mul_self_lt {u v c w : Nat} (hc : 0 < c) (hu : u ≤ c) (hv : v ≤ c)
    (hw : 3 * c ≤ w) : 4 * (u * u + v * v) < w * w := by
  calc 4 * (u * u + v * v) ≤ 4 * (c * c + c * c) :=
        Nat.mul_le_mul_left 4 (Nat.add_le_add (Nat.mul_le_mul hu hu) (Nat.mul_le_mul hv hv))
    _ < 3 * c * (3 * c) := by
        rw [Nat.mul_mul_mul_comm]
        have := Nat.mul_pos hc hc
        omega
    _ ≤ w * w := Nat.mul_le_mul hw hw

/-- A modulus fits if no part is above one half of the limit. -/
theorem modulusFits_of_atMost {z : Complex} {k : Nat} (hk : k + fractionBits + 1 = magnitudeBits)
    (hz : z.isFinite = true) (hre : z.re.AtMostTwoPow k) (him : z.im.AtMostTwoPow k) :
    z.ModulusFits := by
  obtain ⟨s, u, hu, t, v, hv, rfl⟩ := exists_parts hz
  exact modulusFits_finite.2 (mul_self_add_mul_self_lt (two_pow_mul_unitsPerOne_pos k)
    (atMostTwoPow_finite.1 hre) (atMostTwoPow_finite.1 him) (three_mul_le_overflowTwice hk))

/-- **Which roots are finite.**  The root of a finite number is finite exactly if its modulus, as it
is rounded, is finite and the number is not one of the two that are next to zero on the imaginary
axis.  The rounded modulus is finite exactly if the modulus itself is below the middle between the
largest double and the limit, and that is so if no part is above `2 ^ 1023`. -/
theorem sqrt_of_finite {z : Complex} (hz : z.isFinite = true) :
    (z.sqrt.isFinite = true ↔ z.abs.isFinite = true ∧ ¬z.IsSmallestImaginary) ∧
    (z.abs.isFinite = true ↔ z.ModulusFits) ∧
    (z.re.AtMostTwoPow 1023 → z.im.AtMostTwoPow 1023 → z.abs.isFinite = true) := by
  have hfits : z.abs.isFinite = true ↔ z.ModulusFits := by
    obtain ⟨s, u, hu, t, v, hv, rfl⟩ := exists_parts hz
    rw [isFinite_abs_finite, modulusFits_finite]
  refine ⟨?_, hfits, fun hre him => hfits.2 (modulusFits_of_atMost (by decide) hz hre him)⟩
  obtain ⟨s, u, hu, t, v, hv, rfl⟩ := exists_parts hz
  rw [(sqrt_parts s t hu hv).isFinite_iff, isFinite_abs_finite, isSmallestImaginary_finite]

/-- The root of the number with the smallest double in both parts is finite. -/
theorem sqrt_of_finite_smallest : (sqrt ⟨smallest, -smallest⟩).isFinite = true := by
  have hle : 1 ≤ 2 ^ (1023 : Nat) * unitsPerOne :=
    Nat.succ_le_of_lt (two_pow_mul_unitsPerOne_pos 1023)
  obtain ⟨hroot, -, hmodulus⟩ := sqrt_of_finite (z := ⟨smallest, -smallest⟩) rfl
  have hfinite := hmodulus (atMostTwoPow_finite.2 hle) (atMostTwoPow_finite.2 hle)
  refine hroot.2 ⟨hfinite, fun h => ?_⟩
  exact absurd (isZero_finite.1 h.1) Nat.one_ne_zero

/-- Two finite numbers with a root that is not finite: the mean of `|a|` and the modulus is too
small for a double in the one and the modulus too large in the other. -/
theorem sqrt_smallest_largest :
    isFinite ⟨.zero, smallest⟩ = true ∧ sqrt ⟨.zero, smallest⟩ = ⟨.zero, inf false⟩ ∧
    isFinite ⟨largest, largest⟩ = true ∧ sqrt ⟨largest, largest⟩ = ⟨inf false, .zero⟩ :=
  ⟨rfl, by decide +kernel, rfl, by decide +kernel⟩

/-! ## The principal branch -/

/-- On the real axis nothing is rounded before the root is taken. -/
theorem largerRoot_of_im_isZero {z : Complex} (hz : z.isFinite = true) (him : z.im.isZero = true) :
    z.largerRoot = z.re.abs.sqrt := by
  obtain ⟨s, u, hu, t, v, hv, rfl⟩ := exists_parts hz
  obtain rfl := isZero_finite.1 him
  have hhypot (b : Bool) : hypot (finite s u hu) (finite b 0 hv) = finite false u hu := by
    have hroot : rootUnits (u * u + 0 * 0) = u := rootUnits_mul_self hu.2
    have hlt : rootUnits (u * u + 0 * 0) < 2 ^ magnitudeBits := by
      rw [hroot]
      exact hu.1
    exact (roundRoot_eq_finite hlt).trans (finite_congr rfl hroot)
  have hmean : midpoint (finite false u hu) (finite false u hu) = finite false u hu := by
    rw [midpoint_finite, ← Nat.mul_two, round_mul _ hu (by decide)]
  unfold largerRoot
  dsimp only
  rw [im_add_zero, hhypot]
  exact congrArg Binary64.sqrt hmean

/-- The root of a real number, with a zero of either sign as its imaginary part. -/
theorem sqrt_of_im_isZero {z : Complex} (hz : z.isFinite = true) (him : z.im.isZero = true) :
    (Binary64.zero.le z.re = true → z.sqrt.same ⟨z.re.abs.sqrt, .zero⟩ = true) ∧
    (z.re.lt .zero = true → z.sqrt.same ⟨.zero, z.re.abs.sqrt⟩ = true) := by
  have hroot := largerRoot_of_im_isZero hz him
  obtain ⟨s, u, hu, t, v, hv, rfl⟩ := exists_parts hz
  obtain rfl := isZero_finite.1 him
  have hplace : (finite s u hu).place = some (signed s u) := rfl
  rw [zero_le_iff hplace, lt_zero_iff hplace]
  by_cases h0 : u = 0
  · subst h0
    rw [signed_eq_zero.2 rfl]
    refine ⟨fun _ => ?_, fun h => absurd h (Int.lt_irrefl 0)⟩
    rw [sqrt_of_isZero (Bool.and_eq_true_iff.2 ⟨isZero_finite.2 rfl, him⟩)]
    exact same_iff.2 ⟨rfl, rfl⟩
  · have hz0 : isZero ⟨finite s u hu, finite t 0 hv⟩ = false :=
      Bool.and_eq_false_iff.2 (.inl (Bool.eq_false_iff.2 (mt isZero_finite.1 h0)))
    have hr := largerRoot_cases s t hu hv fun h => h0 h.1
    rw [sqrt_of_not_isZero hz0]
    dsimp only
    rw [im_add_zero]
    rw [hroot] at hr ⊢
    constructor
    · intro hle
      rw [if_pos ((zero_le_iff hplace).2 hle)]
      exact same_iff.2 ⟨rfl, isZero_iff.1 ((hr.div _ hv).isZero rfl)⟩
    · intro hlt
      have habs : (finite s u hu).abs = finite false u hu := rfl
      rw [if_neg (mt (zero_le_iff hplace).1 (Int.not_le.2 hlt))]
      refine same_iff.2 ⟨isZero_iff.1 ((hr.div false hv).isZero rfl), ?_⟩
      rw [habs, sqrt_finite, decide_eq_false (not_not_intro rfl), Bool.and_false]
      rfl

/-- The exponent one half stands for the root. -/
theorem pow_half {z e : Complex} (hre : e.re.same half = true) (him : e.im.isZero = true) :
    z.pow e = z.sqrt := by
  obtain ⟨p, hp, h2⟩ := place_half
  have hne : e.isZero = false := by
    have hre0 : e.re.isZero = false := by
      rw [Bool.eq_false_iff, Ne, isZero_iff, Binary64.same_iff.1 hre, hp, Option.some.injEq]
      have := Int.natCast_pos.2 unitsPerOne_pos
      omega
    rw [isZero, hre0, Bool.false_and]
  rw [pow, hne, him, hre]
  cases hz : z.isZero with
  | true => exact (sqrt_of_isZero hz).symm
  | false => rfl

/-- **The principal branch.**  The root of a finite number is no NaN, lies in the right half-plane,
and above or below the real axis as the number does; a number on the axis counts as above it,
whatever the sign of its zero.  On the axis the root is a real root or one times the imaginary unit,
and the real root is rounded correctly.  The exponent one half gives the same root. -/
theorem sqrt_principal {z : Complex} (hz : z.isFinite = true) :
    z.sqrt.hasNaN = false ∧ Binary64.zero.le z.sqrt.re = true ∧
    (Binary64.zero.le z.im = true → Binary64.zero.le z.sqrt.im = true) ∧
    (z.im.lt .zero = true → z.sqrt.im.le .zero = true) ∧
    (z.im.isZero = true →
      (Binary64.zero.le z.re = true → z.sqrt.same ⟨z.re.abs.sqrt, .zero⟩ = true) ∧
      (z.re.lt .zero = true → z.sqrt.same ⟨.zero, z.re.abs.sqrt⟩ = true) ∧
      z.re.abs.sqrt.IsNearest √|z.re.value|) ∧
    (∀ e : Complex, e.re.same half = true → e.im.isZero = true → z.pow e = z.sqrt) := by
  have hroot : z.sqrt.hasNaN = false ∧ z.sqrt.re.isNegative = false ∧
      z.sqrt.im.isNegative = z.im.lt .zero := by
    obtain ⟨s, u, hu, t, v, hv, rfl⟩ := exists_parts hz
    have h := sqrt_parts s t hu hv
    refine ⟨h.hasNaN, h.re_isNegative, h.im_isNegative.trans ?_⟩
    rw [Bool.eq_iff_iff, lt_zero_iff rfl, signed_neg_iff, Bool.and_eq_true, decide_eq_true_iff]
  obtain ⟨hnan, hre, him⟩ := hroot
  obtain ⟨hnre, hnim⟩ := Bool.or_eq_false_iff.1 hnan
  refine ⟨hnan, zero_le_of_not_isNegative hnre hre, fun hle => ?_, fun hlt => ?_, fun h0 => ?_,
    fun e => pow_half⟩
  · exact zero_le_of_not_isNegative hnim (him.trans (lt_zero_eq_false hle))
  · exact le_zero_of_isNegative hnim (him.trans hlt)
  · obtain ⟨hpos, hneg⟩ := sqrt_of_im_isZero hz h0
    exact ⟨hpos, hneg, isNearest_sqrt (isFinite_iff.1 hz).1⟩

/-- The number to the far left and just below the real axis has its root just right of the imaginary
axis, far below. -/
theorem sqrt_principal_largest :
    let z : Complex := ⟨-largest, -smallest⟩
    z.sqrt.hasNaN = false ∧ Binary64.zero.le z.sqrt.re = true ∧ z.sqrt.im.le .zero = true ∧
      z.pow ⟨half, -Binary64.zero⟩ = z.sqrt := by
  intro z
  have hbelow : z.im.lt .zero = true := (lt_zero_iff (p := -1) rfl).2 (by decide)
  have hhalf : half.same half = true := Binary64.same_iff.2 (Eq.refl half.place)
  have hzero : (-Binary64.zero).isZero = true := isZero_finite.2 (Eq.refl 0)
  obtain ⟨hnan, hre, -, him, -, hpow⟩ := sqrt_principal (z := z) rfl
  have hroot := hpow ⟨half, -Binary64.zero⟩
  dsimp only at hroot
  exact ⟨hnan, hre, him hbelow, hroot hhalf hzero⟩

end Complex

end Argand
