import Argand.Decimal.Basic
import Argand.Evaluation.Calculator
import Argand.Proofs.Chains
import Argand.Proofs.Negation
import Argand.Proofs.PrincipalRoot

/-!
A number times its conjugate.

The imaginary part of this product is the difference of two equal products, but one of the two is
rounded on its own and the other only together with the difference.  What is left is the error of
that one rounding (`Binary64.productError`): not always zero, but never more than `2 ^ -53` of the
product, and zero exactly if the error is at most half the smallest double, hence for every product
that is not rounded at all.  The real part is the rounded square of the magnitude and not below
zero.

Main statement: `Complex.conj_mul_self`, on the two texts `conj(z)*z` and `z*conj(z)`.
-/

namespace Argand

namespace Binary64

/-! ## The error of a product -/

/-- The exact product less the rounded one. -/
def productError (x y : Binary64) : Binary64 := fma x y (-(x * y))

theorem productError_neg_same (x y : Binary64) :
    (productError x (-y)).same (-productError x y) = true := by
  rw [productError, mul_neg_eq]
  exact fma_neg_same x y (-(x * y))

/-- How far `n / d` is from its rounding, as a multiple of `1 / d`. -/
def roundingError (n d : Nat) : Nat := ((n : Int) - nearestUnits n d * d).natAbs

variable {n d : Nat}

/-- A rounding is off by at most half a spacing. -/
theorem two_mul_roundingError_le (hd : 0 < d) :
    2 * roundingError n d ≤ d * 2 ^ spacing (n / d) := by
  have hds := Nat.mul_pos hd (Nat.two_pow_pos (spacing (n / d)))
  have hup := two_mul_roundHalfEven_le n (d * 2 ^ spacing (n / d))
  have hlow := le_two_mul_roundHalfEven n hds
  have hmul (r s : Nat) : r * 2 ^ s * d = d * 2 ^ s * r := by
    rw [Nat.mul_right_comm, Nat.mul_comm r, Nat.mul_right_comm]
  unfold roundingError nearestUnits
  dsimp only
  rw [← Int.natCast_mul, hmul]
  omega

/-- The error, rounded in its turn, is at most `2 ^ -53` of what was rounded first. -/
theorem two_pow_mul_nearestUnits_roundingError_le (hd : 0 < d) :
    2 ^ (53 : Nat) * nearestUnits (roundingError n d) d * d ≤ n := by
  have herror := two_mul_roundingError_le (n := n) hd
  rcases Nat.eq_zero_or_pos (spacing (n / d)) with h0 | hpos
  · -- Among the subnormal doubles the error is at most half a unit, and is rounded to zero.
    rw [h0, Nat.pow_zero, Nat.mul_one] at herror
    rw [(nearestUnits_eq_zero_iff hd).2 herror, Nat.mul_zero, Nat.zero_mul]
    exact Nat.zero_le n
  · obtain ⟨s, hs⟩ := Nat.exists_eq_add_of_le' hpos
    have hsmallest := two_pow_mul_le_of_spacing (Nat.ne_of_gt hpos)
    rw [hs] at herror hsmallest
    have hle : roundingError n d ≤ 2 ^ s * d := by
      rw [Nat.pow_succ, ← Nat.mul_assoc, Nat.mul_comm d] at herror
      omega
    calc 2 ^ (53 : Nat) * nearestUnits (roundingError n d) d * d
        ≤ 2 ^ (53 : Nat) * 2 ^ s * d :=
          Nat.mul_le_mul_right d (Nat.mul_le_mul_left _ (nearestUnits_le_two_pow hd hle))
      _ = 2 ^ (52 + (s + 1)) * d := by
          rw [← Nat.pow_add, Nat.add_left_comm 52, Nat.add_comm s]
      _ ≤ n := hsmallest

/-! ## The error as a real number -/

theorem natAbs_signed_add_not (s : Bool) (u v c : Nat) :
    (signed s u + signed (!s) v * c).natAbs = ((u : Int) - v * c).natAbs := by
  cases s <;> simp only [signed, Bool.not_true, Bool.not_false, Bool.false_eq_true, if_true,
    if_false, Int.neg_mul] <;> omega

/-- A double below a power of two, as a real number. -/
theorem atMostTwoPow_of_abs_value_le {x : Binary64} {k : Nat} (hx : x.isFinite = true)
    (h : |x.value| ≤ 2 ^ k) : x.AtMostTwoPow k := by
  obtain ⟨s, u, hu, rfl⟩ := exists_finite hx
  have hone := cast_unitsPerOne_pos
  rw [abs_value_finite, div_le_iff₀ hone] at h
  exact atMostTwoPow_finite.2 (by exact_mod_cast h)

section

variable (s t : Bool) {u v : Nat} (hu : Representable u) (hv : Representable v)

theorem finite_mul_finite_of_lt (hlt : nearestUnits (u * v) unitsPerOne < 2 ^ magnitudeBits) :
    finite s u hu * finite t v hv = finite (s != t) (nearestUnits (u * v) unitsPerOne)
      ((onGrid_nearestUnits _ _).representable hlt) :=
  (finite_mul_finite ..).trans (round_eq_finite _ hlt)

/-- The error of a product is the error of its magnitude, with some sign, rounded. -/
theorem productError_finite (hlt : nearestUnits (u * v) unitsPerOne < 2 ^ magnitudeBits) :
    ∃ r, productError (finite s u hu) (finite t v hv) =
      round r (roundingError (u * v) unitsPerOne) unitsPerOne := by
  have hneg {r : Bool} {w : Nat} {hw : Representable w} :
      -finite r w hw = finite (!r) w hw := rfl
  rw [productError, finite_mul_finite_of_lt s t hu hv hlt, hneg, fma_finite, roundSigned,
    natAbs_signed_add_not]
  exact ⟨_, rfl⟩

/-- The error of a product as a real number. -/
theorem abs_product_sub_value (hlt : nearestUnits (u * v) unitsPerOne < 2 ^ magnitudeBits) :
    |(finite s u hu).value * (finite t v hv).value - (finite s u hu * finite t v hv).value| =
      roundingError (u * v) unitsPerOne / ((unitsPerOne : ℝ) * unitsPerOne) := by
  have hone := ne_of_gt cast_unitsPerOne_pos
  have hdifference :
      (finite s u hu).value * (finite t v hv).value - (finite s u hu * finite t v hv).value =
        ((signed (s != t) (u * v) +
            signed (!(s != t)) (nearestUnits (u * v) unitsPerOne) * unitsPerOne : Int) : ℝ) /
          ((unitsPerOne : ℝ) * unitsPerOne) := by
    rw [finite_mul_finite_of_lt s t hu hv hlt, value_finite, value_finite, value_finite, signed_bne,
      signed_not]
    push_cast
    field_simp
    ring
  rw [hdifference, abs_div, ← Int.cast_abs, Int.abs_eq_natAbs, natAbs_signed_add_not,
    abs_of_nonneg (mul_self_nonneg (unitsPerOne : ℝ)), Int.cast_natCast]
  rfl

end

theorem isFinite_neg (x : Binary64) : (-x).isFinite = x.isFinite := by cases x <;> rfl

theorem value_neg (x : Binary64) : (-x).value = -x.value := by
  have hplace : (-x).place.getD 0 = -x.place.getD 0 := by
    rw [place_neg]
    cases x.place with
    | none => exact Int.neg_zero.symm
    | some p => rfl
  rw [value, hplace, Int.cast_neg, neg_div]
  rfl

/-- **The error of a product.**  Of doubles whose product does not overflow, it is finite; it is
zero exactly if the rounded product is no further than half the smallest double from the exact one,
and it is at most `2 ^ -53` of the exact one. -/
theorem productError_of_finite {x y : Binary64} {k : Nat}
    (hk : 2 * k + fractionBits < magnitudeBits) (hx : x.isFinite = true) (hy : y.isFinite = true)
    (hxk : x.AtMostTwoPow k) (hyk : y.AtMostTwoPow k) :
    (productError x y).isFinite = true ∧
    ((productError x y).isZero = true ↔
      2 * (unitsPerOne : ℝ) * |x.value * y.value - (x * y).value| ≤ 1) ∧
    2 ^ (53 : Nat) * |(productError x y).value| ≤ |x.value * y.value| := by
  obtain ⟨s, u, hu, rfl⟩ := exists_finite hx
  obtain ⟨t, v, hv, rfl⟩ := exists_finite hy
  have hone := cast_unitsPerOne_pos
  have hproduct : u * v ≤ 2 ^ (2 * k + fractionBits) * unitsPerOne := by
    rw [← square_two_pow]
    exact Nat.mul_le_mul (atMostTwoPow_finite.1 hxk) (atMostTwoPow_finite.1 hyk)
  have hlt : nearestUnits (u * v) unitsPerOne < 2 ^ magnitudeBits :=
    Nat.lt_of_le_of_lt (nearestUnits_le_two_pow unitsPerOne_pos hproduct)
      (Nat.pow_lt_pow_right (by decide) hk)
  have hbound := two_pow_mul_nearestUnits_roundingError_le (n := u * v) unitsPerOne_pos
  have herror :
      nearestUnits (roundingError (u * v) unitsPerOne) unitsPerOne < 2 ^ magnitudeBits := by
    refine Nat.lt_of_le_of_lt ?_ (Nat.pow_lt_pow_right (by decide) hk)
    refine Nat.le_of_mul_le_mul_right (Nat.le_trans ?_ hproduct) unitsPerOne_pos
    refine Nat.le_trans (Nat.mul_le_mul_right unitsPerOne ?_) hbound
    exact Nat.le_mul_of_pos_left _ (Nat.two_pow_pos 53)
  obtain ⟨r, hr⟩ := productError_finite s t hu hv hlt
  have heq : productError (finite s u hu) (finite t v hv) = finite r _
      ((onGrid_nearestUnits _ _).representable herror) := hr.trans (round_eq_finite r herror)
  refine ⟨by rw [heq]; rfl, ?_, ?_⟩
  · have hcancel (e : ℝ) : 2 * (unitsPerOne : ℝ) * (e / (unitsPerOne * unitsPerOne)) =
        2 * e / unitsPerOne := by
      field_simp
    rw [hr, isZero_round _ _ unitsPerOne_pos, abs_product_sub_value s t hu hv hlt, hcancel,
      div_le_one hone]
    exact_mod_cast Iff.rfl
  · have hbound' : 2 ^ (53 : Nat) *
        (nearestUnits (roundingError (u * v) unitsPerOne) unitsPerOne : ℝ) * unitsPerOne ≤
          u * v := by
      exact_mod_cast hbound
    rw [heq, abs_value_finite, abs_mul, abs_value_finite, abs_value_finite, div_mul_div_comm,
      mul_div_assoc', div_le_div_iff₀ hone (mul_pos hone hone), ← mul_assoc]
    exact mul_le_mul_of_nonneg_right hbound' (le_of_lt hone)

/-- The sum of two squares is never negative. -/
theorem isNegative_square {x y : Binary64} (hx : x.isFinite = true) (hy : y.isFinite = true) :
    (fma x x (y * y)).isNegative = false := by
  obtain ⟨s, u, hu, rfl⟩ := exists_finite hx
  obtain ⟨t, v, hv, rfl⟩ := exists_finite hy
  rw [mul_self_finite]
  rcases round_cases false (v * v) unitsPerOne with ⟨hw, heq⟩ | ⟨-, heq⟩ <;> rw [heq]
  · rw [fma_self_finite]
    exact isNegative_round ..
  · rfl

end Binary64

namespace Complex

open Binary64

/-! ## Conjugates -/

theorem conj_conj (z : Complex) : z.conj.conj = z := congrArg (Complex.mk z.re) (neg_neg_eq z.im)

theorem square_conj (z : Complex) : z.conj.square = z.square := by
  unfold square conj
  dsimp only
  rw [neg_mul_eq, mul_neg_eq, neg_neg_eq]

/-- The parts of a product of a number and its conjugate. -/
theorem conj_mul_eq (z : Complex) : z.conj * z = ⟨z.square, productError z.re z.im⟩ := by
  have hmul : z.conj * z =
      ⟨fma z.re z.re (-(-z.im * z.im)), fma z.re z.im (-z.im * z.re)⟩ := rfl
  rw [hmul, neg_mul_eq, neg_mul_eq, neg_neg_eq, mul_comm_eq z.im z.re]
  rfl

/-- What the product of a number and its conjugate is, for both orders of the factors.  They differ
in the sign of the error that is its imaginary part. -/
structure IsNorm (z : Complex) (error : Binary64) (w : Complex) : Prop where
  isFinite : w.isFinite = true
  re_eq : w.re = z.square
  zero_le_re : Binary64.zero.le w.re = true
  im_same : w.im.same error = true
  im_isZero_iff : w.im.isZero = true ↔
    2 * (unitsPerOne : ℝ) * |z.re.value * z.im.value - (z.re * z.im).value| ≤ 1
  abs_im_le : 2 ^ (53 : Nat) * |w.im.value| ≤ |z.re.value * z.im.value|

theorem isNorm_conj_mul {z : Complex} {k : Nat} (hk : 2 * k + fractionBits + 1 < magnitudeBits)
    (hz : z.isFinite = true) (hre : z.re.AtMostTwoPow k) (him : z.im.AtMostTwoPow k) :
    IsNorm z (productError z.re z.im) (z.conj * z) := by
  obtain ⟨hr, hi⟩ := isFinite_iff.1 hz
  obtain ⟨hfinite, hzero, hle⟩ :=
    productError_of_finite (Nat.lt_of_succ_lt hk) hr hi hre him
  have hnonneg := zero_le_of_not_isNegative (isNaN_square hz) (isNegative_square hr hi)
  rw [conj_mul_eq]
  exact ⟨isFinite_iff.2 ⟨isFinite_square hk hr hi hre him, hfinite⟩, rfl, hnonneg,
    Binary64.same_iff.2 rfl, hzero, hle⟩

/-- A number and its conjugate have the same products. -/
theorem IsNorm.of_conj {z w : Complex} (h : IsNorm z.conj (productError z.re (-z.im)) w) :
    IsNorm z (-productError z.re z.im) w where
  isFinite := h.isFinite
  re_eq := h.re_eq.trans (square_conj z)
  zero_le_re := h.zero_le_re
  im_same := Binary64.same_iff.2 <|
    (Binary64.same_iff.1 h.im_same).trans
      (Binary64.same_iff.1 (productError_neg_same z.re z.im))
  im_isZero_iff := by
    have hconj := h.im_isZero_iff
    unfold conj at hconj
    dsimp only at hconj
    rwa [value_neg, mul_neg_eq, value_neg, mul_neg, ← neg_sub', abs_neg] at hconj
  abs_im_le := by
    have hconj := h.abs_im_le
    unfold conj at hconj
    dsimp only at hconj
    rwa [value_neg, mul_neg, abs_neg] at hconj

end Complex

/-! ## The two texts -/

section

variable {σ : Type} {resolver : Resolver σ} {state : σ} {z : Complex}

/-- The trees of `conj(z)*z` and `z*conj(z)` ask for the variable once. -/
theorem evaluate_conj_mul (hanswer : (resolver 'z' state).1 = .ok z) (a b c d : Nat) :
    (Expr.evaluate (.binary .mul (.unary .conj (.var 'z' a) b) (.var 'z' c) d)
      resolver state).result =
      .ok (z.conj * z) ∧
    (Expr.evaluate (.binary .mul (.var 'z' a) (.unary .conj (.var 'z' b) c) d)
      resolver state).result =
      .ok (z * z.conj) := by
  obtain ⟨next, hnext⟩ : ∃ next, resolver 'z' state = (.ok z, next) := ⟨_, Prod.ext hanswer rfl⟩
  constructor <;>
    simp [Expr.evaluate, Expr.eval, resolve, hnext, Except.map, Except.bind, UnaryOperator.apply,
      BinaryOperator.apply]

end

theorem derives_name_z {column : Nat} {next : Option Token} :
    Derives .greedy .factor [⟨.identifier 'z', column⟩] next (.var 'z' column) := .name (by decide)

theorem derives_conj_z {column opening inner closing : Nat} {next : Option Token} :
    Derives .greedy .factor
      [⟨.conj, column⟩, ⟨.opening, opening⟩, ⟨.identifier 'z', inner⟩, ⟨.closing, closing⟩] next
      (.unary .conj (.var 'z' inner) column) := .conj (.ofTerm (.ofFactor derives_name_z))

theorem parse_conj_mul (mode : Mode) : parse mode "conj(z)*z".toList =
    .ok (.binary .mul (.unary .conj (.var 'z' 6) 1) (.var 'z' 9) 8) := by
  have hcut : cut (cells "conj(z)*z".toList) = [(.token .conj, 1), (.token .opening, 5),
      (.token (.identifier 'z'), 6), (.token .closing, 7), (.token .star, 8),
      (.token (.identifier 'z'), 9)] := by
    decide +kernel
  have ht : tokenize mode "conj(z)*z".toList = .ok ([⟨.conj, 1⟩, ⟨.opening, 5⟩,
      ⟨.identifier 'z', 6⟩, ⟨.closing, 7⟩] ++ ⟨.star, 8⟩ :: [⟨.identifier 'z', 9⟩]) :=
    tokenize_of_cut hcut rfl mode
  exact parse_eq_ok_iff.2
    ⟨_, ht, .ofTerm (.product rfl (.inl rfl) (.ofFactor derives_conj_z) derives_name_z)⟩

theorem parse_mul_conj (mode : Mode) : parse mode "z*conj(z)".toList =
    .ok (.binary .mul (.var 'z' 1) (.unary .conj (.var 'z' 8) 3) 2) := by
  have hcut : cut (cells "z*conj(z)".toList) = [(.token (.identifier 'z'), 1), (.token .star, 2),
      (.token .conj, 3), (.token .opening, 7), (.token (.identifier 'z'), 8),
      (.token .closing, 9)] := by
    decide +kernel
  have ht : tokenize mode "z*conj(z)".toList = .ok ([⟨.identifier 'z', 1⟩] ++ ⟨.star, 2⟩ ::
      [⟨.conj, 3⟩, ⟨.opening, 7⟩, ⟨.identifier 'z', 8⟩, ⟨.closing, 9⟩]) :=
    tokenize_of_cut hcut rfl mode
  exact parse_eq_ok_iff.2
    ⟨_, ht, .ofTerm (.product rfl (.inl rfl) (.ofFactor derives_name_z) derives_conj_z)⟩

/-- What the two texts give with any resolver that has a value for the variable. -/
theorem valueOf_conj_mul {σ : Type} {resolver : Resolver σ} {state : σ} {z : Complex}
    (hanswer : (resolver 'z' state).1 = .ok z) (mode : Mode) :
    valueOf mode "conj(z)*z".toList resolver state = .ok (z.conj * z) ∧
      valueOf mode "z*conj(z)".toList resolver state = .ok (z * z.conj) := by
  unfold valueOf
  rw [parse_conj_mul, parse_mul_conj]
  dsimp only
  rw [(evaluate_conj_mul hanswer 6 1 9 8).1, (evaluate_conj_mul hanswer 1 8 3 2).2]
  exact ⟨rfl, rfl⟩

namespace Complex

open Binary64

/-- Numbers below `1e150` are far from those with an infinite square. -/
theorem atMostTwoPow_of_abs_value_lt {x : Binary64} (hx : x.isFinite = true)
    (h : |x.value| < 10 ^ 150) : x.AtMostTwoPow 500 := by
  have hthousand : (10 : ℝ) ^ 3 ≤ 2 ^ 10 := by norm_num
  refine atMostTwoPow_of_abs_value_le hx (le_of_lt (lt_of_lt_of_le h ?_))
  calc (10 : ℝ) ^ 150 = (10 ^ 3) ^ 50 := pow_mul 10 3 50
    _ ≤ (2 ^ 10) ^ 50 := pow_le_pow_left₀ (by norm_num) hthousand 50
    _ = 2 ^ 500 := (pow_mul 2 10 50).symm

/-- **A number times its conjugate.**  For finite parts below `1e150` both texts have a value, with
the rounded square of the magnitude as its real part, which is not below zero.  The imaginary part
is the error of one rounding of the product of the two parts, with its sign turned round where the
conjugate comes second: it is zero exactly if the rounded product is no further than half the
smallest double from the exact one, and never more than `2 ^ -53` of it. -/
theorem conj_mul_self {z : Complex} (hz : z.isFinite = true) (hre : |z.re.value| < 10 ^ 150)
    (him : |z.im.value| < 10 ^ 150) {σ : Type} {resolver : Resolver σ} {state : σ}
    (hanswer : (resolver 'z' state).1 = .ok z) (mode : Mode) :
    ∃ w w', valueOf mode "conj(z)*z".toList resolver state = .ok w ∧
      valueOf mode "z*conj(z)".toList resolver state = .ok w' ∧
      IsNorm z (productError z.re z.im) w ∧ IsNorm z (-productError z.re z.im) w' := by
  obtain ⟨hfr, hfi⟩ := isFinite_iff.1 hz
  obtain ⟨hleft, hright⟩ := valueOf_conj_mul hanswer mode
  have hr := atMostTwoPow_of_abs_value_lt hfr hre
  have hi := atMostTwoPow_of_abs_value_lt hfi him
  have hconj : IsNorm z.conj (productError z.re (-z.im)) (z * z.conj) := by
    have hfi' : (-z.im).isFinite = true := (isFinite_neg z.im).trans hfi
    have hi' : (-z.im).AtMostTwoPow 500 := by
      refine atMostTwoPow_of_abs_value_lt hfi' ?_
      rwa [value_neg, abs_neg]
    have h := isNorm_conj_mul (z := z.conj) (by decide) (isFinite_iff.2 ⟨hfr, hfi'⟩) hr hi'
    rwa [conj_conj] at h
  exact ⟨_, _, hleft, hright, isNorm_conj_mul (by decide) hz hr hi, hconj.of_conj⟩

/-- The number `0.1+0.1i`. -/
def tenths : Complex :=
  let tenth := (Decimal.mk 1 (-1)).toBinary64 false
  ⟨tenth, tenth⟩

theorem abs_value_tenth_lt : |tenths.re.value| < 10 ^ 150 ∧ |tenths.im.value| < 10 ^ 150 := by
  have hone := cast_unitsPerOne_pos
  have hplace : (tenths.re.place.getD 0).natAbs ≤ unitsPerOne := by decide +kernel
  have hle : |tenths.re.value| ≤ 1 := by
    rw [value, abs_div, Nat.abs_cast, ← Int.cast_abs, Int.abs_eq_natAbs, Int.cast_natCast,
      div_le_one hone]
    exact_mod_cast hplace
  have hlt : |tenths.re.value| < 10 ^ 150 :=
    lt_of_le_of_lt hle (one_lt_pow₀ (by norm_num) (by decide))
  exact ⟨hlt, hlt⟩

/-- The square of `0.1` is rounded, and for `0.1+0.1i` the error is too large to be rounded to zero.
All the same the imaginary part is tiny. -/
theorem conj_mul_self_tenths :
    let table : Resolver Unit := .ofTable [('z', tenths)]
    ∃ w w', valueOf .strict "conj(z)*z".toList table () = .ok w ∧
      valueOf .strict "z*conj(z)".toList table () = .ok w' ∧
      IsNorm tenths (productError tenths.re tenths.im) w ∧
      IsNorm tenths (-productError tenths.re tenths.im) w' :=
  conj_mul_self (by decide +kernel) abs_value_tenth_lt.1 abs_value_tenth_lt.2 rfl .strict

/-- The product of `0.1+0.1i` and its conjugate is not real. -/
theorem conj_mul_tenths_not_real : tenths.isFinite = true ∧ |tenths.re.value| < 10 ^ 150 ∧
    |tenths.im.value| < 10 ^ 150 ∧
    ∃ w, valueOf .strict "conj(z)*z".toList (.ofTable [('z', tenths)]) () = .ok w ∧
      w.im.isZero = false := by
  refine ⟨by decide +kernel, abs_value_tenth_lt.1, abs_value_tenth_lt.2, _,
    (valueOf_conj_mul rfl .strict).1, ?_⟩
  decide +kernel

end Complex

end Argand
