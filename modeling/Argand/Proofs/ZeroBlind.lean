import Argand.Complex.Power
import Argand.Proofs.SignedZero

/-!
What the sign of a zero can change.

A function of doubles is blind to it if it has one value at both zeros (`ZeroBlind`), and then it
has one value at any two doubles that stand at the same place (`ZeroBlind.eq`).  There are two ways
to be blind.  Magnitudes, squares, the exponential, the cosine and the hypotenuse do not look at the
sign at all.  Sums, products, the fused product and the numerator of a quotient do look, but it only
gets into the sign of a zero, so the place of what they give is blind.

Three functions do tell the zeros apart, and are kept from it:

| | |
| :-- | :-- |
| the divisor of a quotient | it is a sum of squares, which has no sign to take over |
| the sign that a root takes over | it comes from a part to which a zero was added |
| the angle of a point | so does its first argument; the second is a zero only off the real axis |

Main statements: sums, products, quotients, powers and the like give the same complex number for the
same numbers (`Complex.pow_same`).
-/

namespace Argand

namespace Binary64

/-! ## Blindness -/

/-- The function does not tell the two zeros apart. -/
def ZeroBlind {α : Type} (f : Binary64 → α) : Prop := ∀ s t, f (zeroOf s) = f (zeroOf t)

theorem signed_zero (s : Bool) : signed s 0 = 0 := signed_eq_zero.2 rfl

theorem place_zeroOf (s : Bool) : (zeroOf s).place = some 0 := congrArg some (signed_zero s)

/-- Doubles at the same place are equal or two zeros. -/
theorem same_cases {x y : Binary64} (h : x.same y = true) :
    x = y ∨ ∃ s t, x = zeroOf s ∧ y = zeroOf t := by
  cases hx : x.isZero with
  | false => exact .inl (eq_of_same h hx)
  | true =>
    have hp : x.place = some 0 := isZero_iff.1 hx
    obtain ⟨s, rfl⟩ := exists_zeroOf_of_place hp
    obtain ⟨t, rfl⟩ := exists_zeroOf_of_place ((same_iff.1 h).symm.trans hp)
    exact .inr ⟨s, t, rfl, rfl⟩

theorem ZeroBlind.eq {α : Type} {f : Binary64 → α} (hf : ZeroBlind f) {x y : Binary64}
    (h : x.same y = true) : f x = f y := by
  rcases same_cases h with rfl | ⟨s, t, rfl, rfl⟩
  · rfl
  · exact hf s t

/-- An operation gives doubles at the same place for doubles at the same places if its place is
blind in each operand. -/
theorem same_of_zeroBlind {f : Binary64 → Binary64 → Binary64}
    (hl : ∀ y, ZeroBlind fun x => (f x y).place) (hr : ∀ x, ZeroBlind fun y => (f x y).place)
    {x x' y y' : Binary64} (hx : x.same x' = true) (hy : y.same y' = true) :
    (f x y).same (f x' y') = true := by
  refine same_iff.2 ?_
  calc (f x y).place = (f x' y).place := (hl y).eq hx
    _ = (f x' y').place := (hr x').eq hy

/-! ## Rounding -/

theorem round_zero (negative : Bool) {d : Nat} (hd : 0 < d) :
    round negative 0 d = zeroOf negative := by
  have h := round_mul negative representable_zero hd
  rwa [Nat.zero_mul] at h

theorem place_round_zero (negative : Bool) {d : Nat} (hd : 0 < d) :
    (round negative 0 d).place = some 0 := by
  rw [round_zero negative hd, place_zeroOf]

/-- The sign that is given for an exact zero is the sign of a zero. -/
theorem place_roundSigned (s t : Bool) (n : Int) {d : Nat} (hd : 0 < d) :
    (roundSigned s n d).place = (roundSigned t n d).place := by
  unfold roundSigned
  by_cases hn : n = 0
  · subst hn
    rw [Int.natAbs_zero, place_round_zero _ hd, place_round_zero _ hd]
  · rw [if_neg hn, if_neg hn]

/-! ## Arithmetic -/

theorem signed_not (s : Bool) (u : Nat) : signed (!s) u = -signed s u := by
  cases s <;> simp [signed]

theorem place_neg (x : Binary64) : (-x).place = x.place.map Neg.neg := by
  cases x with
  | nan => rfl
  | inf s => exact congrArg some (signed_not s _)
  | finite s u h => exact congrArg some (signed_not s u)

theorem neg_same {x y : Binary64} (h : x.same y = true) : (-x).same (-y) = true := by
  rw [same_iff, place_neg, place_neg, same_iff.1 h]

theorem add_same {x x' y y' : Binary64} (hx : x.same x' = true) (hy : y.same y' = true) :
    (x + y).same (x' + y') = true := by
  refine same_of_zeroBlind (f := (· + ·)) (fun y s t => ?_) (fun x s t => ?_) hx hy
  · exact (place_zeroOf_add s y).trans (place_zeroOf_add t y).symm
  · exact (place_add_zeroOf x s).trans (place_add_zeroOf x t).symm

theorem finite_mul_finite (s t : Bool) {u v : Nat} (hu : Representable u) (hv : Representable v) :
    finite s u hu * finite t v hv = round (s != t) (u * v) unitsPerOne := by
  show mul (finite s u hu) (finite t v hv) = _
  rw [mul]

theorem place_zeroOf_mul (s : Bool) (y : Binary64) :
    (zeroOf s * y).place = if y.isFinite then some 0 else none := by
  cases y with
  | nan => rfl
  | inf t => rfl
  | finite t v h =>
    rw [zeroOf, finite_mul_finite, Nat.zero_mul, place_round_zero _ unitsPerOne_pos]
    rfl

theorem place_mul_zeroOf (x : Binary64) (t : Bool) :
    (x * zeroOf t).place = if x.isFinite then some 0 else none := by
  cases x with
  | nan => rfl
  | inf s => rfl
  | finite s u h =>
    rw [zeroOf, finite_mul_finite, Nat.mul_zero, place_round_zero _ unitsPerOne_pos]
    rfl

theorem mul_same {x x' y y' : Binary64} (hx : x.same x' = true) (hy : y.same y' = true) :
    (x * y).same (x' * y') = true := by
  refine same_of_zeroBlind (f := (· * ·)) (fun y s t => ?_) (fun x s t => ?_) hx hy
  · exact (place_zeroOf_mul s y).trans (place_zeroOf_mul t y).symm
  · exact (place_mul_zeroOf x s).trans (place_mul_zeroOf x t).symm

theorem finite_div_inf (s t : Bool) {u : Nat} (hu : Representable u) :
    finite s u hu / inf t = round (s != t) 0 1 := by
  show div (finite s u hu) (inf t) = _
  rw [div]

theorem finite_div_finite (s t : Bool) {u v : Nat} (hu : Representable u) (hv : Representable v) :
    finite s u hu / finite t v hv =
      if v = 0 then if u = 0 then nan else inf (s != t)
      else round (s != t) (u * unitsPerOne) v := by
  show div (finite s u hu) (finite t v hv) = _
  rw [div]

theorem place_zeroOf_div (s : Bool) (y : Binary64) :
    (zeroOf s / y).place = if y.isNaN || y.isZero then none else some 0 := by
  cases y with
  | nan => rfl
  | inf t =>
    rw [zeroOf, finite_div_inf, place_round_zero _ Nat.one_pos, not_isZero_inf]
    rfl
  | finite t v h =>
    rw [zeroOf, finite_div_finite, if_pos rfl]
    by_cases h0 : v = 0
    · rw [if_pos h0, isZero_finite.2 h0]
      rfl
    · have hz : (finite t v h).isZero = false := Bool.eq_false_iff.2 (mt isZero_finite.1 h0)
      rw [if_neg h0, Nat.zero_mul, place_round_zero _ (Nat.pos_of_ne_zero h0), hz]
      rfl

/-- In a quotient it is the numerator whose place is all that matters. -/
theorem div_same {x x' : Binary64} (h : x.same x' = true) (y : Binary64) :
    (x / y).same (x' / y) = true := by
  have hblind : ZeroBlind fun x => (x / y).place := fun s t =>
    (place_zeroOf_div s y).trans (place_zeroOf_div t y).symm
  exact same_iff.2 (hblind.eq h)

/-! ## The fused product -/

theorem fma_finite (s t r : Bool) {u v w : Nat} (hu : Representable u) (hv : Representable v)
    (hw : Representable w) : fma (finite s u hu) (finite t v hv) (finite r w hw) =
      roundSigned ((s != t) && r) (signed (s != t) (u * v) + signed r w * unitsPerOne)
        unitsPerOne := by
  rw [fma]

theorem zeroBlind_fma_left (y z : Binary64) : ZeroBlind fun x => (fma x y z).place := by
  intro s t
  cases y with
  | nan => rfl
  | inf q => rfl
  | finite q v hv =>
    cases z with
    | nan => rfl
    | inf r => rfl
    | finite r w hw =>
      simp only [zeroOf, fma_finite, Nat.zero_mul, signed_zero]
      exact place_roundSigned _ _ _ unitsPerOne_pos

theorem zeroBlind_fma_middle (x z : Binary64) : ZeroBlind fun y => (fma x y z).place := by
  intro s t
  cases x with
  | nan => rfl
  | inf q => rfl
  | finite q u hu =>
    cases z with
    | nan => rfl
    | inf r => rfl
    | finite r w hw =>
      simp only [zeroOf, fma_finite, Nat.mul_zero, signed_zero]
      exact place_roundSigned _ _ _ unitsPerOne_pos

theorem zeroBlind_fma_right (x y : Binary64) : ZeroBlind fun z => (fma x y z).place := by
  -- Unless both factors are finite, the product is rounded before the sum.
  have hsum : ZeroBlind fun z => (x * y + z).place := fun s t =>
    (place_add_zeroOf _ s).trans (place_add_zeroOf _ t).symm
  intro s t
  cases x with
  | nan => exact hsum s t
  | inf p => exact hsum s t
  | finite p u hu =>
    cases y with
    | nan => exact hsum s t
    | inf q => exact hsum s t
    | finite q v hv =>
      simp only [zeroOf, fma_finite, signed_zero, Int.zero_mul]
      exact place_roundSigned _ _ _ unitsPerOne_pos

theorem fma_same {x x' y y' z z' : Binary64} (hx : x.same x' = true) (hy : y.same y' = true)
    (hz : z.same z' = true) : (fma x y z).same (fma x' y' z') = true := by
  refine same_iff.2 ?_
  calc (fma x y z).place = (fma x' y z).place := (zeroBlind_fma_left y z).eq hx
    _ = (fma x' y' z).place := (zeroBlind_fma_middle x' z).eq hy
    _ = (fma x' y' z').place := (zeroBlind_fma_right x' y').eq hz

/-- A sum of two squares has no sign to take over. -/
theorem fma_self_eq {x x' y y' : Binary64} (hx : x.same x' = true) (hy : y.same y' = true) :
    fma x x (y * y) = fma x' x' (y' * y') := by
  have hsquare : ZeroBlind fun y => y * y := fun s t => by
    simp only [zeroOf, finite_mul_finite, bne_self_eq_false]
  have hfused (z : Binary64) : ZeroBlind fun x => fma x x z := fun s t => by
    cases z with
    | nan => rfl
    | inf r => rfl
    | finite r w hw => simp only [zeroOf, fma_finite, bne_self_eq_false]
  calc fma x x (y * y) = fma x' x' (y * y) := (hfused (y * y)).eq hx
    _ = fma x' x' (y' * y') := congrArg (fma x' x') (hsquare.eq hy)

/-! ## Magnitudes -/

theorem abs_eq {x y : Binary64} (h : x.same y = true) : x.abs = y.abs := by
  have hblind : ZeroBlind abs := fun _ _ => rfl
  exact hblind.eq h

theorem isZero_eq {x y : Binary64} (h : x.same y = true) : x.isZero = y.isZero := by
  rw [Bool.eq_iff_iff, isZero_iff, isZero_iff, same_iff.1 h]

theorem hypot_eq {x x' y y' : Binary64} (hx : x.same x' = true) (hy : y.same y' = true) :
    hypot x y = hypot x' y' := by
  have hleft (y : Binary64) : ZeroBlind fun x => hypot x y := fun s t => by cases y <;> rfl
  have hright (x : Binary64) : ZeroBlind fun y => hypot x y := fun s t => by cases x <;> rfl
  calc hypot x y = hypot x' y := (hleft y).eq hx
    _ = hypot x' y' := (hright x').eq hy

theorem integralExponent?_eq {x y : Binary64} (h : x.same y = true) :
    x.integralExponent? = y.integralExponent? := by
  have hblind : ZeroBlind integralExponent? := fun s t => by
    simp only [zeroOf, integralExponent?, Nat.zero_div, signed_zero]
  exact hblind.eq h

/-! ## Elementary functions -/

theorem exp_eq {x y : Binary64} (h : x.same y = true) : x.exp = y.exp := by
  have hpos : ¬2000 * unitsPerOne ≤ 0 :=
    Nat.not_le.2 (Nat.mul_pos (Nat.succ_pos 1999) unitsPerOne_pos)
  have hblind : ZeroBlind exp := fun s t => by
    simp only [zeroOf, exp, if_neg hpos, Nat.zero_mul, signed_zero]
  exact hblind.eq h

theorem cos_eq {x y : Binary64} (h : x.same y = true) : x.cos = y.cos := by
  have hblind : ZeroBlind cos := fun s t => by simp only [zeroOf, cos]
  exact hblind.eq h

theorem stepsPerUnit_pos : 0 < stepsPerUnit := Nat.two_pow_pos (workingBits - fractionBits)

/-- The sine of a zero is a zero. -/
theorem place_sin_zeroOf (s : Bool) : (sin (zeroOf s)).place = some 0 := by
  have hfraction : sinFraction 0 = 0 := by
    unfold sinFraction
    dsimp only
    rw [Nat.zero_mul, Nat.zero_div]
  have hquadrant : sinQuadrant 0 = 0 := by
    unfold sinQuadrant
    rw [if_pos (Nat.zero_le pi), hfraction]
  simp only [zeroOf, sin, Nat.zero_mul, Nat.zero_div, Nat.zero_mod, sinTurned, if_true, hquadrant,
    ofFixed]
  exact place_round_zero _ stepsPerUnit_pos

theorem sin_same {x y : Binary64} (h : x.same y = true) : x.sin.same y.sin = true := by
  have hblind : ZeroBlind fun x => x.sin.place := fun s t =>
    (place_sin_zeroOf s).trans (place_sin_zeroOf t).symm
  exact same_iff.2 (hblind.eq h)

theorem arctanFraction_zero (high : Nat) : (arctanFraction 0 high).1 = 0 := by
  unfold arctanFraction
  dsimp only
  rw [Nat.zero_mul, Nat.zero_mul]

/-- The angle of a point that is nearer to the imaginary axis than to the real one. -/
theorem finite_atan2_finite (s t : Bool) {v u : Nat} (hv : Representable v) (hu : Representable u)
    (h : u < v) : atan2 (finite s v hv) (finite t u hu) =
      ofFraction s
        (if t then pi * (arctanFraction u v).2 + 2 * (arctanFraction u v).1 * scale
          else pi * (arctanFraction u v).2 - 2 * (arctanFraction u v).1 * scale)
        (2 * (arctanFraction u v).2 * scale) := by
  have hv0 : ¬v = 0 := Nat.ne_of_gt (Nat.lt_of_le_of_lt (Nat.zero_le u) h)
  rw [atan2, if_neg hv0, if_neg (Nat.not_le.2 h)]

/-- Off the real axis the angle does not depend on the sign of a zero. -/
theorem atan2_eq {y x x' : Binary64} (hy : y.isZero = false) (h : x.same x' = true) :
    atan2 y x = atan2 y x' := by
  have hblind : ZeroBlind (atan2 y) := fun s t => by
    cases y with
    | nan => rfl
    | inf r => simp only [zeroOf, atan2]
    | finite r v hv =>
      have hpos : 0 < v := Nat.pos_of_ne_zero fun h0 => by
        rw [isZero_finite.2 h0] at hy
        cases hy
      rw [zeroOf, zeroOf, finite_atan2_finite r s hv _ hpos, finite_atan2_finite r t hv _ hpos,
        arctanFraction_zero, Nat.mul_zero, Nat.zero_mul, Nat.add_zero, Nat.sub_zero, ite_self,
        ite_self]
  exact hblind.eq h

end Binary64

/-! ## Complex numbers -/

namespace Complex

variable {z z' w w' : Complex}

theorem same_parts : z.same w = true ↔ z.re.same w.re = true ∧ z.im.same w.im = true := by
  rw [same, Bool.and_eq_true]

theorem same_refl (z : Complex) : z.same z = true := by
  rw [same_iff]
  exact ⟨rfl, rfl⟩

theorem same_trans {v : Complex} (h : v.same z = true) (h' : z.same w = true) :
    v.same w = true := by
  rw [same_iff] at h h' ⊢
  exact ⟨h.1.trans h'.1, h.2.trans h'.2⟩

theorem same_symm (h : z.same w = true) : w.same z = true := by
  rw [same_iff] at h ⊢
  exact ⟨h.1.symm, h.2.symm⟩

theorem same_of_eq (h : z = w) : z.same w = true := h ▸ same_refl z

theorem isZero_eq (h : z.same w = true) : z.isZero = w.isZero := by
  obtain ⟨hre, him⟩ := same_parts.1 h
  rw [isZero, isZero, Binary64.isZero_eq hre, Binary64.isZero_eq him]

theorem add_same (hz : z.same z' = true) (hw : w.same w' = true) :
    (z + w).same (z' + w') = true := by
  obtain ⟨hzre, hzim⟩ := same_parts.1 hz
  obtain ⟨hwre, hwim⟩ := same_parts.1 hw
  exact same_parts.2 ⟨Binary64.add_same hzre hwre, Binary64.add_same hzim hwim⟩

theorem sub_same (hz : z.same z' = true) (hw : w.same w' = true) :
    (z - w).same (z' - w') = true := by
  obtain ⟨hzre, hzim⟩ := same_parts.1 hz
  obtain ⟨hwre, hwim⟩ := same_parts.1 hw
  exact same_parts.2 ⟨Binary64.add_same hzre (Binary64.neg_same hwre),
    Binary64.add_same hzim (Binary64.neg_same hwim)⟩

theorem mul_same (hz : z.same z' = true) (hw : w.same w' = true) :
    (z * w).same (z' * w') = true := by
  obtain ⟨hzre, hzim⟩ := same_parts.1 hz
  obtain ⟨hwre, hwim⟩ := same_parts.1 hw
  exact same_parts.2
    ⟨Binary64.fma_same hzre hwre (Binary64.neg_same (Binary64.mul_same hzim hwim)),
      Binary64.fma_same hzre hwim (Binary64.mul_same hzim hwre)⟩

/-- The divisor is a square, and equal squares divide alike. -/
theorem div_same (hz : z.same z' = true) (hw : w.same w' = true) :
    (z / w).same (z' / w') = true := by
  obtain ⟨hzre, hzim⟩ := same_parts.1 hz
  obtain ⟨hwre, hwim⟩ := same_parts.1 hw
  have hsquare := Binary64.fma_self_eq hwre hwim
  show (div z w).same (div z' w') = true
  rw [div, div, hsquare]
  exact same_parts.2
    ⟨Binary64.div_same (Binary64.fma_same hzre hwre (Binary64.mul_same hzim hwim)) _,
      Binary64.div_same
        (Binary64.fma_same hzim hwre (Binary64.neg_same (Binary64.mul_same hzre hwim))) _⟩

theorem conj_same (h : z.same w = true) : z.conj.same w.conj = true := by
  obtain ⟨hre, him⟩ := same_parts.1 h
  exact same_parts.2 ⟨hre, Binary64.neg_same him⟩

/-- The root takes no sign from a zero: the one it takes over is that of a part to which a zero was
added. -/
theorem sqrt_eq (h : z.same w = true) : z.sqrt = w.sqrt := by
  obtain ⟨hre, him⟩ := same_parts.1 h
  have hle : Binary64.zero.le z.re = Binary64.zero.le w.re := by
    unfold Binary64.le
    rw [Binary64.same_iff.1 hre]
  have hhypot : Binary64.hypot z.re (w.im + .zero) = Binary64.hypot w.re (w.im + .zero) :=
    Binary64.hypot_eq hre (Binary64.same_iff.2 rfl)
  unfold sqrt
  dsimp only
  rw [isZero_eq h, Binary64.same_iff_add_zero.1 him, Binary64.abs_eq hre, hle, hhypot]

theorem exp_same (h : z.same w = true) : z.exp.same w.exp = true := by
  obtain ⟨hre, him⟩ := same_parts.1 h
  have hrefl (x : Binary64) : x.same x = true := Binary64.same_iff.2 rfl
  unfold exp
  dsimp only
  rw [Binary64.exp_eq hre, Binary64.cos_eq him]
  exact same_parts.2 ⟨hrefl _, Binary64.mul_same (hrefl _) (Binary64.sin_same him)⟩

/-- The logarithm of a number that is not zero: if its real part is a zero, it lies off the real
axis. -/
theorem ln_eq (h : z.same w = true) (hz : z.isZero = false) : z.ln = w.ln := by
  obtain ⟨hre, him⟩ := same_parts.1 h
  have harg : z.arg = w.arg := by
    unfold arg
    rw [Binary64.same_iff_add_zero.1 him]
    rcases Binary64.same_cases hre with he | ⟨s, t, hs, ht⟩
    · rw [he]
    · have hzero : z.re.isZero = true := by
        rw [hs]
        exact Binary64.isZero_iff.2 (Binary64.place_zeroOf s)
      rw [isZero, hzero, Bool.true_and, Binary64.isZero_eq him] at hz
      refine Binary64.atan2_eq ?_ hre
      rw [Binary64.add_zero_eq, if_neg (Bool.eq_false_iff.1 hz), hz]
  unfold ln abs
  rw [harg, Binary64.hypot_eq hre him]

/-- Repeated squaring keeps whatever relation multiplication keeps. -/
theorem powLoop_related {R : Complex → Complex → Prop}
    (hmul : ∀ {z z' w w'}, R z z' → R w w' → R (z * w) (z' * w')) (hz : R z z') (hw : R w w')
    (n : Nat) : R (powLoop z w n) (powLoop z' w' n) := by
  have hfactor {z z' w w'} (hz : R z z') (hw : R w w') (n : Nat) :
      R (if n % 2 = 1 then w * z else w) (if n % 2 = 1 then w' * z' else w') := by
    split
    · exact hmul hw hz
    · exact hw
  induction n using Nat.strongRecOn generalizing z z' w w' with
  | _ n ih =>
    rw [powLoop.eq_def z w n, powLoop.eq_def z' w' n]
    by_cases hn : n = 0
    · rw [dif_pos hn, dif_pos hn]
      exact hw
    · rw [dif_neg hn, dif_neg hn]
      dsimp only
      by_cases hlast : n / 2 = 0
      · rw [if_pos hlast, if_pos hlast]
        exact hfactor hz hw n
      · rw [if_neg hlast, if_neg hlast]
        exact ih (n / 2) (by omega) (hmul hz hz) (hfactor hz hw n)

theorem powLoop_same (hz : z.same z' = true) (hw : w.same w' = true) (n : Nat) :
    (powLoop z w n).same (powLoop z' w' n) = true :=
  powLoop_related (R := fun z w => z.same w = true) mul_same hz hw n

theorem powInt_same (h : z.same w = true) (k : Int) : (z.powInt k).same (w.powInt k) = true := by
  have hpower := powLoop_same h (same_refl one) k.natAbs
  unfold powInt
  dsimp only
  split
  · exact div_same (same_refl one) hpower
  · exact hpower

/-- A power is the same number for the same base and exponent.  A zero base is sent away before its
logarithm is taken. -/
theorem pow_same (hz : z.same z' = true) (hw : w.same w' = true) :
    (z.pow w).same (z'.pow w') = true := by
  obtain ⟨hre, him⟩ := same_parts.1 hw
  have hplace (x : Binary64) : w.re.same x = w'.re.same x := by
    rw [Bool.eq_iff_iff, Binary64.same_iff, Binary64.same_iff, Binary64.same_iff.1 hre]
  unfold pow
  rw [← isZero_eq hw, ← isZero_eq hz, ← Binary64.isZero_eq him, ← hplace half, ← hplace (-half),
    ← Binary64.integralExponent?_eq hre, ← sqrt_eq hz]
  cases hw0 : w.isZero with
  | true => exact same_refl one
  | false =>
    cases hz0 : z.isZero with
    | true => exact same_refl zero
    | false =>
      have hexp : (w * z.ln).exp.same (w' * z'.ln).exp = true := by
        rw [← ln_eq hz hz0]
        exact exp_same (mul_same hw (same_refl _))
      simp only [Bool.false_eq_true, if_false]
      split
      · split
        · exact same_refl z.sqrt
        split
        · exact same_refl (one / z.sqrt)
        cases w.re.integralExponent? with
        | some k => exact powInt_same hz k
        | none => exact hexp
      · exact hexp

end Complex

end Argand
