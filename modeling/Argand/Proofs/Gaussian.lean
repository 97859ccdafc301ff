import Mathlib.NumberTheory.Zsqrtd.GaussianInt
import Argand.Proofs.Whole
import Argand.Proofs.Tables
import Argand.Proofs.Congruence
import Argand.Proofs.Squaring

/-!
Arithmetic of Gaussian integers is exact.

A Gaussian integer is in range if its parts are at most `2 ^ 53` in magnitude; its two parts are
then doubles.  A sum or a difference that is in range needs no more than this.  A product does: its
first half is rounded on its own, and only the second half and the sum are rounded together.  The
half is at most the product of the magnitudes of the factors, so a bound on the norms of the factors
keeps it in range, and the product with it (`Complex.IsGaussian.mul`).

For powers the same bound is enough.  At all times of the repeated squaring the base and the result
are exact powers of the number, and with what the counter still asks for they make up the whole
power (`Complex.Squaring.Computes`).  The base is squared only while twice its exponent is still
asked for, so every product on the way is a power that is at most the whole one, and its norm is
within the bound if that of the whole power is.  Zero and the units stay within it whatever the
exponent.

Main statements: `Complex.powInt_of_gaussian`, `Expr.evaluate_exact`.
-/

namespace Argand

namespace Binary64

/-! ## Whole numbers -/

/-- A whole number in range is not changed by rounding. -/
theorem place_roundSigned_whole (zeroNegative : Bool) {k : Int} (hk : k.natAbs ≤ 2 ^ (53 : Nat))
    {d : Nat} (hd : 0 < d) :
    (roundSigned zeroNegative (k * unitsPerOne * d) d).place = some (k * unitsPerOne) := by
  have hu : (0 : Int) < unitsPerOne := Int.natCast_pos.2 unitsPerOne_pos
  have hd' : (0 : Int) < d := Int.natCast_pos.2 hd
  have habs : (k * unitsPerOne * d).natAbs = k.natAbs * unitsPerOne * d := by
    rw [Int.natAbs_mul, Int.natAbs_mul, Int.natAbs_natCast, Int.natAbs_natCast]
  unfold roundSigned
  rw [habs, round_mul _ (representable_whole hk) hd]
  by_cases h0 : k = 0
  · subst h0
    simp only [place, Int.natAbs_zero, Nat.zero_mul, Int.zero_mul, signed_zero]
  · have hne : k * unitsPerOne * d ≠ 0 :=
      Int.mul_ne_zero (Int.mul_ne_zero h0 (Int.ne_of_gt hu)) (Int.ne_of_gt hd')
    have hsign : k * unitsPerOne * d < 0 ↔ k < 0 := by
      rw [Int.mul_assoc]
      simpa only [Int.zero_mul] using Int.mul_lt_mul_right (c := 0) (Int.mul_pos hu hd')
    rw [if_neg hne]
    simp only [place, hsign, signed_natAbs]

/-- The double stands at a whole number in range.  If this is zero, it may be either zero. -/
structure IsWhole (x : Binary64) (k : Int) : Prop where
  place : x.place = some (k * unitsPerOne)
  range : k.natAbs ≤ 2 ^ (53 : Nat)

theorem isWhole_ofInt {k : Int} (h : k.natAbs ≤ 2 ^ (53 : Nat)) : (ofInt k).IsWhole k :=
  ⟨place_ofInt h, h⟩

theorem IsWhole.same {x : Binary64} {k : Int} (h : x.IsWhole k) : x.same (ofInt k) = true :=
  same_iff.2 (h.place.trans (place_ofInt h.range).symm)

theorem isWhole_of_same {x : Binary64} {k : Int} (h : k.natAbs ≤ 2 ^ (53 : Nat))
    (hx : x.same (ofInt k) = true) : x.IsWhole k :=
  ⟨(same_iff.1 hx).trans (place_ofInt h), h⟩

theorem isWhole_zero : zero.IsWhole 0 := by
  refine ⟨?_, Nat.zero_le _⟩
  rw [Int.zero_mul]
  exact place_zeroOf false

section Operations

variable {x y z : Binary64} {a b c : Int}

theorem IsWhole.neg (hx : x.IsWhole a) : (-x).IsWhole (-a) := by
  refine ⟨?_, ?_⟩
  · rw [place_neg, hx.place, Option.map_some, Int.neg_mul]
  · rw [Int.natAbs_neg]
    exact hx.range

theorem IsWhole.add (hx : x.IsWhole a) (hy : y.IsWhole b) (h : (a + b).natAbs ≤ 2 ^ (53 : Nat)) :
    (x + y).IsWhole (a + b) := by
  refine ⟨?_, h⟩
  rw [same_iff.1 (add_same hx.same hy.same), ofInt_eq hx.range, ofInt_eq hy.range,
    finite_add_finite, signed_natAbs, signed_natAbs, ← Int.add_mul]
  have hround := place_roundSigned_whole (decide (a < 0) && decide (b < 0)) h Nat.one_pos
  rwa [Int.natCast_one, Int.mul_one] at hround

theorem IsWhole.mul (hx : x.IsWhole a) (hy : y.IsWhole b) (h : (a * b).natAbs ≤ 2 ^ (53 : Nat)) :
    (x * y).IsWhole (a * b) := by
  have hunits : a.natAbs * unitsPerOne * (b.natAbs * unitsPerOne) =
      (a * b).natAbs * unitsPerOne * unitsPerOne := by
    rw [Int.natAbs_mul]
    ring
  have ha := signed_natAbs a 1
  rw [Nat.mul_one, Int.natCast_one, Int.mul_one] at ha
  refine ⟨?_, h⟩
  rw [same_iff.1 (mul_same hx.same hy.same), ofInt_eq hx.range, ofInt_eq hy.range,
    finite_mul_finite, hunits, round_mul _ (representable_whole h) unitsPerOne_pos]
  refine congrArg some ?_
  rw [Int.natAbs_mul, Nat.mul_assoc, signed_bne, ha, signed_natAbs, Int.mul_assoc]

/-- A fused product and sum is exact if its value is in range, whatever the product is. -/
theorem IsWhole.fma (hx : x.IsWhole a) (hy : y.IsWhole b) (hz : z.IsWhole c)
    (h : (a * b + c).natAbs ≤ 2 ^ (53 : Nat)) : (fma x y z).IsWhole (a * b + c) := by
  have hsum : a * unitsPerOne * (b * unitsPerOne) + c * unitsPerOne * unitsPerOne =
      (a * b + c) * unitsPerOne * unitsPerOne := by ring
  refine ⟨?_, h⟩
  rw [same_iff.1 (fma_same hx.same hy.same hz.same), ofInt_eq hx.range, ofInt_eq hy.range,
    ofInt_eq hz.range, fma_finite, signed_bne, signed_natAbs, signed_natAbs, signed_natAbs, hsum]
  exact place_roundSigned_whole _ h unitsPerOne_pos

end Operations

end Binary64

namespace Complex

open Binary64

/-! ## Gaussian integers -/

def ofGaussian (g : GaussianInt) : Complex := ⟨.ofInt g.re, .ofInt g.im⟩

theorem re_ofGaussian (g : GaussianInt) : (ofGaussian g).re = .ofInt g.re := by rw [ofGaussian]

theorem im_ofGaussian (g : GaussianInt) : (ofGaussian g).im = .ofInt g.im := by rw [ofGaussian]

/-- Both parts are at most the magnitude up to which every whole number is a double. -/
def InRange (g : GaussianInt) : Prop :=
  g.re.natAbs ≤ 2 ^ (53 : Nat) ∧ g.im.natAbs ≤ 2 ^ (53 : Nat)

/-- The number is a Gaussian integer in range, with zeros of either sign. -/
structure IsGaussian (z : Complex) (g : GaussianInt) : Prop where
  re : z.re.IsWhole g.re
  im : z.im.IsWhole g.im

/-! ### Norms -/

theorem norm_eq (g : GaussianInt) : g.norm = g.re * g.re + g.im * g.im := by
  rw [Zsqrtd.norm_def]
  ring

theorem natAbs_le_of_mul_self_le {k : Int} (h : k * k ≤ 2 ^ 106) : k.natAbs ≤ 2 ^ (53 : Nat) := by
  have hk : ((k.natAbs * k.natAbs : Nat) : Int) ≤
      ((2 ^ (53 : Nat) * 2 ^ (53 : Nat) : Nat) : Int) := by
    rw [Int.natAbs_mul_self]
    exact h
  exact Nat.mul_self_le_mul_self_iff.1 (Int.ofNat_le.1 hk)

/-- A Gaussian integer whose norm is small enough is in range. -/
theorem inRange_of_norm_le {g : GaussianInt} (h : g.norm ≤ 2 ^ 106) : InRange g := by
  rw [norm_eq] at h
  have hre := mul_self_nonneg g.re
  have him := mul_self_nonneg g.im
  exact ⟨natAbs_le_of_mul_self_le (by omega), natAbs_le_of_mul_self_le (by omega)⟩

/-- The half of a product that is rounded on its own is in range. -/
theorem natAbs_mul_le {a b p q : Int} (ha : a * a ≤ p) (hb : b * b ≤ q) (h : p * q ≤ 2 ^ 106) :
    (a * b).natAbs ≤ 2 ^ (53 : Nat) := by
  refine natAbs_le_of_mul_self_le ?_
  calc a * b * (a * b) = a * a * (b * b) := by ring
    _ ≤ p * q := mul_le_mul ha hb (mul_self_nonneg b) (le_trans (mul_self_nonneg a) ha)
    _ ≤ 2 ^ 106 := h

theorem re_mul_self_le_norm (g : GaussianInt) : g.re * g.re ≤ g.norm := by
  rw [norm_eq]
  exact le_add_of_nonneg_right (mul_self_nonneg g.im)

theorem im_mul_self_le_norm (g : GaussianInt) : g.im * g.im ≤ g.norm := by
  rw [norm_eq]
  exact le_add_of_nonneg_left (mul_self_nonneg g.re)

/-! ### Operations -/

theorem isGaussian_ofGaussian {g : GaussianInt} (h : InRange g) : (ofGaussian g).IsGaussian g := by
  refine ⟨?_, ?_⟩
  · rw [re_ofGaussian]
    exact isWhole_ofInt h.1
  · rw [im_ofGaussian]
    exact isWhole_ofInt h.2

theorem isGaussian_of_same {z : Complex} {g : GaussianInt} (h : InRange g)
    (hz : z.same (ofGaussian g) = true) : z.IsGaussian g := by
  rw [same_parts, re_ofGaussian, im_ofGaussian] at hz
  exact ⟨isWhole_of_same h.1 hz.1, isWhole_of_same h.2 hz.2⟩

namespace IsGaussian

variable {z w : Complex} {g h : GaussianInt}

theorem same (hz : z.IsGaussian g) : z.same (ofGaussian g) = true := by
  rw [same_parts, re_ofGaussian, im_ofGaussian]
  exact ⟨hz.re.same, hz.im.same⟩

theorem conj (hz : z.IsGaussian g) : z.conj.IsGaussian (star g) := by
  refine ⟨?_, ?_⟩
  · rw [Zsqrtd.re_star]
    exact hz.re
  · rw [Zsqrtd.im_star]
    exact hz.im.neg

theorem add (hz : z.IsGaussian g) (hw : w.IsGaussian h) (hr : InRange (g + h)) :
    (z + w).IsGaussian (g + h) := by
  obtain ⟨hre, him⟩ := hr
  refine ⟨?_, ?_⟩
  · rw [Zsqrtd.re_add] at hre ⊢
    exact hz.re.add hw.re hre
  · rw [Zsqrtd.im_add] at him ⊢
    exact hz.im.add hw.im him

theorem sub (hz : z.IsGaussian g) (hw : w.IsGaussian h) (hr : InRange (g - h)) :
    (z - w).IsGaussian (g - h) := by
  obtain ⟨hre, him⟩ := hr
  refine ⟨?_, ?_⟩
  · rw [Zsqrtd.re_sub, Int.sub_eq_add_neg] at hre ⊢
    exact hz.re.add hw.re.neg hre
  · rw [Zsqrtd.im_sub, Int.sub_eq_add_neg] at him ⊢
    exact hz.im.add hw.im.neg him

/-- A product is exact if the norms of its factors are small enough: neither the half that is
rounded on its own nor the whole leaves the range. -/
theorem mul (hz : z.IsGaussian g) (hw : w.IsGaussian h) (hn : g.norm * h.norm ≤ 2 ^ 106) :
    (z * w).IsGaussian (g * h) := by
  obtain ⟨hre, him⟩ := inRange_of_norm_le ((Zsqrtd.norm_mul g h).trans_le hn)
  have hreHalf := natAbs_mul_le (im_mul_self_le_norm g) (im_mul_self_le_norm h) hn
  have himHalf := natAbs_mul_le (im_mul_self_le_norm g) (re_mul_self_le_norm h) hn
  refine ⟨?_, ?_⟩
  · have hvalue : (g * h).re = g.re * h.re + -(g.im * h.im) := by
      rw [Zsqrtd.re_mul]
      ring
    rw [hvalue] at hre ⊢
    exact hz.re.fma hw.re (hz.im.mul hw.im hreHalf).neg hre
  · rw [Zsqrtd.im_mul] at him ⊢
    exact hz.re.fma hw.im (hz.im.mul hw.re himHalf) him

end IsGaussian

/-! ### Real numbers -/

theorem isGaussian_ofReal {x : Binary64} {k : Int} (h : x.IsWhole k) :
    (ofReal x).IsGaussian (k : GaussianInt) := by
  refine ⟨?_, ?_⟩
  · rw [Zsqrtd.re_intCast]
    exact h
  · rw [Zsqrtd.im_intCast]
    exact isWhole_zero

theorem isGaussian_zero : zero.IsGaussian 0 := by
  rw [zero, ← Int.cast_zero]
  exact isGaussian_ofReal isWhole_zero

theorem isGaussian_one : one.IsGaussian 1 := by
  have hone := isGaussian_ofReal (isWhole_ofInt (k := 1) (by decide))
  rwa [Int.cast_one] at hone

theorem IsGaussian.isZero {z : Complex} {g : GaussianInt} (h : z.IsGaussian g) :
    z.isZero = true ↔ g = 0 := by
  rw [Complex.isZero, Bool.and_eq_true, Binary64.isZero_eq h.re.same, Binary64.isZero_eq h.im.same,
    isZero_ofInt h.re.range, isZero_ofInt h.im.range, decide_eq_true_iff, decide_eq_true_iff,
    Zsqrtd.ext_iff]
  rfl

/-! ### Powers -/

theorem norm_pow (g : GaussianInt) (n : Nat) : (g ^ n).norm = g.norm ^ n :=
  map_pow Zsqrtd.normMonoidHom g n

/-- The bound on the norm of a power holds for the lower powers too. -/
theorem norm_pow_le {g : GaussianInt} {k n : Nat} (hkn : k ≤ n) (h : g.norm ^ n ≤ 2 ^ 106) :
    (g ^ k).norm ≤ 2 ^ 106 := by
  rw [norm_pow]
  rcases (GaussianInt.norm_nonneg g).eq_or_lt with h0 | hpos
  · rw [← h0]
    exact le_trans (pow_le_one₀ (le_refl 0) Int.one_nonneg) (by decide)
  · exact le_trans (pow_le_pow_right₀ hpos hkn) h

/-- A product of two powers that together do not go beyond the power `n`. -/
theorem IsGaussian.mul_pow {z w : Complex} {g : GaussianInt} {k l n : Nat}
    (hz : z.IsGaussian (g ^ k)) (hw : w.IsGaussian (g ^ l)) (hkl : k + l ≤ n)
    (hn : g.norm ^ n ≤ 2 ^ 106) : (z * w).IsGaussian (g ^ (k + l)) := by
  rw [pow_add]
  refine hz.mul hw ?_
  rw [← Zsqrtd.norm_mul, ← pow_add]
  exact norm_pow_le hkl hn

namespace Squaring

/-- The base and the result are exact powers of the number, and what the counter asks for beyond
them is the rest of the power `n`.  The base has not been squared beyond this power. -/
structure Computes (s : Squaring) (g : GaussianInt) (n e m : Nat) : Prop where
  base : s.base.IsGaussian (g ^ e)
  result : s.result.IsGaussian (g ^ m)
  total : m + e * s.counter = n
  bounded : e = 1 ∨ e ≤ n

variable {g : GaussianInt} {n e m : Nat} {s s' : Squaring}

theorem computes_start {z : Complex} (hz : z.IsGaussian g) (n : Nat) :
    (start z n).Computes g n 1 0 := by
  refine ⟨?_, ?_, ?_, .inl rfl⟩
  · rw [pow_one]
    exact hz
  · rw [pow_zero]
    exact isGaussian_one
  · rw [Nat.zero_add, Nat.one_mul]
    rfl

namespace Computes

/-- With the base in it, the result is an exact power too. -/
theorem multiplied (h : s.Computes g n e m) (hn : g.norm ^ n ≤ 2 ^ 106) :
    s.multiplied.IsGaussian (g ^ (m + e * (s.counter % 2))) := by
  rw [Squaring.multiplied]
  rcases Nat.mod_two_eq_zero_or_one s.counter with heven | hodd
  · rw [if_neg (by omega), heven, Nat.mul_zero, Nat.add_zero]
    exact h.result
  · have hle : e ≤ e * s.counter := Nat.le_mul_of_pos_right e (by omega)
    have htotal := h.total
    rw [if_pos hodd, hodd, Nat.mul_one]
    exact h.result.mul_pow h.base (by omega) hn

/-- A round leaves the computed power as it is. -/
theorem round (h : s.Computes g n e m) (hn : g.norm ^ n ≤ 2 ^ 106) (hr : Round s s') :
    ∃ e' m', s'.Computes g n e' m' := by
  have hsplit : m + e * (s.counter % 2) + (e + e) * (s.counter / 2) = n := by
    conv_rhs => rw [← h.total, ← Nat.mod_add_div s.counter 2]
    ring
  cases hr with
  | squared h0 =>
    -- The base is squared only where twice its exponent is still asked for.
    have hle : e + e ≤ (e + e) * (s.counter / 2) :=
      Nat.le_mul_of_pos_right _ (Nat.pos_of_ne_zero h0)
    have hbound : e + e ≤ n := by omega
    exact ⟨e + e, _, h.base.mul_pow h.base hbound hn, h.multiplied hn, hsplit, .inr hbound⟩
  | last _ h0 =>
    rw [h0] at hsplit
    exact ⟨e, _, h.base, h.multiplied hn, hsplit, h.bounded⟩

theorem rounds {j : Nat} (h : s.Computes g n e m) (hn : g.norm ^ n ≤ 2 ^ 106)
    (hr : Rounds j s s') : ∃ e' m', s'.Computes g n e' m' := by
  induction hr generalizing e m with
  | nil s => exact ⟨e, m, h⟩
  | cons hround _ ih =>
    obtain ⟨e', m', h'⟩ := h.round hn hround
    exact ih h'

/-- Where the counter is used up, the result is the power. -/
theorem result_of_counter_eq_zero (h : s.Computes g n e m) (h0 : s.counter = 0) :
    s.result.IsGaussian (g ^ n) := by
  have hm := h.total
  rw [h0, Nat.mul_zero, Nat.add_zero] at hm
  exact hm ▸ h.result

end Computes

end Squaring

section

variable {z : Complex} {g : GaussianInt}

/-- Repeated squaring is exact up to the bound on the norm of the power. -/
theorem powLoop_of_gaussian {n : Nat} (hz : z.IsGaussian g) (hn : g.norm ^ n ≤ 2 ^ 106) :
    (powLoop z one n).IsGaussian (g ^ n) := by
  obtain ⟨last, hrounds, hlast, hpower⟩ := Squaring.exists_last z n
  obtain ⟨e, m, hcomputes⟩ := (Squaring.computes_start hz n).rounds hn hrounds
  rw [hpower]
  exact hcomputes.result_of_counter_eq_zero hlast

/-- The powers of zero and of the units are all within the bound. -/
theorem norm_pow_le_of_norm_le_one (hg : g.norm ≤ 1) (n : Nat) : g.norm ^ n ≤ 2 ^ 106 :=
  le_trans (pow_le_one₀ (GaussianInt.norm_nonneg g) hg) (by decide)

/-- **Powers of Gaussian integers.**  Within the bound, which zero and the units never leave, a
power with a whole exponent is the exact one, and with a negative exponent it is one divided by the
exact power with the opposite exponent.  It takes a round for every binary digit of the exponent.
At all times the base and the result are exact powers from which the power is still to be had; every
round lowers the counter, and the one that uses it up leaves the base as it is. -/
theorem powInt_of_gaussian (hr : InRange g) (hz : z.same (ofGaussian g) = true) {k : Int}
    (hk : g.norm ≤ 1 ∨ g.norm ^ k.natAbs ≤ 2 ^ 106) :
    InRange (g ^ k.natAbs) ∧
      (0 ≤ k → (z.powInt k).same (ofGaussian (g ^ k.natAbs)) = true) ∧
      (k < 0 → (z.powInt k).same (one / ofGaussian (g ^ k.natAbs)) = true) ∧
      (∃ last, Squaring.Rounds k.natAbs.size (.start z k.natAbs) last ∧ last.counter = 0 ∧
        z.powInt k = if k < 0 then one / last.result else last.result) ∧
      ∀ j s, Squaring.Rounds j (.start z k.natAbs) s →
        s.power = powLoop z one k.natAbs ∧ (∃ e m, s.Computes g k.natAbs e m) ∧
          ∀ s', s.Round s' → s'.counter < s.counter ∧ (s'.counter = 0 → s'.base = s.base) := by
  have hbound : g.norm ^ k.natAbs ≤ 2 ^ 106 :=
    hk.elim (fun hunit => norm_pow_le_of_norm_le_one hunit k.natAbs) id
  have hg := isGaussian_of_same hr hz
  have hpower := powLoop_of_gaussian hg hbound
  refine ⟨inRange_of_norm_le ((norm_pow g k.natAbs).trans_le hbound), ?_, ?_, ?_, ?_⟩
  · intro hnonneg
    rw [powInt, if_neg (Int.not_lt.2 hnonneg)]
    exact hpower.same
  · intro hneg
    rw [powInt, if_pos hneg]
    exact div_same (same_refl one) hpower.same
  · obtain ⟨last, hrounds, hlast, hresult⟩ := Squaring.exists_last z k.natAbs
    refine ⟨last, hrounds, hlast, ?_⟩
    rw [powInt, hresult]
  · intro j s hrounds
    have hcomputes := (Squaring.computes_start hg k.natAbs).rounds hbound hrounds
    exact ⟨hrounds.power_eq.symm, hcomputes, fun s' hround => ⟨hround.counter_lt, hround.base_eq⟩⟩

/-- The power `106` of `1 + i` reaches the bound, and the lowest exponent has no opposite in 32
bits. -/
theorem powInt_at_bounds :
    (powInt (ofGaussian ⟨1, 1⟩) 106).same (ofGaussian ⟨0, 2 ^ 53⟩) = true ∧
      (powInt i (-2 ^ 31)).same one = true := by
  have hdiagonal : (⟨1, 1⟩ : GaussianInt) ^ 106 = ⟨0, 2 ^ 53⟩ := by decide +kernel
  have hunit : (⟨0, 1⟩ : GaussianInt) ^ (-2 ^ 31 : Int).natAbs = 1 := by
    have hfour : (⟨0, 1⟩ : GaussianInt) ^ 4 = 1 := by decide
    rw [show (-2 ^ 31 : Int).natAbs = 4 * 2 ^ 29 from rfl, pow_mul, hfour, one_pow]
  have hbase : i.same (ofGaussian ⟨0, 1⟩) = true := by decide +kernel
  have hfirst := powInt_of_gaussian (z := ofGaussian ⟨1, 1⟩) (k := 106) ⟨by decide, by decide⟩
    (same_refl _) (.inr (by decide))
  have hsecond := powInt_of_gaussian (k := -2 ^ 31) ⟨by decide, by decide⟩ hbase (.inl (by decide))
  refine ⟨?_, ?_⟩
  · have hexact := hfirst.2.1 (by decide)
    rwa [show (106 : Int).natAbs = 106 from rfl, hdiagonal] at hexact
  · have hexact := hsecond.2.2.1 (by decide)
    rw [hunit] at hexact
    exact same_trans hexact (by decide +kernel)

end

/-- A power with a whole exponent that is not negative is exact up to the bound on its norm. -/
theorem IsGaussian.pow {z w : Complex} {g : GaussianInt} {n : Nat} (hz : z.IsGaussian g)
    (hw : w.IsGaussian n) (hn : n ≤ 100) (hg : g.norm ^ n ≤ 2 ^ 106) :
    (z.pow w).IsGaussian (g ^ n) := by
  have hrange : (n : Int).natAbs ≤ 2 ^ (53 : Nat) := by
    rw [Int.natAbs_natCast]
    exact Nat.le_trans hn (by decide)
  have hexponent : w.same (ofReal (.ofInt n)) = true := by
    have hreal := (isGaussian_ofReal (isWhole_ofInt hrange)).same
    rw [Int.cast_natCast] at hreal
    exact same_trans hw.same (same_symm hreal)
  rw [pow_of_whole (k := n) hn hexponent]
  by_cases h0 : n = 0
  · rw [if_pos (by omega), h0, pow_zero]
    exact isGaussian_one
  rw [if_neg (by omega)]
  by_cases hzero : z.isZero = true
  · rw [if_pos hzero, hz.isZero.1 hzero, zero_pow h0]
    exact isGaussian_zero
  · rw [if_neg hzero, powInt, if_neg (by omega), Int.natAbs_natCast]
    exact powLoop_of_gaussian hz hg

end Complex

/-! ## Trees -/

namespace Expr

/-- Computed exactly, the tree has this value, and it does not leave the range on the way: no sum
and no difference has a part of more than `2 ^ 53`, the norms of two factors multiply to at most
`2 ^ 106`, and the exponents are whole numbers up to a hundred that keep the norm of the power to
the same bound. -/
inductive AmountsTo (values : Char → GaussianInt) : Expr → GaussianInt → Prop
  | literal {value : Complex} {g : GaussianInt} {column : Nat} : value.IsGaussian g →
      AmountsTo values (.literal value column) g
  | var {name : Char} {column : Nat} : Complex.InRange (values name) →
      AmountsTo values (.var name column) (values name)
  | conj {operand : Expr} {g : GaussianInt} {column : Nat} : AmountsTo values operand g →
      AmountsTo values (.unary .conj operand column) (star g)
  | add {left right : Expr} {g h : GaussianInt} {column : Nat} : AmountsTo values left g →
      AmountsTo values right h → Complex.InRange (g + h) →
      AmountsTo values (.binary .add left right column) (g + h)
  | sub {left right : Expr} {g h : GaussianInt} {column : Nat} : AmountsTo values left g →
      AmountsTo values right h → Complex.InRange (g - h) →
      AmountsTo values (.binary .sub left right column) (g - h)
  | mul {left right : Expr} {g h : GaussianInt} {column : Nat} : AmountsTo values left g →
      AmountsTo values right h → g.norm * h.norm ≤ 2 ^ 106 →
      AmountsTo values (.binary .mul left right column) (g * h)
  | pow {base exponent : Expr} {g : GaussianInt} {n column : Nat} : AmountsTo values base g →
      AmountsTo values exponent n → n ≤ 100 → g.norm ^ n ≤ 2 ^ 106 →
      AmountsTo values (.binary .pow base exponent column) (g ^ n)

theorem value_binary {source : Source} {left right : Expr} {z w : Complex}
    (hz : left.value source = .ok z) (hw : right.value source = .ok w) (op : BinaryOperator)
    (column : Nat) : (binary op left right column).value source = op.apply z w column := by
  simp only [value, hz, hw, Except.bind]

/-- Over a source that has these Gaussian integers, the value of the tree is the exact one. -/
theorem value_of_amountsTo {values : Char → GaussianInt} {tree : Expr} {g : GaussianInt}
    (h : AmountsTo values tree g) {source : Source}
    (hs : ∀ name, ∃ z, source name = .ok z ∧ z.same (.ofGaussian (values name)) = true) :
    ∃ z, tree.value source = .ok z ∧ z.IsGaussian g := by
  induction h with
  | @literal value g column hv => exact ⟨value, rfl, hv⟩
  | @var name column hr =>
    obtain ⟨z, hz, hsame⟩ := hs name
    exact ⟨z, hz, Complex.isGaussian_of_same hr hsame⟩
  | conj _ ih =>
    obtain ⟨z, hz, hg⟩ := ih
    refine ⟨z.conj, ?_, hg.conj⟩
    simp only [value, hz, Except.bind, UnaryOperator.apply]
  | add _ _ hr ihl ihr =>
    obtain ⟨z, hz, hg⟩ := ihl
    obtain ⟨w, hw, hh⟩ := ihr
    exact ⟨z + w, value_binary hz hw .add _, hg.add hh hr⟩
  | sub _ _ hr ihl ihr =>
    obtain ⟨z, hz, hg⟩ := ihl
    obtain ⟨w, hw, hh⟩ := ihr
    exact ⟨z - w, value_binary hz hw .sub _, hg.sub hh hr⟩
  | mul _ _ hn ihl ihr =>
    obtain ⟨z, hz, hg⟩ := ihl
    obtain ⟨w, hw, hh⟩ := ihr
    exact ⟨z * w, value_binary hz hw .mul _, hg.mul hh hn⟩
  | pow _ _ hn hp ihl ihr =>
    obtain ⟨z, hz, hg⟩ := ihl
    obtain ⟨w, hw, hh⟩ := ihr
    exact ⟨z.pow w, value_binary hz hw .pow _, hg.pow hh hn hp⟩

/-- **Integer arithmetic is exact.**  If every answer that an evaluation gets is the Gaussian
integer given for the name, and the tree does not leave the range when it is computed exactly, then
the evaluation ends with the exact value.  The power zero is one, that of zero too. -/
theorem evaluate_exact {σ : Type} {values : Char → GaussianInt} {tree : Expr} {g : GaussianInt}
    (h : AmountsTo values tree g) (resolver : Resolver σ) (state : σ)
    (ha : ∀ question ∈ (tree.evaluate resolver state).asked,
      ∃ z, question.2 = .ok z ∧ z.same (.ofGaussian (values question.1)) = true) :
    ∃ z, (tree.evaluate resolver state).result = .ok z ∧ z.same (.ofGaussian g) = true := by
  have hasks := tree.asks resolver [] state
  have hlookup {name : Char} {value : Complex}
      (hv : (tree.evaluate resolver state).environment.lookup name = some value) :
      (name, .ok value) ∈ (tree.evaluate resolver state).asked := by
    rcases (hasks.lookup_iff tree.nodup_variableNames).1 hv with hv | hv
    · cases hv
    · exact hv
  -- What the environment does not have is not needed, so any good value will do for it.
  let source : Source := fun name =>
    .ok (((tree.evaluate resolver state).environment.lookup name).getD (.ofGaussian (values name)))
  have hextends : source.Extends (tree.evaluate resolver state).environment := by
    intro name value hv
    simp only [source, hv, Option.getD_some]
  have hgood (name : Char) :
      ∃ z, source name = .ok z ∧ z.same (.ofGaussian (values name)) = true := by
    refine ⟨_, rfl, ?_⟩
    cases hl : (tree.evaluate resolver state).environment.lookup name with
    | none => exact Complex.same_refl _
    | some value =>
      obtain ⟨z, hz, hsame⟩ := ha _ (hlookup hl)
      cases hz
      exact hsame
  have hnone (name : Char) (error : EvaluationError) :
      (name, .error error) ∉ (tree.evaluate resolver state).asked := by
    intro hm
    obtain ⟨z, hz, -⟩ := ha _ hm
    cases hz
  obtain ⟨z, hz, hg⟩ := value_of_amountsTo h hgood
  exact ⟨z, (result_eq_value resolver tree [] state hnone hextends).trans hz, hg.same⟩

/-- The tree of `x**2-conj(x)*x`. -/
def squareMinusNorm : Expr :=
  .binary .sub (.binary .pow (.var 'x' 1) (.literal (.ofGaussian 2) 4) 2)
    (.binary .mul (.unary .conj (.var 'x' 11) 6) (.var 'x' 14) 13) 5

/-- With `2 ^ 26` as either part of `x`, the square, the norm and the difference all reach the
bounds. -/
theorem evaluate_squareMinusNorm :
    let values : Char → GaussianInt := fun _ => ⟨2 ^ 26, 2 ^ 26⟩
    let resolver := Resolver.ofTable [('x', .ofGaussian ⟨2 ^ 26, 2 ^ 26⟩)]
    AmountsTo values squareMinusNorm ⟨-2 ^ 53, 2 ^ 53⟩ ∧
      (∀ question ∈ (squareMinusNorm.evaluate resolver ()).asked,
        ∃ z, question.2 = .ok z ∧ z.same (.ofGaussian (values question.1)) = true) ∧
      ∃ z, (squareMinusNorm.evaluate resolver ()).result = .ok z ∧
        z.same (.ofGaussian ⟨-2 ^ 53, 2 ^ 53⟩) = true := by
  intro values resolver
  have hx (column : Nat) : AmountsTo values (.var 'x' column) ⟨2 ^ 26, 2 ^ 26⟩ :=
    .var ⟨by decide, by decide⟩
  have htwo : AmountsTo values (.literal (.ofGaussian 2) 4) (2 : Nat) :=
    .literal (Complex.isGaussian_ofGaussian ⟨by decide, by decide⟩)
  have hvalue : (⟨2 ^ 26, 2 ^ 26⟩ : GaussianInt) ^ 2 - star ⟨2 ^ 26, 2 ^ 26⟩ * ⟨2 ^ 26, 2 ^ 26⟩ =
      ⟨-2 ^ 53, 2 ^ 53⟩ := by
    decide
  have htree : AmountsTo values squareMinusNorm ⟨-2 ^ 53, 2 ^ 53⟩ := by
    rw [← hvalue]
    refine .sub (.pow (hx 1) htwo (by decide) (by decide))
      (.mul (.conj (hx 11)) (hx 14) (by decide)) ?_
    rw [hvalue]
    exact ⟨by decide, by decide⟩
  have hasked : (squareMinusNorm.evaluate resolver ()).asked =
      [('x', .ok (.ofGaussian ⟨2 ^ 26, 2 ^ 26⟩))] := rfl
  have hgood : ∀ question ∈ (squareMinusNorm.evaluate resolver ()).asked,
      ∃ z, question.2 = .ok z ∧ z.same (.ofGaussian (values question.1)) = true := by
    rw [hasked]
    exact List.forall_mem_singleton.2 ⟨_, rfl, Complex.same_refl _⟩
  exact ⟨htree, hgood, evaluate_exact htree resolver () hgood⟩

end Expr

end Argand
