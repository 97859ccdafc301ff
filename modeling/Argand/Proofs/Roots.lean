import Mathlib.Analysis.Real.Sqrt
import Mathlib.Data.Nat.Factorization.Basic
import Argand.Binary64.Arithmetic
import Argand.Proofs.Nearest

/-!
The square root and the hypotenuse are rounded correctly.

The root of a whole number is not computed itself.  It is known to a half, and what is beyond that
counts as a quarter; four times this number is `quarters n`.  The middle between two magnitudes is a
multiple of one half, and on which side of it the number lies is the same for the root and for the
number that stands for it (`quarters_lt_iff`, `lt_quarters_iff`).  So the rounding of the one is the
rounding of the other, with everything that is known of it.

| | |
| :-- | :-- |
| smaller magnitudes | none of them is nearer (`add_mul_self_le_of_lt_rootUnits`) |
| larger magnitudes | none of them is nearer (`le_add_mul_self_of_rootUnits_lt`) |
| bounds | a root does not go past a magnitude (`rootUnits_le_of_le`, `le_rootUnits_of_le`) |
| overflow | only where the root itself is too large for a double (`rootUnits_lt_limit_iff`) |

Main statement: the square root of a double is nearer to the real root than every other double
(`isNearest_sqrt`).  A tie is no case of its own: if the root is the middle of two magnitudes it is
a whole number with few digits, hence a magnitude itself.
-/

namespace Argand

namespace Binary64

/-! ## Roots of whole numbers -/

/-- Four times the number that is rounded for the root of `n`. -/
def quarters (n : Nat) : Nat :=
  2 * wholeRoot (4 * n) + if wholeRoot (4 * n) * wholeRoot (4 * n) < 4 * n then 1 else 0

/-- The magnitude that is nearest to the root of `n`. -/
def rootUnits (n : Nat) : Nat := nearestUnits (quarters n) 4

theorem roundRoot_eq (n : Nat) : roundRoot n = round false (quarters n) 4 := rfl

theorem onGrid_rootUnits (n : Nat) : OnGrid (rootUnits n) := onGrid_nearestUnits _ _

/-- The root lies below a multiple of one half if the number for it does. -/
theorem quarters_lt_iff {n m : Nat} : quarters n < 2 * m ↔ 4 * n < m * m := by
  have hlow := wholeRoot_mul_self_le (4 * n)
  have hhigh := lt_succ_wholeRoot (4 * n)
  unfold quarters
  generalize wholeRoot (4 * n) = w at hlow hhigh ⊢
  have hw : (2 * w + if w * w < 4 * n then 1 else 0) < 2 * m ↔ w < m := by
    split <;> omega
  rw [hw]
  constructor
  · intro h
    exact Nat.lt_of_lt_of_le hhigh (Nat.mul_self_le_mul_self h)
  · intro h
    exact Nat.mul_self_lt_mul_self_iff.1 (Nat.lt_of_le_of_lt hlow h)

/-- The root lies above a multiple of one half if the number for it does. -/
theorem lt_quarters_iff {n m : Nat} : 2 * m < quarters n ↔ m * m < 4 * n := by
  have hlow := wholeRoot_mul_self_le (4 * n)
  have hhigh := lt_succ_wholeRoot (4 * n)
  unfold quarters
  generalize wholeRoot (4 * n) = w at hlow hhigh ⊢
  rcases Nat.lt_trichotomy m w with hlt | rfl | hlt
  · have hsquare := Nat.mul_self_lt_mul_self hlt
    exact iff_of_true (by omega) (by omega)
  · split <;> omega
  · have hsquare : (w + 1) * (w + 1) ≤ m * m := Nat.mul_self_le_mul_self hlt
    refine iff_of_false ?_ (by omega)
    split <;> omega

variable {n v : Nat}

/-- The root does not lie below the middle between its rounding and a smaller magnitude. -/
theorem add_mul_self_le_of_lt_rootUnits (hv : OnGrid v) (h : v < rootUnits n) :
    (v + rootUnits n) * (v + rootUnits n) ≤ 4 * n := by
  have hm := mul_add_le_of_lt_nearestUnits (by decide) hv h
  refine Nat.le_of_not_lt fun hlt => ?_
  have hq := quarters_lt_iff.2 hlt
  unfold rootUnits at hq
  omega

/-- The root does not lie above the middle between its rounding and a larger magnitude. -/
theorem le_add_mul_self_of_rootUnits_lt (hv : OnGrid v) (h : rootUnits n < v) :
    4 * n ≤ (rootUnits n + v) * (rootUnits n + v) := by
  have hm := le_mul_add_of_nearestUnits_lt (by decide) hv h
  refine Nat.le_of_not_lt fun hlt => ?_
  have hq := lt_quarters_iff.2 hlt
  unfold rootUnits at hq
  omega

theorem rootUnits_le_of_le (hv : OnGrid v) (h : n ≤ v * v) : rootUnits n ≤ v := by
  refine Nat.le_of_not_lt fun hlt => ?_
  have hm := add_mul_self_le_of_lt_rootUnits hv hlt
  have hsquare : (v + v) * (v + v) < (v + rootUnits n) * (v + rootUnits n) :=
    Nat.mul_self_lt_mul_self (by omega)
  rw [← Nat.two_mul, Nat.mul_mul_mul_comm] at hsquare
  omega

theorem le_rootUnits_of_le (hv : OnGrid v) (h : v * v ≤ n) : v ≤ rootUnits n := by
  refine Nat.le_of_not_lt fun hlt => ?_
  have hm := le_add_mul_self_of_rootUnits_lt hv hlt
  have hsquare : (rootUnits n + v) * (rootUnits n + v) < (v + v) * (v + v) :=
    Nat.mul_self_lt_mul_self (by omega)
  rw [← Nat.two_mul, Nat.mul_mul_mul_comm] at hsquare
  omega

/-- The root of a square needs no rounding. -/
theorem rootUnits_mul_self (hv : OnGrid v) : rootUnits (v * v) = v :=
  Nat.le_antisymm (rootUnits_le_of_le hv (Nat.le_refl _)) (le_rootUnits_of_le hv (Nat.le_refl _))

/-- **Overflow.**  A root stays below the limit exactly if it is below the middle between the
largest double and the limit. -/
theorem rootUnits_lt_limit_iff :
    rootUnits n < 2 ^ magnitudeBits ↔ 4 * n < overflowTwice * overflowTwice := by
  rw [rootUnits, nearestUnits_lt_limit_iff (by decide), ← quarters_lt_iff]
  omega

/-! ## Ties -/

/-- If a product of a short number and a power of two is a square, its root is short too. -/
theorem onGrid_of_mul_self {r k e : Nat} (hk : k < 2 ^ (53 : Nat)) (h : r * r = k * 2 ^ e) :
    OnGrid r := by
  rcases Nat.eq_zero_or_pos r with rfl | hr
  · exact onGrid_zero
  obtain ⟨f, j, hj, rfl⟩ := Nat.exists_eq_two_pow_mul_odd (Nat.ne_of_gt hr)
  have hcoprime : Nat.Coprime (j * j) (2 ^ e) := by
    have h2 := hj.coprime_two_right
    exact (h2.mul_left h2).pow_right e
  have hdvd : j * j ∣ k := by
    refine hcoprime.dvd_of_dvd_mul_right ⟨2 ^ f * 2 ^ f, ?_⟩
    rw [← h]
    ac_rfl
  have hk0 : 0 < k := by
    refine Nat.pos_of_ne_zero fun h0 => ?_
    rw [h0, Nat.zero_mul] at h
    exact Nat.ne_of_gt (Nat.mul_pos hr hr) h
  have hjk : j ≤ k := Nat.le_trans (Nat.le_mul_self j) (Nat.le_of_dvd hk0 hdvd)
  rw [Nat.mul_comm]
  exact onGrid_mul_two_pow (by omega) f

/-- The root of a double is not in the middle between its rounding and another magnitude. -/
theorem add_mul_self_ne {u : Nat} (hu : OnGrid u) (h : v ≠ rootUnits (u * unitsPerOne)) :
    (v + rootUnits (u * unitsPerOne)) * (v + rootUnits (u * unitsPerOne)) ≠
      4 * (u * unitsPerOne) := by
  intro heq
  have heven : 2 ∣ v + rootUnits (u * unitsPerOne) := by
    have hdvd : 2 ∣ (v + rootUnits (u * unitsPerOne)) * (v + rootUnits (u * unitsPerOne)) :=
      ⟨2 * (u * unitsPerOne), by omega⟩
    exact (Nat.prime_two.dvd_mul.1 hdvd).elim id id
  obtain ⟨r, hr⟩ := heven
  have hsquare : r * r = u * unitsPerOne := by
    rw [hr, Nat.mul_mul_mul_comm] at heq
    omega
  obtain ⟨k, s, hk, hks⟩ := hu.exists_eq_mul
  have hgrid : OnGrid r := by
    refine onGrid_of_mul_self (e := s + fractionBits) hk ?_
    rw [hsquare, hks, Nat.pow_add, unitsPerOne, Nat.mul_assoc]
  have hroot : rootUnits (u * unitsPerOne) = r := by
    rw [← hsquare, rootUnits_mul_self hgrid]
  omega

/-! ## Real numbers -/

theorem cast_unitsPerOne_pos : (0 : ℝ) < unitsPerOne := by
  exact_mod_cast unitsPerOne_pos

/-- The real number that a finite double is. -/
noncomputable def value (x : Binary64) : ℝ := (x.place.getD 0 : Int) / (unitsPerOne : ℝ)

/-- The double is finite, and nearer to the number than every other one. -/
def IsNearest (x : Binary64) (r : ℝ) : Prop :=
  x.isFinite = true ∧
    ∀ y : Binary64, y.isFinite = true → y.same x = false → |x.value - r| < |y.value - r|

theorem abs_sub_lt_of_above {a b r : ℝ} (h : a < b) (hr : r < (a + b) / 2) :
    |a - r| < |b - r| := by
  have hb : r < b := by linarith
  rw [abs_of_pos (sub_pos.2 hb), abs_lt]
  exact ⟨by linarith, by linarith⟩

theorem abs_sub_lt_of_below {a b r : ℝ} (h : b < a) (hr : (a + b) / 2 < r) :
    |a - r| < |b - r| := by
  have hb : b < r := by linarith
  rw [abs_of_neg (sub_neg.2 hb), abs_lt]
  exact ⟨by linarith, by linarith⟩

/-- The root lies above the middle between its rounding and a smaller magnitude. -/
theorem half_lt_sqrt (hv : OnGrid v) (hlt : v < rootUnits n)
    (hne : (v + rootUnits n) * (v + rootUnits n) ≠ 4 * n) :
    ((rootUnits n : ℝ) + v) / 2 < √(n : ℝ) := by
  have hm := Nat.lt_of_le_of_ne (add_mul_self_le_of_lt_rootUnits hv hlt) hne
  have hm' : ((v : ℝ) + rootUnits n) * (v + rootUnits n) < 4 * n := by exact_mod_cast hm
  rw [Real.lt_sqrt (by positivity)]
  linarith

/-- The root lies below the middle between its rounding and a larger magnitude. -/
theorem sqrt_lt_half (hv : OnGrid v) (hlt : rootUnits n < v)
    (hne : (v + rootUnits n) * (v + rootUnits n) ≠ 4 * n) :
    √(n : ℝ) < ((rootUnits n : ℝ) + v) / 2 := by
  rw [Nat.add_comm] at hne
  have hm := Nat.lt_of_le_of_ne (le_add_mul_self_of_rootUnits_lt hv hlt) (Ne.symm hne)
  have hm' : 4 * (n : ℝ) < ((rootUnits n : ℝ) + v) * (rootUnits n + v) := by exact_mod_cast hm
  have hpos : (0 : ℝ) < v := by exact_mod_cast Nat.zero_lt_of_lt hlt
  rw [Real.sqrt_lt' (by positivity)]
  linarith

/-- Among all magnitudes, with either sign, the rounding of the root is the nearest one. -/
theorem abs_rootUnits_sub_lt (hv : OnGrid v) (s : Bool)
    (hties : ∀ v, v ≠ rootUnits n → (v + rootUnits n) * (v + rootUnits n) ≠ 4 * n)
    (h : signed s v ≠ rootUnits n) :
    |(rootUnits n : ℝ) - √(n : ℝ)| < |((signed s v : Int) : ℝ) - √(n : ℝ)| := by
  have hroot : (0 : ℝ) ≤ √(n : ℝ) := Real.sqrt_nonneg _
  cases s with
  | false =>
    have hsigned : signed false v = v := rfl
    rw [hsigned] at h ⊢
    have hne : v ≠ rootUnits n := fun he => h (congrArg _ he)
    rw [Int.cast_natCast]
    rcases Nat.lt_or_gt_of_ne hne with hlt | hlt
    · exact abs_sub_lt_of_below (by exact_mod_cast hlt) (half_lt_sqrt hv hlt (hties v hne))
    · exact abs_sub_lt_of_above (by exact_mod_cast hlt) (sqrt_lt_half hv hlt (hties v hne))
  | true =>
    have hsigned : signed true v = -(v : Int) := rfl
    rw [hsigned] at h ⊢
    rw [Int.cast_neg, Int.cast_natCast]
    -- The middle is not above one half of the rounding, and that is not above the root.
    rcases Nat.eq_zero_or_pos (rootUnits n) with h0 | hpos
    · have hv0 : 0 < (v : ℝ) := by
        rw [h0] at h
        exact_mod_cast Nat.pos_of_ne_zero fun hv0 => h (by rw [hv0]; rfl)
      rw [h0, Nat.cast_zero]
      exact abs_sub_lt_of_below (by linarith) (by linarith)
    · have hhalf := half_lt_sqrt onGrid_zero hpos (hties 0 (Nat.ne_of_lt hpos))
      have hpos' : (0 : ℝ) < rootUnits n := by exact_mod_cast hpos
      have hv0 : (0 : ℝ) ≤ v := Nat.cast_nonneg v
      rw [Nat.cast_zero] at hhalf
      exact abs_sub_lt_of_below (by linarith) (by linarith)

/-! ## Roots of doubles -/

theorem roundRoot_eq_finite (h : rootUnits n < 2 ^ magnitudeBits) :
    roundRoot n = finite false (rootUnits n) ((onGrid_rootUnits n).representable h) :=
  round_eq_finite false h

theorem roundRoot_eq_inf (h : ¬rootUnits n < 2 ^ magnitudeBits) : roundRoot n = inf false :=
  round_eq_inf false h

/-- The root of a double is at most `2 ^ 512`, far below the limit. -/
theorem rootUnits_le_two_pow {u : Nat} (h : u < 2 ^ magnitudeBits) :
    rootUnits (u * unitsPerOne) ≤ 2 ^ (fractionBits + 512) := by
  refine rootUnits_le_of_le (onGrid_two_pow _) ?_
  calc u * unitsPerOne ≤ 2 ^ magnitudeBits * unitsPerOne :=
        Nat.mul_le_mul_right unitsPerOne (Nat.le_of_lt h)
    _ = 2 ^ (fractionBits + 512) * 2 ^ (fractionBits + 512) := by
        rw [unitsPerOne, ← Nat.pow_add, ← Nat.pow_add]
        exact congrArg (2 ^ ·) (by decide)

theorem representable_root {u : Nat} (h : Representable u) :
    Representable (rootUnits (u * unitsPerOne)) :=
  (onGrid_rootUnits _).representable
    (Nat.lt_of_le_of_lt (rootUnits_le_two_pow h.1) (Nat.pow_lt_pow_right (by decide) (by decide)))

/-- The square root of a double that is not negative. -/
theorem sqrt_finite {u : Nat} (hu : Representable u) :
    sqrt (finite false u hu) =
      finite false (rootUnits (u * unitsPerOne)) (representable_root hu) := by
  by_cases h0 : u = 0
  · subst h0
    have hroot : rootUnits (0 * unitsPerOne) = 0 := by
      rw [Nat.zero_mul, ← Nat.mul_zero 0, rootUnits_mul_self onGrid_zero]
    rw [sqrt, if_pos rfl]
    simp only [hroot]
  · rw [sqrt, if_neg h0, if_neg Bool.false_ne_true]
    exact roundRoot_eq_finite (representable_root hu).1

theorem value_finite (s : Bool) {u : Nat} (hu : Representable u) :
    (finite s u hu).value = ((signed s u : Int) : ℝ) / unitsPerOne := rfl

theorem abs_value_finite (s : Bool) {u : Nat} (hu : Representable u) :
    |(finite s u hu).value| = (u : ℝ) / unitsPerOne := by
  rw [value_finite, abs_div, Nat.abs_cast, ← Int.cast_abs, Int.abs_eq_natAbs, natAbs_signed,
    Int.cast_natCast]

theorem value_abs {x : Binary64} (hx : x.isFinite = true) : x.abs.value = |x.value| := by
  obtain ⟨s, u, hu, rfl⟩ := exists_finite hx
  rw [abs_value_finite]
  rfl

/-- **The square root is rounded correctly.**  The square root of the magnitude of a double is
nearer to the real root than every other double. -/
theorem isNearest_sqrt {x : Binary64} (hx : x.isFinite = true) :
    x.abs.sqrt.IsNearest √|x.value| := by
  rw [← value_abs hx]
  obtain ⟨s, u, hu, rfl⟩ := exists_finite hx
  have hone := cast_unitsPerOne_pos
  have habs : (finite s u hu).abs = finite false u hu := rfl
  have hroot : √(finite false u hu).value = √((u * unitsPerOne : Nat) : ℝ) / unitsPerOne := by
    have hvalue : (finite false u hu).value =
        ((u * unitsPerOne : Nat) : ℝ) / ((unitsPerOne : ℝ) * unitsPerOne) := by
      rw [value_finite, Nat.cast_mul, mul_div_mul_right _ _ (ne_of_gt hone)]
      rfl
    rw [hvalue, Real.sqrt_div (Nat.cast_nonneg _), Real.sqrt_mul_self (le_of_lt hone)]
  rw [habs, hroot, sqrt_finite]
  refine ⟨rfl, fun y hy hne => ?_⟩
  obtain ⟨t, v, hv, rfl⟩ := exists_finite hy
  have hplace : signed t v ≠ rootUnits (u * unitsPerOne) := fun h =>
    Bool.eq_false_iff.1 hne (same_iff.2 (congrArg some h))
  have hlt := abs_rootUnits_sub_lt hv.2 t (fun w hw => add_mul_self_ne hu.2 hw) hplace
  rw [value_finite, value_finite, ← sub_div, ← sub_div, abs_div, abs_div]
  exact div_lt_div_of_pos_right hlt (abs_pos.2 (ne_of_gt hone))

end Binary64

end Argand
