import Argand.Binary64.Basic

/-!
Rounding to the nearest double.

Every operation on doubles in this library computes its exact result first, as a fraction of units
or as the square root of a whole number of them, and rounds once, here.  The nearest double wins; of
two equally near ones, the one whose last place is even.  Beyond the largest double and half a step
the result is an infinity.

The spacing of the doubles around a magnitude of `q` units is `2 ^ (log2 q - 52)` units.  The
subtraction stops at zero, which is the spacing of the subnormal doubles, so they need no case of
their own.

The rounding of a quotient is within one half of it, the whole root is the largest number whose
square is not above its argument, and a double is the one nearest to its own value (`round_mul`).
-/

namespace Argand

/-! ## Whole numbers -/

/-- The whole number nearest to `n / d`, the even one of two equally near. -/
def roundHalfEven (n d : Nat) : Nat :=
  let q := n / d
  let twice := 2 * (n % d)
  if twice < d then q
  else if d < twice then q + 1
  else q + q % 2

theorem le_roundHalfEven (n d : Nat) : n / d ≤ roundHalfEven n d := by
  unfold roundHalfEven
  dsimp only
  split
  · omega
  · split <;> omega

theorem roundHalfEven_le (n d : Nat) : roundHalfEven n d ≤ n / d + 1 := by
  unfold roundHalfEven
  dsimp only
  split
  · omega
  · split <;> omega

/-- A whole quotient is its own rounding. -/
theorem roundHalfEven_mul (k : Nat) {d : Nat} (h : 0 < d) : roundHalfEven (k * d) d = k := by
  simp [roundHalfEven, Nat.mul_div_cancel _ h, h]

/-- The rounding lies at most one half above the quotient. -/
theorem two_mul_roundHalfEven_le (n d : Nat) : 2 * (d * roundHalfEven n d) ≤ 2 * n + d := by
  have hn := Nat.div_add_mod n d
  unfold roundHalfEven
  dsimp only
  split
  · omega
  · split
    · rw [Nat.mul_add]; omega
    · rcases Nat.mod_two_eq_zero_or_one (n / d) with h | h <;> rw [h, Nat.mul_add] <;> omega

/-- The rounding lies at most one half below the quotient. -/
theorem le_two_mul_roundHalfEven (n : Nat) {d : Nat} (h : 0 < d) :
    2 * n ≤ 2 * (d * roundHalfEven n d) + d := by
  have hn := Nat.div_add_mod n d
  have hr := Nat.mod_lt n h
  unfold roundHalfEven
  dsimp only
  split
  · omega
  · split
    · rw [Nat.mul_add]; omega
    · rcases Nat.mod_two_eq_zero_or_one (n / d) with h | h <;> rw [h, Nat.mul_add] <;> omega

/-- The descent to the whole square root of `n`: each guess is the mean of the one before it and of
`n` divided by that, and the last one is the first that gets no smaller. -/
def descend (n guess : Nat) : Nat :=
  let next := (guess + n / guess) / 2
  if _h : next < guess then descend n next else guess
termination_by guess

/-- The whole part of the square root.  The first guess is a power of two above it. -/
def wholeRoot (n : Nat) : Nat :=
  descend n (2 ^ (n.log2 / 2 + 1))

theorem descend_mul_self_le (n guess : Nat) : descend n guess * descend n guess ≤ n := by
  fun_induction descend n guess with
  | case1 guess next h ih => exact ih
  | case2 guess next h =>
    rcases Nat.eq_zero_or_pos guess with rfl | hpos
    · exact Nat.zero_le n
    · exact (Nat.le_div_iff_mul_le hpos).1 (by omega)

/-- A product is at most the square of the mean of its factors. -/
theorem four_mul_le_add_mul_self (a b : Nat) : 4 * (a * b) ≤ (a + b) * (a + b) := by
  rcases Nat.le_total a b with h | h
  · obtain ⟨k, rfl⟩ := Nat.exists_eq_add_of_le h
    grind
  · obtain ⟨k, rfl⟩ := Nat.exists_eq_add_of_le h
    grind

theorem lt_succ_descend {n guess : Nat} (h : n < (guess + 1) * (guess + 1)) :
    n < (descend n guess + 1) * (descend n guess + 1) := by
  fun_induction descend n guess with
  | case1 guess next hlt ih =>
    refine ih ?_
    have hn : n < guess * (n / guess + 1) := Nat.lt_mul_div_succ n (Nat.zero_lt_of_lt hlt)
    have hmean := four_mul_le_add_mul_self guess (n / guess + 1)
    have hnext : guess + (n / guess + 1) ≤ 2 * (next + 1) := by omega
    have := Nat.mul_le_mul hnext hnext
    rw [Nat.mul_mul_mul_comm] at this
    omega
  | case2 guess next hlt => exact h

theorem wholeRoot_mul_self_le (n : Nat) : wholeRoot n * wholeRoot n ≤ n :=
  descend_mul_self_le n _

theorem lt_succ_wholeRoot (n : Nat) : n < (wholeRoot n + 1) * (wholeRoot n + 1) := by
  have hpow : 2 ^ (n.log2 + 1) ≤ 2 ^ (n.log2 / 2 + 1) * 2 ^ (n.log2 / 2 + 1) := by
    rw [← Nat.pow_add]
    exact Nat.pow_le_pow_right (by decide) (by omega)
  refine lt_succ_descend (Nat.lt_of_lt_of_le (Nat.lt_log2_self (n := n)) (Nat.le_trans hpow ?_))
  exact Nat.mul_le_mul (Nat.le_succ _) (Nat.le_succ _)

/-! ## Magnitudes -/

namespace Binary64

/-- The spacing of the doubles around a magnitude of `q` units, as a power of two. -/
def spacing (q : Nat) : Nat :=
  q.log2 - 52

/-- The multiple of the spacing that is nearest to `n / d` units. -/
def nearestUnits (n d : Nat) : Nat :=
  let s := spacing (n / d)
  roundHalfEven n (d * 2 ^ s) * 2 ^ s

theorem div_lt_two_pow_spacing (q : Nat) : q / 2 ^ spacing q < 2 ^ (53 : Nat) := by
  rw [Nat.div_lt_iff_lt_mul (Nat.two_pow_pos _), ← Nat.pow_add]
  refine Nat.lt_of_lt_of_le (Nat.lt_log2_self (n := q)) (Nat.pow_le_pow_right (by decide) ?_)
  unfold spacing; omega

theorem two_pow_spacing_dvd {m s : Nat} (h : m ≤ 2 ^ (53 : Nat)) :
    2 ^ ((m * 2 ^ s).log2 - 52) ∣ m * 2 ^ s := by
  rcases Nat.eq_zero_or_pos m with rfl | hm
  · simp
  rcases Nat.lt_or_eq_of_le h with hlt | rfl
  · refine Nat.dvd_trans (Nat.pow_dvd_pow 2 ?_) (Nat.dvd_mul_left _ _)
    have hne : m * 2 ^ s ≠ 0 := Nat.mul_ne_zero (by omega) (Nat.ne_of_gt (Nat.two_pow_pos s))
    have : m * 2 ^ s < 2 ^ (53 + s) := by
      rw [Nat.pow_add]; exact Nat.mul_lt_mul_of_pos_right hlt (Nat.two_pow_pos s)
    have := (Nat.log2_lt hne).2 this
    omega
  · rw [← Nat.pow_add, Nat.log2_two_pow]
    exact Nat.pow_dvd_pow 2 (by omega)

theorem two_pow_dvd_nearestUnits (n d : Nat) :
    2 ^ ((nearestUnits n d).log2 - 52) ∣ nearestUnits n d := by
  refine two_pow_spacing_dvd (Nat.le_trans (roundHalfEven_le _ _) ?_)
  rw [← Nat.div_div_eq_div_mul]
  exact div_lt_two_pow_spacing (n / d)

/-- A representable magnitude is the one nearest to itself. -/
theorem nearestUnits_mul {units d : Nat} (h : Representable units) (hd : 0 < d) :
    nearestUnits (units * d) d = units := by
  obtain ⟨k, hk⟩ := h.2
  unfold nearestUnits spacing
  rw [Nat.mul_div_cancel _ hd]
  generalize hs : 2 ^ (units.log2 - 52) = s at hk
  have hpos : 0 < s := hs ▸ Nat.two_pow_pos _
  subst hk
  dsimp only
  rw [hs, show s * k * d = k * (d * s) by ac_rfl, roundHalfEven_mul k (Nat.mul_pos hd hpos),
    Nat.mul_comm]

/-- A sign with a magnitude that is a multiple of its own spacing: an infinity from the limit of the
finite range on. -/
def ofUnits (negative : Bool) (units : Nat) (h : 2 ^ (units.log2 - 52) ∣ units) : Binary64 :=
  if bounded : units < 2 ^ magnitudeBits then finite negative units ⟨bounded, h⟩ else inf negative

/-! ## Fractions, signed fractions and roots -/

/-- The double nearest to `n / d` units, with the given sign. -/
def round (negative : Bool) (n d : Nat) : Binary64 :=
  ofUnits negative (nearestUnits n d) (two_pow_dvd_nearestUnits n d)

/-- A double is the one nearest to its own value. -/
theorem round_mul (negative : Bool) {units d : Nat} (h : Representable units) (hd : 0 < d) :
    round negative (units * d) d = finite negative units h := by
  simp only [round, ofUnits, nearestUnits_mul h hd, h.1, dif_pos]

/-- The double nearest to the signed fraction `t / d`; an exact zero gets the sign given for it. -/
def roundSigned (zeroNegative : Bool) (t : Int) (d : Nat) : Binary64 :=
  round (if t = 0 then zeroNegative else decide (t < 0)) t.natAbs d

/-- The double nearest to the square root of `n`, in units.  The root is known to a half, and what
is beyond that is replaced by a quarter: no double and no middle between two doubles lies strictly
between two neighbouring halves, so the quarter rounds as the root does. -/
def roundRoot (n : Nat) : Binary64 :=
  let twice := wholeRoot (4 * n)
  round false (2 * twice + if twice * twice < 4 * n then 1 else 0) 4

/-- The double nearest to a whole number. -/
def ofInt (k : Int) : Binary64 :=
  roundSigned false (k * unitsPerOne) 1

def one : Binary64 := ofInt 1

end Binary64

end Argand
