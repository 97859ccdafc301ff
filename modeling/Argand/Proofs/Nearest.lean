import Argand.Proofs.SignedZero

/-!
Rounding gives the nearest double.

The magnitudes of the doubles, with no limit at the upper end, are the numbers that are a multiple
of their own spacing (`OnGrid`).  Rounding chooses the nearest of them, and this is said without
distances: the number that is rounded lies on the side of what it is rounded to from the middle
between that and any other magnitude (`mul_add_le_of_lt_nearestUnits`,
`le_mul_add_of_nearestUnits_lt`).

Two things follow.  Rounding does not go past a magnitude (`nearestUnits_le_of_le`,
`le_nearestUnits_of_le`), so in particular not past a power of two.  And a number is rounded to an
infinity exactly from the middle between the largest double and the limit on, a tie being one of the
cases in which the even neighbour wins (`nearestUnits_lt_limit_iff`).
-/

namespace Argand

/-! ## Whole numbers -/

/-- A smaller whole number is at the far side of the middle. -/
theorem mul_add_le_of_lt_roundHalfEven {n d k : Nat} (h : k < roundHalfEven n d) :
    d * (k + roundHalfEven n d) ≤ 2 * n := by
  have hr := two_mul_roundHalfEven_le n d
  have hk : d * k + d ≤ d * roundHalfEven n d := Nat.mul_le_mul_left d h
  rw [Nat.mul_add]
  omega

/-- A larger whole number is at the far side of the middle. -/
theorem le_mul_add_of_roundHalfEven_lt {n d k : Nat} (hd : 0 < d) (h : roundHalfEven n d < k) :
    2 * n ≤ d * (roundHalfEven n d + k) := by
  have hr := le_two_mul_roundHalfEven n hd
  have hk : d * roundHalfEven n d + d ≤ d * k := Nat.mul_le_mul_left d h
  rw [Nat.mul_add]
  omega

/-- In the middle between an odd number and the next one it is the next one that is chosen. -/
theorem lt_roundHalfEven_of_odd {n d k : Nat} (hd : 0 < d) (hk : k % 2 = 1)
    (h : d * (k + (k + 1)) ≤ 2 * n) : k < roundHalfEven n d := by
  have hn := Nat.div_add_mod n d
  refine Nat.lt_of_not_le fun hle => ?_
  have hdiv : n / d ≤ k := Nat.le_trans (le_roundHalfEven n d) hle
  rw [Nat.mul_add, Nat.mul_add, Nat.mul_one] at h
  rcases Nat.lt_or_eq_of_le hdiv with hlt | rfl
  · have hmod := Nat.mod_lt n hd
    have hmul : d * (n / d) + d ≤ d * k := Nat.mul_le_mul_left d hlt
    omega
  · unfold roundHalfEven at hle
    dsimp only at hle
    split at hle
    · omega
    · split at hle <;> omega

namespace Binary64

/-! ## The grid -/

/-- The magnitude is a multiple of its own spacing, as that of a double is. -/
def OnGrid (units : Nat) : Prop := 2 ^ (units.log2 - 52) ∣ units

theorem OnGrid.representable {units : Nat} (h : OnGrid units) (hlt : units < 2 ^ magnitudeBits) :
    Representable units := ⟨hlt, h⟩

theorem onGrid_nearestUnits (n d : Nat) : OnGrid (nearestUnits n d) := two_pow_dvd_nearestUnits n d

theorem onGrid_mul_two_pow {m : Nat} (h : m ≤ 2 ^ (53 : Nat)) (s : Nat) : OnGrid (m * 2 ^ s) :=
  two_pow_spacing_dvd h

theorem onGrid_two_pow (k : Nat) : OnGrid (2 ^ k) := by
  have h := onGrid_mul_two_pow (Nat.one_le_two_pow (n := 53)) k
  rwa [Nat.one_mul] at h

theorem onGrid_zero : OnGrid 0 := Nat.dvd_zero _

/-- A magnitude on the grid has a significand of 53 places. -/
theorem OnGrid.exists_eq_mul {units : Nat} (h : OnGrid units) :
    ∃ m s : Nat, m < 2 ^ (53 : Nat) ∧ units = m * 2 ^ s := by
  obtain ⟨m, hm⟩ := h
  refine ⟨m, units.log2 - 52, ?_, by rw [Nat.mul_comm]; exact hm⟩
  have hlt := div_lt_two_pow_spacing units
  rwa [spacing, Nat.div_eq_of_eq_mul_right (Nat.two_pow_pos _) hm] at hlt

/-- A magnitude that is no multiple of a spacing is smaller than all that have it as theirs. -/
theorem OnGrid.dvd_or_lt {v : Nat} (h : OnGrid v) (s : Nat) :
    2 ^ s ∣ v ∨ s ≠ 0 ∧ v < 2 ^ (52 + s) := by
  by_cases hs : s ≤ v.log2 - 52
  · exact .inl (Nat.dvd_trans (Nat.pow_dvd_pow 2 hs) h)
  · have hv : v < 2 ^ (v.log2 + 1) := Nat.lt_log2_self
    refine .inr ⟨by omega, Nat.lt_of_lt_of_le hv (Nat.pow_le_pow_right (by decide) (by omega))⟩

/-! ## The nearest magnitude -/

/-- Where doubles are spaced by more than one unit, a quotient is no smaller than the smallest
double with its spacing. -/
theorem two_pow_mul_le_of_spacing {n d : Nat} (h : spacing (n / d) ≠ 0) :
    2 ^ (52 + spacing (n / d)) * d ≤ n := by
  have hlog : 52 + spacing (n / d) = (n / d).log2 := by
    unfold spacing at h ⊢
    omega
  have hne : n / d ≠ 0 := fun h0 => by
    rw [h0] at h
    exact h rfl
  rw [hlog]
  exact Nat.le_trans (Nat.mul_le_mul_right d (Nat.log2_self_le hne)) (Nat.div_mul_le_self n d)

/-- Any magnitude is compared with a rounding on the grid of the rounding: it is a point there, or
lies below all that the rounding can be. -/
theorem OnGrid.eq_mul_or_lt {v : Nat} (h : OnGrid v) (n d : Nat) :
    (∃ k, v = k * 2 ^ spacing (n / d)) ∨
      v < 2 ^ (52 + spacing (n / d)) ∧ 2 ^ (52 + spacing (n / d)) * d ≤ n := by
  rcases h.dvd_or_lt (spacing (n / d)) with ⟨k, hk⟩ | ⟨hs, hlt⟩
  · exact .inl ⟨k, by rw [hk, Nat.mul_comm]⟩
  · exact .inr ⟨hlt, two_pow_mul_le_of_spacing hs⟩

/-- What is rounded does not lie below the middle between its rounding and a smaller magnitude. -/
theorem mul_add_le_of_lt_nearestUnits {n d v : Nat} (hd : 0 < d) (hv : OnGrid v)
    (h : v < nearestUnits n d) : d * (v + nearestUnits n d) ≤ 2 * n := by
  unfold nearestUnits at h ⊢
  dsimp only at h ⊢
  have hcases := hv.eq_mul_or_lt n d
  generalize spacing (n / d) = s at h hcases ⊢
  have hs := Nat.two_pow_pos s
  have hgrid (k : Nat) (hk : k < roundHalfEven n (d * 2 ^ s)) :
      d * (k * 2 ^ s + roundHalfEven n (d * 2 ^ s) * 2 ^ s) ≤ 2 * n := by
    rw [← Nat.add_mul, Nat.mul_comm _ (2 ^ s), ← Nat.mul_assoc]
    exact mul_add_le_of_lt_roundHalfEven hk
  rcases hcases with ⟨k, rfl⟩ | ⟨hlt, hle⟩
  · exact hgrid k (Nat.lt_of_mul_lt_mul_right h)
  · -- Between the two lies the smallest double with the spacing, if it is not the rounding itself.
    rw [Nat.pow_add] at hlt hle
    rcases Nat.lt_trichotomy (2 ^ (52 : Nat)) (roundHalfEven n (d * 2 ^ s)) with hr | hr | hr
    · refine Nat.le_trans ?_ (hgrid _ hr)
      exact Nat.mul_le_mul_left d (Nat.add_le_add_right (Nat.le_of_lt hlt) _)
    · rw [← hr, Nat.mul_add]
      have hv := Nat.mul_le_mul_left d (Nat.le_of_lt hlt)
      rw [Nat.mul_comm _ d] at hle
      omega
    · have hq : 2 ^ (52 : Nat) ≤ n / (d * 2 ^ s) := by
        rw [Nat.le_div_iff_mul_le (Nat.mul_pos hd hs), Nat.mul_comm d, ← Nat.mul_assoc]
        exact hle
      exact absurd (Nat.le_trans hq (le_roundHalfEven _ _)) (Nat.not_le_of_lt hr)

/-- What is rounded does not lie above the middle between its rounding and a larger magnitude. -/
theorem le_mul_add_of_nearestUnits_lt {n d v : Nat} (hd : 0 < d) (hv : OnGrid v)
    (h : nearestUnits n d < v) : 2 * n ≤ d * (nearestUnits n d + v) := by
  unfold nearestUnits at h ⊢
  dsimp only at h ⊢
  have hcases := hv.eq_mul_or_lt n d
  generalize spacing (n / d) = s at h hcases ⊢
  have hs := Nat.two_pow_pos s
  rcases hcases with ⟨k, rfl⟩ | ⟨hlt, hle⟩
  · rw [← Nat.add_mul, Nat.mul_comm _ (2 ^ s), ← Nat.mul_assoc]
    exact le_mul_add_of_roundHalfEven_lt (Nat.mul_pos hd hs) (Nat.lt_of_mul_lt_mul_right h)
  · rw [Nat.pow_add] at hlt hle
    have hq : 2 ^ (52 : Nat) ≤ n / (d * 2 ^ s) := by
      rw [Nat.le_div_iff_mul_le (Nat.mul_pos hd hs), Nat.mul_comm d, ← Nat.mul_assoc]
      exact hle
    have hr := Nat.mul_le_mul_right (2 ^ s) (Nat.le_trans hq (le_roundHalfEven _ _))
    omega

/-- Rounding does not go past a magnitude from below. -/
theorem nearestUnits_le_of_le {n d v : Nat} (hd : 0 < d) (hv : OnGrid v) (h : n ≤ v * d) :
    nearestUnits n d ≤ v := by
  refine Nat.le_of_not_lt fun hlt => ?_
  have hm := mul_add_le_of_lt_nearestUnits hd hv hlt
  have hlt' := Nat.mul_lt_mul_of_pos_left hlt hd
  rw [Nat.mul_add] at hm
  rw [Nat.mul_comm] at h
  omega

/-- Rounding does not go past a magnitude from above. -/
theorem le_nearestUnits_of_le {n d v : Nat} (hd : 0 < d) (hv : OnGrid v) (h : v * d ≤ n) :
    v ≤ nearestUnits n d := by
  refine Nat.le_of_not_lt fun hlt => ?_
  have hm := le_mul_add_of_nearestUnits_lt hd hv hlt
  have hlt' := Nat.mul_lt_mul_of_pos_left hlt hd
  rw [Nat.mul_add] at hm
  rw [Nat.mul_comm] at h
  omega

/-- Rounding does not go past a power of two from below. -/
theorem nearestUnits_le_two_pow {n d k : Nat} (hd : 0 < d) (h : n ≤ 2 ^ k * d) :
    nearestUnits n d ≤ 2 ^ k := nearestUnits_le_of_le hd (onGrid_two_pow k) h

/-- Rounding does not go past a power of two from above. -/
theorem two_pow_le_nearestUnits {n d k : Nat} (hd : 0 < d) (h : 2 ^ k * d ≤ n) :
    2 ^ k ≤ nearestUnits n d := le_nearestUnits_of_le hd (onGrid_two_pow k) h

/-- What rounds to zero: at most one half of the smallest double. -/
theorem nearestUnits_eq_zero_iff {n d : Nat} (hd : 0 < d) : nearestUnits n d = 0 ↔ 2 * n ≤ d := by
  have hsmall (hq : n / d = 0) : nearestUnits n d = roundHalfEven n d := by
    have hs : spacing (n / d) = 0 := by rw [hq]; rfl
    simp only [nearestUnits, hs, Nat.pow_zero, Nat.mul_one]
  constructor
  · intro h0
    have hq : n / d = 0 := by
      refine Nat.div_eq_of_lt (Nat.lt_of_not_le fun hle => ?_)
      have hone : 2 ^ (0 : Nat) * d ≤ n := by rwa [Nat.pow_zero, Nat.one_mul]
      have hpos := two_pow_le_nearestUnits hd hone
      rw [h0] at hpos
      exact absurd hpos (by decide)
    rw [hsmall hq] at h0
    have := le_two_mul_roundHalfEven n hd
    rwa [h0, Nat.mul_zero, Nat.mul_zero, Nat.zero_add] at this
  · intro h
    have hlt : n < d := by omega
    have hq : n / d = 0 := Nat.div_eq_of_lt hlt
    rw [hsmall hq, roundHalfEven, hq, Nat.mod_eq_of_lt hlt]
    split
    · rfl
    · rw [if_neg (by omega)]

/-! ## The largest double -/

/-- The spacing of the largest doubles. -/
def largestSpacing : Nat := magnitudeBits - 53

/-- The magnitude of the largest double. -/
def largestUnits : Nat := (2 ^ (53 : Nat) - 1) * 2 ^ largestSpacing

theorem onGrid_largestUnits : OnGrid largestUnits := onGrid_mul_two_pow (by decide) _

theorem two_pow_magnitudeBits : 2 ^ magnitudeBits = 2 ^ (53 : Nat) * 2 ^ largestSpacing := by
  rw [← Nat.pow_add]
  exact congrArg (2 ^ ·) (by decide)

theorem largestUnits_lt : largestUnits < 2 ^ magnitudeBits := by
  rw [two_pow_magnitudeBits]
  exact Nat.mul_lt_mul_of_pos_right (by decide) (Nat.two_pow_pos _)

/-- The middle between the largest double and the limit, twice. -/
def overflowTwice : Nat := largestUnits + 2 ^ magnitudeBits

theorem overflowTwice_eq :
    overflowTwice = 2 ^ largestSpacing * (2 ^ (53 : Nat) - 1 + (2 ^ (53 : Nat) - 1 + 1)) := by
  have hsucc : 2 ^ (53 : Nat) - 1 + 1 = 2 ^ (53 : Nat) := Nat.sub_add_cancel (by decide)
  rw [overflowTwice, largestUnits, two_pow_magnitudeBits, ← Nat.add_mul, Nat.mul_comm, hsucc]

/-- Below the limit, but not below half of it, doubles have the spacing of the largest ones. -/
theorem spacing_eq_largestSpacing {q : Nat} (hle : 2 ^ (magnitudeBits - 1) ≤ q)
    (hlt : q < 2 ^ magnitudeBits) : spacing q = largestSpacing := by
  have hq : q ≠ 0 := Nat.ne_of_gt (Nat.lt_of_lt_of_le (Nat.two_pow_pos _) hle)
  have hlog : q.log2 < magnitudeBits := (Nat.log2_lt hq).2 hlt
  have hlog' : magnitudeBits - 1 ≤ q.log2 := (Nat.le_log2 hq).2 hle
  unfold spacing largestSpacing
  omega

/-- **Overflow.**  What is rounded stays below the limit exactly if it is below the middle between
the largest double and the limit. -/
theorem nearestUnits_lt_limit_iff {n d : Nat} (hd : 0 < d) :
    nearestUnits n d < 2 ^ magnitudeBits ↔ 2 * n < d * overflowTwice := by
  constructor
  · intro hlt
    refine Nat.lt_of_not_le fun hle => ?_
    have hn : n < 2 ^ magnitudeBits * d := Nat.lt_of_not_le fun hn =>
      Nat.not_lt_of_le (le_nearestUnits_of_le hd (onGrid_two_pow _) hn) hlt
    have hhalf : 2 ^ (magnitudeBits - 1) * d ≤ n := by
      have hpow : 2 ^ magnitudeBits = 2 * 2 ^ (magnitudeBits - 1) := by
        rw [← Nat.pow_succ', Nat.succ_eq_add_one, Nat.sub_add_cancel (by decide)]
      rw [overflowTwice, Nat.mul_add, hpow, Nat.mul_comm d (2 * _), Nat.mul_assoc] at hle
      omega
    have hspacing : spacing (n / d) = largestSpacing :=
      spacing_eq_largestSpacing ((Nat.le_div_iff_mul_le hd).2 hhalf)
        ((Nat.div_lt_iff_lt_mul hd).2 hn)
    rw [overflowTwice_eq, ← Nat.mul_assoc] at hle
    have hr : 2 ^ (53 : Nat) - 1 < roundHalfEven n (d * 2 ^ largestSpacing) :=
      lt_roundHalfEven_of_odd (Nat.mul_pos hd (Nat.two_pow_pos _)) (by decide) hle
    have hr' : 2 ^ (53 : Nat) ≤ roundHalfEven n (d * 2 ^ largestSpacing) := hr
    unfold nearestUnits at hlt
    rw [hspacing, two_pow_magnitudeBits] at hlt
    exact Nat.not_lt_of_le hr' (Nat.lt_of_mul_lt_mul_right hlt)
  · intro h
    refine Nat.lt_of_not_le fun hle => ?_
    have hlt := Nat.lt_of_lt_of_le largestUnits_lt hle
    have hm := mul_add_le_of_lt_nearestUnits hd onGrid_largestUnits hlt
    have hadd := Nat.mul_le_mul_left d (Nat.add_le_add_left hle largestUnits)
    rw [overflowTwice] at h
    omega

/-! ## What a rounded number is -/

theorem round_eq_finite (negative : Bool) {n d : Nat} (h : nearestUnits n d < 2 ^ magnitudeBits) :
    round negative n d =
      finite negative (nearestUnits n d) ((onGrid_nearestUnits n d).representable h) := by
  unfold round ofUnits
  exact dif_pos h

theorem round_eq_inf (negative : Bool) {n d : Nat} (h : ¬nearestUnits n d < 2 ^ magnitudeBits) :
    round negative n d = inf negative := by
  unfold round ofUnits
  exact dif_neg h

/-- A rounded number is its magnitude, or the infinity beyond the largest one. -/
theorem round_cases (negative : Bool) (n d : Nat) :
    (∃ h, round negative n d = finite negative (nearestUnits n d) h) ∨
      2 ^ magnitudeBits ≤ nearestUnits n d ∧ round negative n d = inf negative := by
  by_cases h : nearestUnits n d < 2 ^ magnitudeBits
  · exact .inl ⟨_, round_eq_finite negative h⟩
  · exact .inr ⟨Nat.le_of_not_lt h, round_eq_inf negative h⟩

theorem isNaN_round (negative : Bool) (n d : Nat) : (round negative n d).isNaN = false := by
  rcases round_cases negative n d with ⟨h, heq⟩ | ⟨-, heq⟩ <;> rw [heq] <;> rfl

theorem isNegative_round (negative : Bool) (n d : Nat) :
    (round negative n d).isNegative = negative := by
  rcases round_cases negative n d with ⟨h, heq⟩ | ⟨-, heq⟩ <;> rw [heq] <;> rfl

theorem isFinite_round (negative : Bool) (n d : Nat) :
    (round negative n d).isFinite = true ↔ nearestUnits n d < 2 ^ magnitudeBits := by
  rcases round_cases negative n d with ⟨h, heq⟩ | ⟨hle, heq⟩ <;> rw [heq]
  · exact iff_of_true rfl h.1
  · exact iff_of_false Bool.false_ne_true (Nat.not_lt_of_le hle)

theorem isZero_round (negative : Bool) (n : Nat) {d : Nat} (hd : 0 < d) :
    (round negative n d).isZero = true ↔ 2 * n ≤ d := by
  rw [← nearestUnits_eq_zero_iff hd]
  rcases round_cases negative n d with ⟨h, heq⟩ | ⟨hle, heq⟩ <;> rw [heq]
  · exact isZero_finite
  · rw [not_isZero_inf]
    have := Nat.two_pow_pos magnitudeBits
    exact iff_of_false Bool.false_ne_true (by omega)

theorem exists_finite {x : Binary64} (h : x.isFinite = true) : ∃ s u hu, x = finite s u hu := by
  cases x with
  | nan => exact absurd h Bool.false_ne_true
  | inf s => exact absurd h Bool.false_ne_true
  | finite s u hu => exact ⟨s, u, hu, rfl⟩

end Binary64

end Argand
