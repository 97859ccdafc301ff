import Mathlib.Data.Nat.Size
import Argand.Complex.Power

/-!
Repeated squaring, round by round.

A power with a whole exponent is computed with a base, a result and a counter, which together are a
`Squaring`.  A `Round` of it halves the counter.  If the counter was odd, the result is multiplied
by the base; if something of the counter is left, the base is squared, and if not, it stays as it
is.  There is no round where the counter is zero.

What is to be computed from here on is the same before and behind a round (`Round.power_eq`), so the
result is the power when the counter is used up.  This takes as many rounds as the counter has
binary digits (`exists_last`).
-/

namespace Argand

namespace Complex

/-- Where the repeated squaring stands. -/
structure Squaring where
  base : Complex
  result : Complex
  counter : Nat

namespace Squaring

/-- The beginning of a power. -/
def start (z : Complex) (n : Nat) : Squaring := ⟨z, one, n⟩

/-- The result, with the base in it if the counter is odd. -/
def multiplied (s : Squaring) : Complex :=
  if s.counter % 2 = 1 then s.result * s.base else s.result

/-- One round.  The counter is halved, and unless this uses it up the base is squared. -/
inductive Round : Squaring → Squaring → Prop
  | squared {s : Squaring} : s.counter / 2 ≠ 0 →
      Round s ⟨s.base * s.base, s.multiplied, s.counter / 2⟩
  | last {s : Squaring} : s.counter ≠ 0 → s.counter / 2 = 0 → Round s ⟨s.base, s.multiplied, 0⟩

/-- So many rounds. -/
inductive Rounds : Nat → Squaring → Squaring → Prop
  | nil (s : Squaring) : Rounds 0 s s
  | cons {n : Nat} {s s' s'' : Squaring} : Round s s' → Rounds n s' s'' → Rounds (n + 1) s s''

/-- What is computed from here on. -/
def power (s : Squaring) : Complex := powLoop s.base s.result s.counter

variable {s s' : Squaring}

theorem power_of_counter_eq_zero (h : s.counter = 0) : s.power = s.result := by
  rw [power, powLoop, dif_pos h]

/-! ## One round -/

namespace Round

theorem counter_eq (h : Round s s') : s'.counter = s.counter / 2 := by
  cases h with
  | squared _ => rfl
  | last _ h0 => exact h0.symm

theorem counter_ne_zero (h : Round s s') : s.counter ≠ 0 := by
  cases h with
  | squared h0 => exact fun hc => h0 (by rw [hc])
  | last hc _ => exact hc

theorem counter_lt (h : Round s s') : s'.counter < s.counter := by
  rw [h.counter_eq]
  exact Nat.div_lt_self (Nat.pos_of_ne_zero h.counter_ne_zero) (by decide)

/-- The round that uses the counter up does not square the base. -/
theorem base_eq (h : Round s s') (h0 : s'.counter = 0) : s'.base = s.base := by
  cases h with
  | squared hc => exact absurd h0 hc
  | last _ _ => rfl

theorem power_eq (h : Round s s') : s.power = s'.power := by
  have hc := h.counter_ne_zero
  cases h with
  | squared h0 =>
    rw [power, powLoop, dif_neg hc]
    exact if_neg h0
  | last _ h0 =>
    rw [power, powLoop, dif_neg hc, power_of_counter_eq_zero rfl]
    exact if_pos h0

end Round

theorem exists_round (h : s.counter ≠ 0) : ∃ s', Round s s' := by
  by_cases h0 : s.counter / 2 = 0
  · exact ⟨_, .last h h0⟩
  · exact ⟨_, .squared h0⟩

/-! ## All rounds -/

theorem Rounds.power_eq {n : Nat} (h : Rounds n s s') : s.power = s'.power := by
  induction h with
  | nil s => rfl
  | cons hr _ ih => rw [hr.power_eq, ih]

theorem size_half {n : Nat} (h : n ≠ 0) : n.size = (n / 2).size + 1 := by
  have hb := Nat.bit_bodd_div2 n
  have hs := Nat.size_bit (b := n.bodd) (n := n.div2) (hb.symm ▸ h)
  rwa [hb, Nat.div2_val] at hs

/-- The counter is used up after as many rounds as it has binary digits. -/
theorem exists_rounds (s : Squaring) : ∃ last, Rounds s.counter.size s last ∧ last.counter = 0 := by
  generalize hn : s.counter = n
  induction n using Nat.strongRecOn generalizing s with
  | _ n ih =>
    by_cases h0 : n = 0
    · subst h0
      exact ⟨s, .nil s, hn⟩
    obtain ⟨s', hr⟩ := exists_round (hn ▸ h0)
    have hlt := hr.counter_lt
    have hhalf := hr.counter_eq
    rw [hn] at hlt hhalf
    obtain ⟨last, hrest, hlast⟩ := ih (n / 2) (hhalf ▸ hlt) s' hhalf
    rw [size_half h0]
    exact ⟨last, .cons hr hrest, hlast⟩

/-- A power is the result of the last round. -/
theorem exists_last (z : Complex) (n : Nat) :
    ∃ last, Rounds n.size (start z n) last ∧ last.counter = 0 ∧ powLoop z one n = last.result := by
  obtain ⟨last, hrounds, hlast⟩ := (start z n).exists_rounds
  exact ⟨last, hrounds, hlast, hrounds.power_eq.trans (power_of_counter_eq_zero hlast)⟩

end Squaring

end Complex

end Argand
