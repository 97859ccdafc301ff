import Argand.Proofs.ZeroBlind

/-!
Arithmetic of doubles with signs turned round.

Rounding does not look at the sign (`round_not`), so an operation whose operands have their signs
turned round gives the same magnitude.

| | |
| :-- | :-- |
| products and quotients | the sign turns round with that of an operand, and nothing else changes |
| sums and fused products | the same, but the sign of an exact zero has a rule of its own |

So the first two are equations, and the others hold up to the sign of a zero.
-/

namespace Argand

namespace Binary64

/-! ## Rounding -/

theorem neg_neg_eq (x : Binary64) : - -x = x := by
  show neg (neg x) = x
  cases x <;> simp [neg]

/-- Rounding does not look at the sign. -/
theorem round_not (negative : Bool) (n d : Nat) : round (!negative) n d = -round negative n d := by
  show _ = neg _
  unfold round ofUnits
  split <;> rfl

theorem place_roundSigned_neg (s t : Bool) (n : Int) {d : Nat} (hd : 0 < d) :
    (roundSigned s (-n) d).place = (-roundSigned t n d).place := by
  by_cases hn : n = 0
  · subst hn
    unfold roundSigned
    rw [place_neg, Int.neg_zero, Int.natAbs_zero, place_round_zero _ hd, place_round_zero _ hd]
    rfl
  · have hd : decide (-n < 0) = !decide (n < 0) := by
      rw [← decide_not, decide_eq_decide]
      omega
    unfold roundSigned
    rw [if_neg hn, if_neg (by omega), Int.natAbs_neg, hd, round_not]

/-- A sum with both signs turned round. -/
theorem neg_add_neg_same (x y : Binary64) : (-x + -y).same (-(x + y)) = true := by
  rw [same_iff]
  cases x with
  | nan => rfl
  | inf s =>
    cases y with
    | nan => rfl
    | inf t => cases s <;> cases t <;> rfl
    | finite t v hv => rfl
  | finite s u hu =>
    cases y with
    | nan => rfl
    | inf t => rfl
    | finite t v hv =>
      show (finite (!s) u hu + finite (!t) v hv).place = _
      rw [finite_add_finite, finite_add_finite, signed_not, signed_not, ← Int.neg_add]
      exact place_roundSigned_neg _ _ _ Nat.one_pos

/-! ## Products and quotients -/

/-- An infinity with the sign of a product whose first factor has its sign turned round. -/
theorem inf_not_bne (s t : Bool) : inf ((!s) != t) = -inf (s != t) :=
  congrArg inf (Bool.not_bne s t)

/-- A product with the sign of its first factor turned round. -/
theorem neg_mul_eq (x y : Binary64) : -x * y = -(x * y) := by
  cases x with
  | nan => rfl
  | inf s =>
    cases y with
    | nan => rfl
    | inf t => exact inf_not_bne s t
    | finite t v hv =>
      show (if v = 0 then nan else inf ((!s) != t)) = neg (if v = 0 then nan else inf (s != t))
      split
      · rfl
      · exact inf_not_bne s t
  | finite s u hu =>
    cases y with
    | nan => rfl
    | inf t =>
      show (if u = 0 then nan else inf ((!s) != t)) = neg (if u = 0 then nan else inf (s != t))
      split
      · rfl
      · exact inf_not_bne s t
    | finite t v hv =>
      show finite (!s) u hu * finite t v hv = _
      rw [finite_mul_finite, finite_mul_finite, Bool.not_bne, round_not]

theorem mul_comm_eq (x y : Binary64) : x * y = y * x := by
  have hinf (s t : Bool) : inf (s != t) = inf (t != s) := by rw [bne_comm]
  cases x with
  | nan => cases y <;> rfl
  | inf s =>
    cases y with
    | nan => rfl
    | inf t => exact hinf s t
    | finite t v hv =>
      show (if v = 0 then nan else inf (s != t)) = (if v = 0 then nan else inf (t != s))
      rw [hinf]
  | finite s u hu =>
    cases y with
    | nan => rfl
    | inf t =>
      show (if u = 0 then nan else inf (s != t)) = (if u = 0 then nan else inf (t != s))
      rw [hinf]
    | finite t v hv => rw [finite_mul_finite, finite_mul_finite, bne_comm, Nat.mul_comm]

theorem mul_neg_eq (x y : Binary64) : x * -y = -(x * y) := by
  rw [mul_comm_eq, neg_mul_eq, mul_comm_eq]

theorem neg_div_eq (x y : Binary64) : -x / y = -(x / y) := by
  cases x with
  | nan => rfl
  | inf s =>
    cases y with
    | nan => rfl
    | inf t => rfl
    | finite t v hv => exact inf_not_bne s t
  | finite s u hu =>
    cases y with
    | nan => rfl
    | inf t =>
      show finite (!s) u hu / inf t = _
      rw [finite_div_inf, finite_div_inf, Bool.not_bne, round_not]
    | finite t v hv =>
      show finite (!s) u hu / finite t v hv = _
      rw [finite_div_finite, finite_div_finite]
      split
      · split
        · rfl
        · exact inf_not_bne s t
      · rw [Bool.not_bne, round_not]

/-! ## Fused products -/

/-- A fused product with the sign of a factor and of the summand turned round. -/
theorem fma_neg_same (x y z : Binary64) : (fma x (-y) (-z)).same (-fma x y z) = true := by
  -- Unless both factors are finite, the product is rounded before the sum.
  have hsum : (x * -y + -z).same (-(x * y + z)) = true := by
    rw [mul_neg_eq]
    exact neg_add_neg_same (x * y) z
  cases x with
  | nan => exact hsum
  | inf s => exact hsum
  | finite s u hu =>
    cases y with
    | nan => exact hsum
    | inf t => exact hsum
    | finite t v hv =>
      cases z with
      | nan => rfl
      | inf r => exact same_iff.2 rfl
      | finite r w hw =>
        have hs : (s != !t) = !(s != t) := by cases s <;> cases t <;> rfl
        rw [same_iff]
        show (fma (finite s u hu) (finite (!t) v hv) (finite (!r) w hw)).place = _
        rw [fma_finite, fma_finite, hs, signed_not, signed_not, Int.neg_mul, ← Int.neg_add]
        exact place_roundSigned_neg _ _ _ unitsPerOne_pos

theorem fma_comm (x y z : Binary64) : fma x y z = fma y x z := by
  have hsum : x * y + z = y * x + z := by rw [mul_comm_eq]
  cases x with
  | nan => cases y <;> exact hsum
  | inf s => cases y <;> exact hsum
  | finite s u hu =>
    cases y with
    | nan => exact hsum
    | inf t => exact hsum
    | finite t v hv =>
      cases z with
      | nan => rfl
      | inf r => rfl
      | finite r w hw => rw [fma_finite, fma_finite, bne_comm, Nat.mul_comm]

theorem isZero_neg (x : Binary64) : (-x).isZero = x.isZero := by
  rw [Bool.eq_iff_iff, isZero_iff, isZero_iff, place_neg, Option.map_eq_some_iff]
  constructor
  · rintro ⟨p, hp, h0⟩
    rw [hp, Int.neg_eq_zero.1 h0]
  · intro h
    exact ⟨0, h, Int.neg_zero⟩

end Binary64

end Argand
