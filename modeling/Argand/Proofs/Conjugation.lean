import Argand.Proofs.Congruence
import Argand.Proofs.Negation
import Argand.Proofs.Tables
import Argand.Proofs.Whole

/-!
Conjugate numbers give conjugate results.

Reflected in the real axis, the numbers of an expression give the reflected result, as long as its
operators are symmetric under that reflection: the four kinds of arithmetic, the conjugate itself,
and powers with a small whole exponent, which are products and possibly a reciprocal.  Roots are
left out, and other powers: on their branch cut the two sides of the real axis are not treated
alike.

Two runs over reflected numbers do not stay equal up to conjugation, since the sign of a zero may
come out either way; they stay the same up to conjugation, zeros of either sign being the same
(`Mirrors`).  That is enough to keep them together: no operator tells such numbers apart, nor does
the check for a zero divisor.

Main statement: over a table of conjugate values, the tree with conjugate literals has the conjugate
value or the same error (`Expr.evaluate_conjugated`).
-/

namespace Argand

/-! ## Complex numbers -/

namespace Complex

variable {z z' w w' : Complex}

theorem conj_add_conj_same (z w : Complex) : (z + w).conj.same (z.conj + w.conj) = true :=
  same_symm (same_parts.2 ⟨Binary64.same_iff.2 rfl, Binary64.neg_add_neg_same z.im w.im⟩)

theorem conj_sub_conj_same (z w : Complex) : (z - w).conj.same (z.conj - w.conj) = true :=
  same_symm (same_parts.2 ⟨Binary64.same_iff.2 rfl, Binary64.neg_add_neg_same z.im (-w.im)⟩)

theorem conj_mul_conj_same (z w : Complex) : (z * w).conj.same (z.conj * w.conj) = true := by
  have hre : (z.conj * w.conj).re = (z * w).re := by
    show Binary64.fma z.re w.re (-(-z.im * -w.im)) = Binary64.fma z.re w.re (-(z.im * w.im))
    rw [Binary64.neg_mul_eq, Binary64.mul_neg_eq, Binary64.neg_neg_eq]
  have him : (z.conj * w.conj).im.same (z * w).conj.im = true := by
    show (Binary64.fma z.re (-w.im) (-z.im * w.re)).same
      (-Binary64.fma z.re w.im (z.im * w.re)) = true
    rw [Binary64.neg_mul_eq]
    exact Binary64.fma_neg_same z.re w.im (z.im * w.re)
  exact same_symm (same_parts.2 ⟨Binary64.same_iff.2 (congrArg Binary64.place hre), him⟩)

/-- A divisor and its conjugate have the same square. -/
theorem conj_div_conj_same (z w : Complex) : (z / w).conj.same (z.conj / w.conj) = true := by
  have hsquare : Binary64.fma w.re w.re (-w.im * -w.im) = Binary64.fma w.re w.re (w.im * w.im) := by
    rw [Binary64.neg_mul_eq, Binary64.mul_neg_eq, Binary64.neg_neg_eq]
  have hre : (z.conj / w.conj).re = (z / w).re := by
    show Binary64.fma z.re w.re (-z.im * -w.im) / Binary64.fma w.re w.re (-w.im * -w.im) =
      Binary64.fma z.re w.re (z.im * w.im) / Binary64.fma w.re w.re (w.im * w.im)
    rw [hsquare, Binary64.neg_mul_eq, Binary64.mul_neg_eq, Binary64.neg_neg_eq]
  have him : (z.conj / w.conj).im.same (z / w).conj.im = true := by
    show (Binary64.fma (-z.im) w.re (-(z.re * -w.im)) /
        Binary64.fma w.re w.re (-w.im * -w.im)).same
      (-(Binary64.fma z.im w.re (-(z.re * w.im)) / Binary64.fma w.re w.re (w.im * w.im))) = true
    rw [hsquare, ← Binary64.neg_div_eq, Binary64.mul_neg_eq, Binary64.fma_comm (-z.im),
      Binary64.fma_comm z.im]
    exact Binary64.div_same (Binary64.fma_neg_same w.re z.im (-(z.re * w.im))) _
  exact same_symm (same_parts.2 ⟨Binary64.same_iff.2 (congrArg Binary64.place hre), him⟩)

theorem conj_ofReal_same (x : Binary64) : (ofReal x).conj.same (ofReal x) = true :=
  same_parts.2 ⟨Binary64.same_iff.2 rfl, Binary64.same_iff.2 (Binary64.place_neg _)⟩

theorem isZero_conj (z : Complex) : z.conj.isZero = z.isZero := by
  show (z.re.isZero && (-z.im).isZero) = (z.re.isZero && z.im.isZero)
  rw [Binary64.isZero_neg]

/-! ## Reflected numbers -/

/-- The second number is the first one reflected in the real axis. -/
def Mirrors (z z' : Complex) : Prop := z.conj.same z' = true

namespace Mirrors

theorem conj_right (z : Complex) : Mirrors z z.conj := same_refl z.conj

theorem of_real (x : Binary64) : Mirrors (ofReal x) (ofReal x) := conj_ofReal_same x

theorem add (hz : Mirrors z z') (hw : Mirrors w w') : Mirrors (z + w) (z' + w') :=
  same_trans (conj_add_conj_same z w) (add_same hz hw)

theorem sub (hz : Mirrors z z') (hw : Mirrors w w') : Mirrors (z - w) (z' - w') :=
  same_trans (conj_sub_conj_same z w) (sub_same hz hw)

theorem mul (hz : Mirrors z z') (hw : Mirrors w w') : Mirrors (z * w) (z' * w') :=
  same_trans (conj_mul_conj_same z w) (mul_same hz hw)

theorem div (hz : Mirrors z z') (hw : Mirrors w w') : Mirrors (z / w) (z' / w') :=
  same_trans (conj_div_conj_same z w) (div_same hz hw)

theorem conj (hz : Mirrors z z') : Mirrors z.conj z'.conj := conj_same hz

/-- A number is zero exactly if its reflection is. -/
theorem isZero_eq (hz : Mirrors z z') : z'.isZero = z.isZero := by
  rw [← Complex.isZero_eq hz, isZero_conj]

theorem powInt (hz : Mirrors z z') (k : Int) : Mirrors (z.powInt k) (z'.powInt k) := by
  have hone : Mirrors one one := of_real .one
  have hpower := powLoop_related (R := Mirrors) mul hz hone k.natAbs
  unfold Complex.powInt
  dsimp only
  split
  · exact hone.div hpower
  · exact hpower

/-- The reflection of a real number is that number, so the exponent is the same whole number. -/
theorem pow (hz : Mirrors z z') (hw : Mirrors w w') (hwhole : w.IsWholeExponent) :
    Mirrors (z.pow w) (z'.pow w') := by
  obtain ⟨k, hk, hwk⟩ := hwhole
  have hwk' : w'.same (ofReal (.ofInt k)) = true :=
    same_trans (same_symm hw) (same_trans (conj_same hwk) (conj_ofReal_same _))
  rw [pow_of_whole hk hwk, pow_of_whole hk hwk', hz.isZero_eq]
  split
  · exact of_real .one
  split
  · exact of_real .zero
  · exact hz.powInt k

end Mirrors

end Complex

/-! ## Reflected results -/

/-- The second result is the reflection of the first one, or the same error. -/
def Reflects (result result' : Except EvaluationError Complex) : Prop :=
  SameResult (result.map Complex.conj) result'

theorem Reflects.ok {z z' : Complex} (h : z.Mirrors z') : Reflects (.ok z) (.ok z') :=
  SameResult.ok h

theorem Reflects.error {e : EvaluationError} : Reflects (.error e) (.error e) := SameResult.error

theorem Reflects.bind {result result' : Except EvaluationError Complex}
    {f g : Complex → Except EvaluationError Complex} (h : Reflects result result')
    (hf : ∀ z z', result = .ok z → z.Mirrors z' → Reflects (f z) (g z')) :
    Reflects (result.bind f) (result'.bind g) := by
  cases result with
  | ok z =>
    obtain ⟨hz⟩ := h
    exact hf z _ rfl hz
  | error e =>
    cases h
    exact .error

/-- The root apart, a unary operator gives the reflection for a reflected operand. -/
theorem UnaryOperator.apply_mirrors {op : UnaryOperator} (hop : op ≠ .sqrt) {z z' : Complex}
    (hz : z.Mirrors z') : (op.apply z).Mirrors (op.apply z') := by
  cases op with
  | sqrt => exact absurd rfl hop
  | conj => exact hz.conj

/-- A binary operator gives the reflection for reflected operands, or fails for both; a power does
if its exponent is a small whole number. -/
theorem BinaryOperator.apply_reflects {op : BinaryOperator} {z z' w w' : Complex}
    (hz : z.Mirrors z') (hw : w.Mirrors w') (hwhole : op = .pow → w.IsWholeExponent)
    (column : Nat) :
    Reflects (op.apply z w column) (op.apply z' w' column) := by
  cases op with
  | add => exact .ok (hz.add hw)
  | sub => exact .ok (hz.sub hw)
  | mul => exact .ok (hz.mul hw)
  | div =>
    simp only [apply, hw.isZero_eq]
    split
    · exact .error
    · exact .ok (hz.div hw)
  | pow => exact .ok (hz.pow hw (hwhole rfl))

/-! ## Trees -/

namespace Expr

/-- The tree with its literals reflected. -/
def conjugated : Expr → Expr
  | literal value column => .literal value.conj column
  | var name column => .var name column
  | unary op operand column => .unary op operand.conjugated column
  | binary op left right column => .binary op left.conjugated right.conjugated column

/-- There is no root in the tree. -/
def RootFree : Expr → Prop
  | literal _ _ => True
  | var _ _ => True
  | unary op operand _ => op ≠ .sqrt ∧ operand.RootFree
  | binary _ left right _ => left.RootFree ∧ right.RootFree

/-- Every exponent in the tree is a small whole number over the table, if it has a value. -/
def WholeExponents (table : Environment) : Expr → Prop
  | literal _ _ => True
  | var _ _ => True
  | unary _ operand _ => operand.WholeExponents table
  | binary op left right _ => left.WholeExponents table ∧ right.WholeExponents table ∧
      (op = .pow → ∀ w, (right.evaluate (.ofTable table) ()).result = .ok w → w.IsWholeExponent)

end Expr

/-- The table with its values reflected. -/
def Environment.conjugated (table : Environment) : Environment :=
  table.map fun binding => (binding.1, binding.2.conj)

theorem Environment.lookup_conjugated (table : Environment) (name : Char) :
    table.conjugated.lookup name = (table.lookup name).map Complex.conj := by
  induction table with
  | nil => rfl
  | cons binding table ih =>
    show List.lookup name ((binding.1, binding.2.conj) :: Environment.conjugated table) = _
    rw [List.lookup_cons, List.lookup_cons, ih]
    cases name == binding.1 <;> rfl

/-- Reflected tables have reflected values under each name, or both have none. -/
theorem Source.ofEnvironment_reflects (table : Environment) (name : Char) :
    Reflects (ofEnvironment table name) (ofEnvironment table.conjugated name) := by
  unfold ofEnvironment Resolver.ofTable
  rw [Environment.lookup_conjugated]
  cases table.lookup name with
  | some value => exact .ok (.conj_right value)
  | none => exact .error

theorem Expr.value_reflects (tree : Expr) {table : Environment} (hr : tree.RootFree)
    (hw : tree.WholeExponents table) :
    Reflects (tree.value (.ofEnvironment table))
      (tree.conjugated.value (.ofEnvironment table.conjugated)) := by
  induction tree with
  | literal value column => exact .ok (.conj_right value)
  | var name column => exact Source.ofEnvironment_reflects table name
  | unary op operand column ih =>
    exact (ih hr.2 hw).bind fun z z' _ hz => .ok (UnaryOperator.apply_mirrors hr.1 hz)
  | binary op left right column ihl ihr =>
    obtain ⟨hwl, hwr, hexponent⟩ := hw
    refine (ihl hr.1 hwl).bind fun z z' _ hz => (ihr hr.2 hwr).bind fun w w' hv hw => ?_
    refine BinaryOperator.apply_reflects hz hw (fun hop => hexponent hop w ?_) column
    rw [evaluate_ofTable, hv]

/-- **Conjugate numbers give conjugate results.**  Let a tree have no roots and only small whole
numbers as exponents.  With its literals and the values of its variables conjugated it has the
conjugate value, zeros of either sign being the same, or the same error at the same column. -/
theorem Expr.evaluate_conjugated (tree : Expr) (table : List (Char × Complex)) (hr : tree.RootFree)
    (hw : tree.WholeExponents table) :
    SameResult ((tree.evaluate (.ofTable table) ()).result.map Complex.conj)
      (tree.conjugated.evaluate (.ofTable (Environment.conjugated table)) ()).result := by
  rw [evaluate_ofTable, evaluate_ofTable]
  exact tree.value_reflects hr hw

/-- The tree of `x**2/conj(y-2i)`. -/
def squareOverConj : Expr :=
  .binary .div (.binary .pow (.var 'x' 1) (.literal (.ofReal (.ofInt 2)) 4) 2)
    (.unary .conj (.binary .sub (.var 'y' 11) (.literal ⟨.zero, .ofInt 2⟩ 13) 12) 6) 5

/-- It does not matter that one of the values is an infinity beside a NaN. -/
theorem evaluate_conjugated_infinite :
    let table := [('x', ⟨.one, .ofInt 3⟩), ('y', ⟨.nan, .inf true⟩)]
    squareOverConj.RootFree ∧ squareOverConj.WholeExponents table ∧
      SameResult ((squareOverConj.evaluate (.ofTable table) ()).result.map Complex.conj)
        (squareOverConj.conjugated.evaluate
          (.ofTable (Environment.conjugated table)) ()).result := by
  intro table
  have hr : squareOverConj.RootFree := by simp [squareOverConj, Expr.RootFree]
  have hw : squareOverConj.WholeExponents table := by
    refine ⟨⟨trivial, trivial, ?_⟩, ⟨trivial, trivial, nofun⟩, nofun⟩
    intro _ w hv
    have he : Complex.ofReal (.ofInt 2) = w := Except.ok.inj hv
    exact ⟨2, by decide, Complex.same_of_eq he.symm⟩
  exact ⟨hr, hw, squareOverConj.evaluate_conjugated table hr hw⟩

end Argand
