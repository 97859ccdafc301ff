import Argand.Proofs.Questions
import Argand.Proofs.ZeroBlind

/-!
Numbers that are the same give results that are the same.

Two numbers are the same if their parts stand at the same places, so zeros may differ in sign.  No
operator of an expression tells such numbers apart, not even the check for a zero divisor
(`BinaryOperator.apply_same`), so a run of an evaluation goes the same way whichever of them the
variables have: it asks the same questions, ends at the same operator if it fails, and binds the
same numbers on the way (`Expr.eval_same`).

Main statement: over two tables that hold the same numbers under the same names a tree has the same
value or the same error (`Expr.evaluate_same`).
-/

namespace Argand

variable {σ : Type}

/-! ## The same values, results and bindings -/

/-- Both are missing, or they are the same number. -/
inductive SameValue : Option Complex → Option Complex → Prop
  | none : SameValue none none
  | some {z w} : z.same w = true → SameValue (some z) (some w)

/-- Both are the same number, or the same error. -/
inductive SameResult : Except EvaluationError Complex → Except EvaluationError Complex → Prop
  | ok {z w} : z.same w = true → SameResult (.ok z) (.ok w)
  | error {e} : SameResult (.error e) (.error e)

theorem SameResult.bind {result result' : Except EvaluationError Complex}
    {f g : Complex → Except EvaluationError Complex} (h : SameResult result result')
    (hf : ∀ z w, z.same w = true → SameResult (f z) (g w)) :
    SameResult (result.bind f) (result'.bind g) := by
  cases h with
  | ok hz => exact hf _ _ hz
  | error => exact .error

/-- The same names have values, and these are the same numbers. -/
def Environment.Same (environment environment' : Environment) : Prop :=
  ∀ name, SameValue (environment.lookup name) (environment'.lookup name)

theorem Environment.same_nil : Environment.Same [] [] := fun _ => .none

theorem Environment.Same.append_binding {environment environment' : Environment}
    (h : environment.Same environment') (name : Char) {z w : Complex} (hz : z.same w = true) :
    Environment.Same (environment ++ [(name, z)]) (environment' ++ [(name, w)]) := by
  intro other
  have hv := h other
  rw [List.lookup_append, List.lookup_append]
  generalize environment.lookup other = v at hv
  generalize environment'.lookup other = v' at hv
  cases hv with
  | some hv => exact .some hv
  | none =>
    rw [Option.none_or, Option.none_or, List.lookup_cons, List.lookup_cons]
    cases other == name with
    | true => exact .some hz
    | false => exact .none

/-- The answers to a question are the same, and leave the same state. -/
def Resolver.Same (resolver resolver' : Resolver σ) : Prop :=
  ∀ name state, SameResult (resolver name state).1 (resolver' name state).1 ∧
    (resolver name state).2 = (resolver' name state).2

theorem Resolver.ofTable_same {table table' : Environment} (h : table.Same table') :
    (Resolver.ofTable table).Same (.ofTable table') := by
  intro name state
  have hv := h name
  unfold ofTable
  generalize table.lookup name = v at hv
  generalize table'.lookup name = v' at hv
  cases hv with
  | none => exact ⟨.error, rfl⟩
  | some hz => exact ⟨.ok hz, rfl⟩

/-! ## Operators -/

theorem UnaryOperator.apply_same (op : UnaryOperator) {z w : Complex} (h : z.same w = true) :
    (op.apply z).same (op.apply w) = true := by
  cases op with
  | sqrt => exact Complex.same_of_eq (Complex.sqrt_eq h)
  | conj => exact Complex.conj_same h

/-- An operator gives the same number for the same operands, or fails for both. -/
theorem BinaryOperator.apply_same (op : BinaryOperator) {z z' w w' : Complex}
    (hz : z.same z' = true) (hw : w.same w' = true) (column : Nat) :
    SameResult (op.apply z w column) (op.apply z' w' column) := by
  cases op with
  | add => exact .ok (Complex.add_same hz hw)
  | sub => exact .ok (Complex.sub_same hz hw)
  | mul => exact .ok (Complex.mul_same hz hw)
  | div =>
    unfold apply
    dsimp only
    rw [← Complex.isZero_eq hw]
    split
    · exact .error
    · exact .ok (Complex.div_same hz hw)
  | pow => exact .ok (Complex.pow_same hz hw)

/-! ## Evaluation -/

/-- The runs ask the same questions and leave the same behind. -/
structure Evaluation.Same (run run' : Evaluation σ) : Prop where
  result : SameResult run.result run'.result
  environment : run.environment.Same run'.environment
  state : run.state = run'.state
  questions : run.asked.map Prod.fst = run'.asked.map Prod.fst

theorem resolve_same {resolver resolver' : Resolver σ} (hr : resolver.Same resolver') (name : Char)
    {environment environment' : Environment} (he : environment.Same environment') (state : σ) :
    (resolve resolver name environment state).Same
      (resolve resolver' name environment' state) := by
  have hv := he name
  obtain ⟨ha, hs⟩ := hr name state
  unfold resolve
  generalize environment.lookup name = v at hv
  generalize environment'.lookup name = v' at hv
  generalize resolver name state = answer at ha hs
  generalize resolver' name state = answer' at ha hs
  obtain ⟨answer, state⟩ := answer
  obtain ⟨answer', state'⟩ := answer'
  obtain rfl : state = state' := hs
  cases hv with
  | some hz => exact ⟨.ok hz, he, rfl, rfl⟩
  | none =>
    change SameResult answer answer' at ha
    cases ha with
    | ok hz => exact ⟨.ok hz, he.append_binding name hz, rfl, rfl⟩
    | error => exact ⟨.error, he, rfl, rfl⟩

/-- Two runs over the same numbers go the same way. -/
theorem Expr.eval_same {resolver resolver' : Resolver σ} (hr : resolver.Same resolver')
    (tree : Expr) {environment environment' : Environment} (he : environment.Same environment')
    (state : σ) :
    (tree.eval resolver environment state).Same (tree.eval resolver' environment' state) := by
  induction tree generalizing environment environment' state with
  | literal value column => exact ⟨.ok (Complex.same_refl value), he, rfl, rfl⟩
  | var name column => exact resolve_same hr name he state
  | unary op operand column ih =>
    rw [eval_unary, eval_unary]
    have h := ih he state
    exact ⟨h.result.bind fun z w hz => .ok (op.apply_same hz), h.environment, h.state, h.questions⟩
  | binary op left right column ihl ihr =>
    have hl := ihl he state
    have hresult := hl.result
    obtain ⟨error, hfirst, heval⟩ | ⟨z, hfirst, heval⟩ :=
      eval_binary_cases resolver op left right column environment state
    · obtain ⟨error', hfirst', heval'⟩ | ⟨w, hfirst', heval'⟩ :=
        eval_binary_cases resolver' op left right column environment' state
      · rw [heval, heval']
        exact hl
      · rw [hfirst, hfirst'] at hresult
        cases hresult
    · obtain ⟨error', hfirst', heval'⟩ | ⟨w, hfirst', heval'⟩ :=
        eval_binary_cases resolver' op left right column environment' state
      · rw [hfirst, hfirst'] at hresult
        cases hresult
      · rw [hfirst, hfirst'] at hresult
        obtain ⟨hzw⟩ := hresult
        have hr := ihr hl.environment (left.eval resolver environment state).state
        rw [heval, heval']
        rw [hl.state] at hr ⊢
        refine ⟨?_, hr.environment, hr.state, ?_⟩
        · exact hr.result.bind fun w w' hw => op.apply_same hzw hw column
        · simp only [Evaluation.asked_bind, Evaluation.asked_after, List.map_append, hl.questions,
            hr.questions]

/-- **Numbers that are the same give results that are the same.**  Over two tables with the same
names and the same numbers, zeros of either sign being the same, a tree has the same value, or the
same error at the same column. -/
theorem Expr.evaluate_same (tree : Expr) {table table' : List (Char × Complex)}
    (h : Environment.Same table table') :
    SameResult (tree.evaluate (.ofTable table) ()).result
      (tree.evaluate (.ofTable table') ()).result :=
  (tree.eval_same (Resolver.ofTable_same h) Environment.same_nil ()).result

/-- The tree of `√x/y**x`. -/
def rootOverPower : Expr :=
  .binary .div (.unary .sqrt (.var 'x' 2) 1) (.binary .pow (.var 'y' 4) (.var 'x' 7) 5) 3

/-- Minus one has the same root on either side of the branch cut, and the unit the same power with
either zero as its real part. -/
theorem evaluate_same_minusOne :
    let table := [('x', ⟨-.one, .zero⟩), ('y', ⟨.zero, .one⟩)]
    let table' := [('x', ⟨-.one, -.zero⟩), ('y', ⟨-.zero, .one⟩)]
    Environment.Same table table' ∧ table ≠ table' ∧
      SameResult (rootOverPower.evaluate (.ofTable table) ()).result
        (rootOverPower.evaluate (.ofTable table') ()).result := by
  intro table table'
  have hx : (⟨-.one, .zero⟩ : Complex).same ⟨-.one, -.zero⟩ = true := by decide +kernel
  have hy : (⟨.zero, .one⟩ : Complex).same ⟨-.zero, .one⟩ = true := by decide +kernel
  have h : Environment.Same table table' :=
    (Environment.same_nil.append_binding 'x' hx).append_binding 'y' hy
  exact ⟨h, by decide +kernel, rootOverPower.evaluate_same h⟩

end Argand
