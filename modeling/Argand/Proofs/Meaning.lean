import Argand.Proofs.Questions

/-!
The value of a tree, without a resolver and without an environment.

`Expr.value` reads the value of every variable from one fixed source, each time it comes to the
variable.  Both directions relate it to an evaluation, which asks for a variable once and keeps the
answer:

* `result_eq_value`: an evaluation in which no question was in vain has the value of its tree over
  every source that agrees with the environment it leaves;
* `eval_eq_value`: where the value over a source is settled, an evaluation whose environment and
  resolver have the values of that source between them comes to it, and asks for nothing that the
  source does not have.

A result is settled when it is no failure to get a variable: a value, or a division by zero.  Only
such a result depends on the variables alone; a variable without a value can get one later.

Main statement: what an evaluation asks, leaves and gives, for every resolver
(`eval_asks_unbound`).
-/

namespace Argand

variable {σ : Type}

/-! ## Settled results -/

/-- The result is a value, or an error that no value for a variable can change. -/
def Settled (result : Except EvaluationError Complex) : Prop :=
  ∀ name reason, result ≠ .error (.unresolved name reason)

theorem Settled.of_bind {result : Except EvaluationError Complex}
    {f : Complex → Except EvaluationError Complex} (h : Settled (result.bind f)) :
    Settled result := by
  rintro name reason rfl
  exact h name reason rfl

/-- The resolver has no errors but failures to get a variable. -/
def Resolver.Documented (resolver : Resolver σ) : Prop :=
  ∀ name state error, (resolver name state).1 = .error error →
    ∃ name' reason, error = .unresolved name' reason

/-! ## The value of a tree -/

/-- Where variables have their values, or the error that there is none. -/
abbrev Source := Char → Except EvaluationError Complex

/-- The source has no errors but failures to get a variable. -/
def Source.Documented (source : Source) : Prop :=
  ∀ name error, source name = .error error → ∃ name' reason, error = .unresolved name' reason

/-- The value of a tree over a source. -/
def Expr.value (source : Source) : Expr → Except EvaluationError Complex
  | literal value _ => .ok value
  | var name _ => source name
  | unary op operand _ => (operand.value source).bind fun z => .ok (op.apply z)
  | binary op left right column =>
    (left.value source).bind fun z => (right.value source).bind fun w => op.apply z w column

/-- The source has the values of the environment. -/
def Source.Extends (source : Source) (environment : Environment) : Prop :=
  ∀ name value, environment.lookup name = some value → source name = .ok value

/-- The values of the source are in the environment, or with the resolver in each of its states. -/
def Supplies (resolver : Resolver σ) (environment : Environment) (source : Source) : Prop :=
  ∀ name value, source name = .ok value →
    environment.lookup name = some value ∨
      environment.lookup name = none ∧ ∀ state, (resolver name state).1 = .ok value

namespace Expr

/-! ## From an evaluation to the value -/

theorem lookup_eval (resolver : Resolver σ) (tree : Expr) (environment : Environment) (state : σ)
    {name : Char} {value : Complex} (h : environment.lookup name = some value) :
    (tree.eval resolver environment state).environment.lookup name = some value :=
  (tree.asks resolver environment state).lookup_of_lookup h

/-- An evaluation without a question in vain has the value of the tree over what it leaves in the
environment. -/
theorem result_eq_value (resolver : Resolver σ) (tree : Expr) (environment : Environment)
    (state : σ) {source : Source}
    (ha : ∀ name error, (name, .error error) ∉ (tree.eval resolver environment state).asked)
    (he : source.Extends (tree.eval resolver environment state).environment) :
    (tree.eval resolver environment state).result = tree.value source := by
  induction tree generalizing environment state with
  | literal value column => rfl
  | var name column =>
    change source.Extends (resolve resolver name environment state).environment at he
    change ∀ name' error, (name', .error error) ∉ (resolve resolver name environment state).asked
      at ha
    show (resolve resolver name environment state).result = source name
    obtain ⟨value, hl, hr⟩ | ⟨hl, ⟨value, -, hr⟩ | ⟨error, -, hr⟩⟩ :=
      resolve_cases resolver name environment state
    · rw [hr] at he ⊢
      exact (he name value hl).symm
    · rw [hr] at he ⊢
      exact (he name value (by simp [List.lookup_append, hl])).symm
    · rw [hr] at ha
      exact absurd List.mem_cons_self (ha name error)
  | unary op operand column ih =>
    rw [eval_unary] at ha he ⊢
    exact congrArg (fun result => result.bind fun z => .ok (op.apply z))
      (ih environment state ha he)
  | binary op left right column ihl ihr =>
    show _ = (left.value source).bind _
    obtain ⟨error, hr, heval⟩ | ⟨z, hr, heval⟩ :=
      eval_binary_cases resolver op left right column environment state
    · rw [heval] at ha he ⊢
      rw [← ihl environment state ha he, hr]
      rfl
    · rw [heval] at ha he ⊢
      simp only [Evaluation.asked_bind, Evaluation.asked_after, List.mem_append, not_or] at ha
      -- What the left operand left in the environment is there after the right one too.
      have hl := ihl environment state (fun name error => (ha name error).1) fun name value h =>
        he name value (lookup_eval _ right _ _ h)
      rw [← hl, hr]
      exact congrArg (fun result => result.bind fun w => op.apply z w column)
        (ihr _ _ (fun name error => (ha name error).2) he)

/-- A settled evaluation has no question in vain, and so it has the value of the tree. -/
theorem result_eq_value_of_settled {resolver : Resolver σ} (hd : resolver.Documented) (tree : Expr)
    (environment : Environment) (state : σ) {source : Source}
    (hs : Settled (tree.eval resolver environment state).result)
    (he : source.Extends (tree.eval resolver environment state).environment) :
    (tree.eval resolver environment state).result = tree.value source := by
  refine result_eq_value resolver tree environment state (fun name error hm => ?_) he
  have hasks := tree.asks resolver environment state
  obtain ⟨state', ha⟩ := hasks.answer_of_mem hm
  obtain ⟨name', reason, rfl⟩ := hd name state' error ha
  exact hs name' reason (hasks.result_of_mem hm)

/-- A tree without variables has its value with every resolver, and none is asked. -/
theorem evaluate_of_closed {tree : Expr} (h : tree.variableNames = []) (resolver : Resolver σ)
    (state : σ) (source : Source) : (tree.evaluate resolver state).result = tree.value source := by
  have hasks := tree.asks resolver [] state
  have hnone : (tree.eval resolver [] state).asked = [] := by
    have hp := hasks.ahead
    rw [h] at hp
    exact List.map_eq_nil_iff.1 (List.prefix_nil.1 hp)
  have hext : source.Extends (tree.eval resolver [] state).environment := by
    intro name value hv
    rw [hasks.kept, hnone] at hv
    cases hv
  refine tree.result_eq_value resolver [] state ?_ hext
  rw [hnone]
  exact nofun

end Expr

/-- **What an evaluation asks, leaves and gives.**  The resolver is asked, in their order and each
at most once, for the first of the variables that have no value: for all of them if the tree gets a
value, and up to the one that the resolver has no value for, whose error is then the result.  The
environment has the answers behind its own bindings, whatever the result is, and if no question is
in vain, then the result is the value of the tree over this environment. -/
theorem Expr.eval_asks_unbound (resolver : Resolver σ) (tree : Expr) (environment : Environment)
    (state : σ) :
    let run := tree.eval resolver environment state
    let names := run.asked.map Prod.fst
    resolver.ask names state = (run.asked, run.state) ∧
      names <+: unbound environment tree.variableNames ∧
      names.Nodup ∧
      (∀ value, run.result = .ok value → names = unbound environment tree.variableNames) ∧
      (∀ before name error after, run.asked = before ++ (name, .error error) :: after →
        after = [] ∧ run.result = .error error) ∧
      run.environment = environment ++ bindings run.asked ∧
      (∀ name value, run.environment.lookup name = some value ↔
        environment.lookup name = some value ∨ (name, .ok value) ∈ run.asked) ∧
      ∀ source : Source, source.Extends run.environment →
        (∀ name error, (name, .error error) ∉ run.asked) → run.result = tree.value source := by
  intro run names
  have h : Asks resolver tree.variableNames environment state run :=
    tree.asks resolver environment state
  exact ⟨h.conversation, h.ahead, h.nodup tree.nodup_variableNames, h.all, h.fails, h.kept,
    fun name value => h.lookup_iff tree.nodup_variableNames,
    fun source he ha => tree.result_eq_value resolver environment state ha he⟩

/-- The answers of `x+y*x` are asked for in the order of the text, and that of `x` once. -/
example :
    ((Expr.binary .add (.var 'x' 1) (.binary .mul (.var 'y' 3) (.var 'x' 5) 4) 2).evaluate
      .ofAnswers ⟨[.one, .zero], []⟩).state.calls = ['x', 'y'] := rfl

/-! ## From the value to an evaluation -/

/-- An answer that the source has too leaves the rest of its values where they were. -/
theorem Supplies.append {resolver : Resolver σ} {environment : Environment} {source : Source}
    (h : Supplies resolver environment source) {name : Char} {value : Complex}
    (hv : source name = .ok value) (hl : environment.lookup name = none) :
    Supplies resolver (environment ++ [(name, value)]) source := by
  intro name' value' hv'
  rw [List.lookup_append]
  obtain hl' | ⟨hl', hr⟩ := h name' value' hv'
  · rw [hl']
    exact .inl rfl
  · rw [hl']
    by_cases he : name' = name
    · subst he
      rw [hv] at hv'
      cases hv'
      exact .inl List.lookup_cons_self
    · refine .inr ⟨?_, hr⟩
      show [(name, value)].lookup name' = none
      simp [he]

theorem Source.Documented.exists_of_settled {source : Source} (h : source.Documented) {name : Char}
    (hs : Settled (source name)) : ∃ value, source name = .ok value := by
  cases hv : source name with
  | ok value => exact ⟨value, rfl⟩
  | error error =>
    obtain ⟨name', reason, rfl⟩ := h name error hv
    exact absurd hv (hs name' reason)

namespace Expr

/-- A settled value over a source is found by an evaluation that is supplied with that source, and
nothing that the source does not have is asked for on the way. -/
theorem eval_eq_value {resolver : Resolver σ} {source : Source} (hf : source.Documented)
    (tree : Expr) (environment : Environment) (state : σ) (hs : Settled (tree.value source))
    (h : Supplies resolver environment source) :
    (tree.eval resolver environment state).result = tree.value source ∧
      Supplies resolver (tree.eval resolver environment state).environment source ∧
      ∀ question ∈ (tree.eval resolver environment state).asked,
        ∃ value, source question.1 = .ok value := by
  induction tree generalizing environment state with
  | literal value column => exact ⟨rfl, h, List.forall_mem_nil _⟩
  | var name column =>
    change Settled (source name) at hs
    show (resolve resolver name environment state).result = source name ∧
      Supplies resolver (resolve resolver name environment state).environment source ∧
      ∀ question ∈ (resolve resolver name environment state).asked, _
    obtain ⟨value, hv⟩ := hf.exists_of_settled hs
    obtain hk | ⟨hn, hask⟩ := h name value hv
    · obtain ⟨value', hl, hr⟩ | ⟨hl, -⟩ := resolve_cases resolver name environment state
      · rw [hk] at hl
        cases hl
        rw [hr, hv]
        exact ⟨rfl, h, List.forall_mem_nil _⟩
      · rw [hk] at hl
        cases hl
    · obtain ⟨value', hl, hr⟩ | ⟨-, ⟨value', ha, hr⟩ | ⟨error, ha, hr⟩⟩ :=
        resolve_cases resolver name environment state
      · rw [hn] at hl
        cases hl
      · rw [hask state] at ha
        cases ha
        rw [hr, hv]
        exact ⟨rfl, h.append hv hn, List.forall_mem_singleton.2 ⟨value, hv⟩⟩
      · rw [hask state] at ha
        cases ha
  | unary op operand column ih =>
    rw [eval_unary]
    obtain ⟨hr, hrest⟩ := ih environment state hs.of_bind h
    exact ⟨congrArg (fun result => result.bind fun z => .ok (op.apply z)) hr, hrest⟩
  | binary op left right column ihl ihr =>
    obtain ⟨hl, hsupply, hasked⟩ := ihl environment state hs.of_bind h
    obtain ⟨error, hr, heval⟩ | ⟨z, hr, heval⟩ :=
      eval_binary_cases resolver op left right column environment state
    · rw [heval]
      refine ⟨?_, hsupply, hasked⟩
      show _ = (left.value source).bind _
      rw [← hl, hr]
      rfl
    · rw [heval]
      have hz : left.value source = .ok z := hl.symm.trans hr
      have hv : (binary op left right column).value source =
          (right.value source).bind fun w => op.apply z w column := by
        show (left.value source).bind _ = _
        rw [hz]
        rfl
      rw [hv] at hs ⊢
      obtain ⟨hr', hsupply', hasked'⟩ := ihr _ _ hs.of_bind hsupply
      refine ⟨congrArg (fun result => result.bind fun w => op.apply z w column) hr', hsupply', ?_⟩
      intro question hq
      rw [Evaluation.asked_bind, Evaluation.asked_after, List.mem_append] at hq
      rcases hq with hq | hq
      · exact hasked question hq
      · exact hasked' question hq

end Expr

end Argand
