import Argand.Evaluation.Calculator
import Argand.Proofs.Meaning

/-!
Evaluations of one calculator, one after another.

A calculator keeps its environment from call to call, and each call comes with a resolver of its
own, which may have a state and may fail anywhere.  A call that fails leaves the answers it got, and
the next call starts from the root of the tree again.

The value of the tree over the answers so far is what connects the calls.  A settled call has it
(`run_eq_value`); a later call has all these answers in its environment (`run_again`), and a single
evaluation from nothing gets them from its resolver (`evaluate_eq_run`).  So a failure in between
leaves no trace in the result (`calls_resume`).
-/

namespace Argand

variable {σ : Type}

/-! ## Answers from an environment -/

/-- The resolver has the answers, in each of its states. -/
def Resolver.HandsOut (resolver : Resolver σ) (answers : Environment) : Prop :=
  ∀ name value, answers.lookup name = some value → ∀ state, (resolver name state).1 = .ok value

theorem Resolver.ofTable_eq_ok_iff {table : Environment} {name : Char} {value : Complex} :
    (Resolver.ofTable table name ()).1 = .ok value ↔ table.lookup name = some value := by
  unfold Resolver.ofTable
  cases table.lookup name with
  | some value' => exact ⟨fun h => by cases h; rfl, fun h => by cases h; rfl⟩
  | none => exact ⟨nofun, nofun⟩

theorem Resolver.documented_ofTable (table : Environment) :
    (Resolver.ofTable table).Documented := by
  intro name state error h
  unfold Resolver.ofTable at h
  cases hl : table.lookup name with
  | some value =>
    rw [hl] at h
    cases h
  | none =>
    rw [hl] at h
    cases h
    exact ⟨name, _, rfl⟩

theorem Resolver.documented_ofAnswers : Resolver.ofAnswers.Documented := by
  rintro name ⟨_ | ⟨value, rest⟩, calls⟩ error h
  · cases h
    exact ⟨name, _, rfl⟩
  · cases h

theorem Resolver.handsOut_ofTable (table : Environment) : (Resolver.ofTable table).HandsOut table :=
  fun _ _ h () => ofTable_eq_ok_iff.2 h

/-- The values of an environment as a source. -/
def Source.ofEnvironment (environment : Environment) : Source :=
  fun name => (Resolver.ofTable environment name ()).1

theorem Source.ofEnvironment_eq_ok_iff {environment : Environment} {name : Char} {value : Complex} :
    Source.ofEnvironment environment name = .ok value ↔ environment.lookup name = some value :=
  Resolver.ofTable_eq_ok_iff

theorem Source.extends_ofEnvironment (environment : Environment) :
    (Source.ofEnvironment environment).Extends environment :=
  fun _ _ => ofEnvironment_eq_ok_iff.2

theorem Source.documented_ofEnvironment (environment : Environment) :
    (Source.ofEnvironment environment).Documented :=
  fun name error => Resolver.documented_ofTable environment name () error

/-! ## A second evaluation -/

namespace Expr

variable {τ : Type} {resolver : Resolver σ} (hd : resolver.Documented) (tree : Expr)
  (environment : Environment) (state : σ)

include hd

/-- An evaluation that has the values which a settled one left comes to the same result. -/
theorem eval_of_settled (hs : Settled (tree.eval resolver environment state).result)
    {resolver' : Resolver τ} {environment' : Environment}
    (h : Supplies resolver' environment'
      (.ofEnvironment (tree.eval resolver environment state).environment)) (state' : τ) :
    (tree.eval resolver' environment' state').result =
      (tree.eval resolver environment state).result ∧
      ∀ question ∈ (tree.eval resolver' environment' state').asked, ∃ value,
        (tree.eval resolver environment state).environment.lookup question.1 = some value := by
  have hv := result_eq_value_of_settled hd tree environment state hs
    (Source.extends_ofEnvironment _)
  rw [hv] at hs ⊢
  obtain ⟨hr, -, hasked⟩ :=
    eval_eq_value (Source.documented_ofEnvironment _) tree environment' state' hs h
  refine ⟨hr, fun question hq => ?_⟩
  obtain ⟨value, hl⟩ := hasked question hq
  exact ⟨value, Source.ofEnvironment_eq_ok_iff.1 hl⟩

/-- With the environment that a settled evaluation left, nothing is asked for any more. -/
theorem eval_again (hs : Settled (tree.eval resolver environment state).result)
    (resolver' : Resolver τ) {environment' : Environment}
    (h : ∀ name value, (tree.eval resolver environment state).environment.lookup name = some value →
      environment'.lookup name = some value) (state' : τ) :
    let run := tree.eval resolver' environment' state'
    run.result = (tree.eval resolver environment state).result ∧ run.asked = [] ∧
      run.environment = environment' ∧ run.state = state' := by
  intro run
  have hsupply : Supplies resolver' environment'
      (.ofEnvironment (tree.eval resolver environment state).environment) :=
    fun name value hv => .inl (h name value (Source.ofEnvironment_eq_ok_iff.1 hv))
  obtain ⟨hr, hasked⟩ := eval_of_settled hd tree environment state hs hsupply state'
  have hasks := tree.asks resolver' environment' state'
  -- What is asked for has no value, and what could be asked for has one.
  have hnil : run.asked = [] := by
    refine List.eq_nil_iff_forall_not_mem.2 fun question hq => ?_
    obtain ⟨value, hl⟩ := hasked question hq
    exact nomatch (h _ value hl).symm.trans (hasks.lookup_eq_none hq)
  refine ⟨hr, hnil, ?_, ?_⟩
  · have hk : run.environment = environment' ++ bindings run.asked := hasks.kept
    rw [hk, hnil]
    exact List.append_nil environment'
  · have hc : resolver'.ask (run.asked.map Prod.fst) state' = (run.asked, run.state) :=
      hasks.conversation
    rw [hnil] at hc
    exact (congrArg Prod.snd hc).symm

/-- An evaluation from nothing with the answers of a settled one comes to its result. -/
theorem evaluate_of_handsOut (hs : Settled (tree.eval resolver environment state).result)
    {resolver' : Resolver τ}
    (h : resolver'.HandsOut (tree.eval resolver environment state).environment) (state' : τ) :
    (tree.evaluate resolver' state').result = (tree.eval resolver environment state).result := by
  have hsupply : Supplies resolver' []
      (.ofEnvironment (tree.eval resolver environment state).environment) :=
    fun name value hv => .inr ⟨rfl, h name value (Source.ofEnvironment_eq_ok_iff.1 hv)⟩
  exact (eval_of_settled hd tree environment state hs hsupply state').1

end Expr

/-! ## Calls in a row -/

/-- An evaluation to be made, with a resolver of its own. -/
structure Call where
  State : Type
  resolver : Resolver State
  state : State

namespace Calculator

/-- What the call gives and leaves. -/
def run (calculator : Calculator) (call : Call) : Evaluation call.State :=
  calculator.evaluate call.resolver call.state

/-- The calculator after calls in a row. -/
def afterCalls (calculator : Calculator) (calls : List Call) : Calculator :=
  calls.foldl (fun calculator call => calculator.after (calculator.run call)) calculator

/-- The answers that the resolvers of calls in a row give. -/
def answersIn (calculator : Calculator) : List Call → Environment
  | [] => []
  | call :: calls =>
    let run := calculator.run call
    bindings run.asked ++ (calculator.after run).answersIn calls

theorem afterCalls_append (calculator : Calculator) (before after : List Call) :
    calculator.afterCalls (before ++ after) = (calculator.afterCalls before).afterCalls after :=
  List.foldl_append

theorem tree_afterCalls (calculator : Calculator) (calls : List Call) :
    (calculator.afterCalls calls).tree = calculator.tree := by
  induction calls generalizing calculator with
  | nil => rfl
  | cons call calls ih => exact ih (calculator.after (calculator.run call))

theorem run_eq {calculator : Calculator} {tree : Expr} (h : calculator.tree = tree) (call : Call) :
    calculator.run call = tree.eval call.resolver calculator.environment call.state := by
  subst h
  rfl

/-- The environment is what the resolvers answered, call by call. -/
theorem environment_afterCalls (calculator : Calculator) (calls : List Call) :
    (calculator.afterCalls calls).environment =
      calculator.environment ++ calculator.answersIn calls := by
  induction calls generalizing calculator with
  | nil => exact (List.append_nil _).symm
  | cons call calls ih =>
    have hk : (calculator.run call).environment =
        calculator.environment ++ bindings (calculator.run call).asked :=
      (calculator.tree.asks call.resolver calculator.environment call.state).kept
    refine (ih (calculator.after (calculator.run call))).trans ?_
    show (calculator.run call).environment ++ _ = _
    rw [hk, List.append_assoc]
    rfl

theorem lookup_afterCalls {calculator : Calculator} (calls : List Call) {name : Char}
    {value : Complex} (h : calculator.environment.lookup name = some value) :
    (calculator.afterCalls calls).environment.lookup name = some value := by
  rw [environment_afterCalls, List.lookup_append, h]
  rfl

/-- A call after a settled one, with others between them. -/
theorem run_again {calculator : Calculator} {call : Call} (hd : call.resolver.Documented)
    (hs : Settled (calculator.run call).result) (between : List Call) (later : Call) :
    let resumed := (calculator.after (calculator.run call)).afterCalls between
    (resumed.run later).result = (calculator.run call).result ∧ (resumed.run later).asked = [] ∧
      (resumed.run later).environment = resumed.environment ∧
      (resumed.run later).state = later.state := by
  intro resumed
  have htree : resumed.tree = calculator.tree := tree_afterCalls _ between
  have hl : ∀ name value, (calculator.run call).environment.lookup name = some value →
      resumed.environment.lookup name = some value :=
    fun name value h => lookup_afterCalls between h
  rw [run_eq htree later]
  exact Expr.eval_again hd calculator.tree calculator.environment call.state hs later.resolver hl
    later.state

/-- Calls from nothing leave what they were answered. -/
theorem environment_run (tree : Expr) (before : List Call) (call : Call) :
    (((ofTree tree).afterCalls before).run call).environment =
      (ofTree tree).answersIn (before ++ [call]) := by
  have h := environment_afterCalls (ofTree tree) (before ++ [call])
  rw [afterCalls_append] at h
  exact h

section Settled

variable (tree : Expr) (before : List Call) {call : Call} (hd : call.resolver.Documented)
  (hs : Settled (((ofTree tree).afterCalls before).run call).result)

include hd hs

/-- A settled call has the value of the tree over the answers up to it. -/
theorem run_eq_value : (((ofTree tree).afterCalls before).run call).result =
    tree.value (.ofEnvironment ((ofTree tree).answersIn (before ++ [call]))) := by
  have htree : ((ofTree tree).afterCalls before).tree = tree := tree_afterCalls (ofTree tree) before
  rw [← environment_run]
  rw [run_eq htree call] at hs ⊢
  exact Expr.result_eq_value_of_settled hd tree _ call.state hs (Source.extends_ofEnvironment _)

/-- A single evaluation with the answers up to a settled call has the result of that call. -/
theorem evaluate_eq_run {resolver : Resolver σ}
    (h : resolver.HandsOut ((ofTree tree).answersIn (before ++ [call]))) (state : σ) :
    (tree.evaluate resolver state).result =
      (((ofTree tree).afterCalls before).run call).result := by
  have htree : ((ofTree tree).afterCalls before).tree = tree := tree_afterCalls (ofTree tree) before
  rw [← environment_run] at h
  rw [run_eq htree call] at hs h ⊢
  exact Expr.evaluate_of_handsOut hd tree _ call.state hs h state

end Settled

/-- **Failing and trying again.**  Through calls in a row, whose resolvers fail in no other way than
for want of a value, a variable keeps the value that it got.  Once a call has another result than
such a failure, this is the value of the tree over the answers that the calls got up to then: every
later call has it too, asks for nothing and leaves the environment as it is, and so does a single
evaluation from nothing with these answers. -/
theorem calls_resume (tree : Expr) (calls : List Call)
    (documented : ∀ call ∈ calls, call.resolver.Documented) :
    let known : List Call → Calculator := (ofTree tree).afterCalls
    (∀ before after, calls = before ++ after → ∀ name value,
      (known before).environment.lookup name = some value →
        (known calls).environment.lookup name = some value) ∧
    ∀ before call after, calls = before ++ call :: after →
      Settled ((known before).run call).result →
      ((known before).run call).result =
        tree.value (.ofEnvironment ((ofTree tree).answersIn (before ++ [call]))) ∧
      (∀ between later rest, after = between ++ later :: rest →
        let calculator := known (before ++ call :: between)
        (calculator.run later).result = ((known before).run call).result ∧
          (calculator.run later).asked = [] ∧
          (calculator.run later).environment = calculator.environment ∧
          (calculator.run later).state = later.state) ∧
      ∀ (τ : Type) (resolver : Resolver τ) (state : τ),
        resolver.HandsOut ((ofTree tree).answersIn (before ++ [call])) →
          (tree.evaluate resolver state).result = ((known before).run call).result := by
  intro known
  refine ⟨?_, ?_⟩
  · rintro before after rfl name value hl
    show ((ofTree tree).afterCalls (before ++ after)).environment.lookup name = some value
    rw [afterCalls_append]
    exact lookup_afterCalls after hl
  · rintro before call after rfl hs
    have hd : call.resolver.Documented :=
      documented call (List.mem_append_right _ List.mem_cons_self)
    have hnext (between : List Call) : known (before ++ call :: between) =
        ((known before).after ((known before).run call)).afterCalls between :=
      afterCalls_append (ofTree tree) before (call :: between)
    refine ⟨run_eq_value tree before hd hs, ?_, ?_⟩
    · rintro between later rest rfl
      show let calculator := known (before ++ call :: between); _
      rw [hnext between]
      exact run_again hd hs between later
    · intro τ resolver state h
      exact evaluate_eq_run tree before hd hs h state

/-- A division of two variables. -/
def ratio : Expr := .binary .div (.var 'x' 1) (.var 'y' 3) 2

/-- The first resolver has no divisor, the second one has zero, and the third one could answer
once. -/
def ratioCalls : List Call :=
  [⟨Unit, .ofTable [('x', .one)], ()⟩, ⟨Unit, .ofTable [('y', .zero)], ()⟩,
    ⟨Resolver.Prepared, .ofAnswers, ⟨[.one], []⟩⟩]

theorem documented_ratioCalls : ∀ call ∈ ratioCalls, call.resolver.Documented := by
  refine List.forall_mem_cons.2 ⟨Resolver.documented_ofTable _, ?_⟩
  refine List.forall_mem_cons.2 ⟨Resolver.documented_ofTable _, ?_⟩
  exact List.forall_mem_singleton.2 Resolver.documented_ofAnswers

/-- The division by zero of the second call is what the third one has too, without its answer, and
what one evaluation with both answers comes to. -/
theorem calls_resume_ratio :
    (∀ call ∈ ratioCalls, call.resolver.Documented) ∧
      ((((ofTree ratio).afterCalls ratioCalls).environment.lookup 'x') = some .one) ∧
      (((ofTree ratio).afterCalls (ratioCalls.take 2)).run ratioCalls[2]).result =
        .error (.divisionByZero 2) ∧
      (((ofTree ratio).afterCalls (ratioCalls.take 2)).run ratioCalls[2]).asked = [] ∧
      (ratio.evaluate (.ofTable [('x', .one), ('y', .zero)]) ()).result =
        .error (.divisionByZero 2) := by
  obtain ⟨hkept, hsettled⟩ := calls_resume ratio ratioCalls documented_ratioCalls
  have hrun : (((ofTree ratio).afterCalls (ratioCalls.take 1)).run ratioCalls[1]).result =
      .error (.divisionByZero 2) := rfl
  have hs : Settled (((ofTree ratio).afterCalls (ratioCalls.take 1)).run ratioCalls[1]).result := by
    rw [hrun]
    exact nofun
  obtain ⟨-, hlater, honce⟩ := hsettled _ ratioCalls[1] [ratioCalls[2]] rfl hs
  obtain ⟨hresult, hasked, -⟩ := hlater [] ratioCalls[2] [] rfl
  exact ⟨documented_ratioCalls, hkept (ratioCalls.take 1) _ rfl 'x' .one rfl,
    hresult.trans hrun, hasked,
    (honce Unit _ () (Resolver.handsOut_ofTable _)).trans hrun⟩

end Calculator

end Argand
