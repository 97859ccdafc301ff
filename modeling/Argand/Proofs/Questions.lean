import Argand.Evaluation.Evaluate

/-!
What an evaluation asks its resolver, and what it leaves in the environment.

The variables of a tree that have no value in an environment are known before the tree is evaluated:
they are `unbound environment tree.variableNames`.  An evaluation goes through the tree once more,
with an environment that grows on the way, and stops at the first error.  `Asks` says how the two
agree:

| | |
| :-- | :-- |
| `conversation` | the resolver was asked one question after the other, and gave these answers |
| `ahead` | the names asked for are the first ones of those without a value, in their order |
| `all` | an evaluation that ends with a value asked for every one of them |
| `fails` | a question without a value is the last one, and its error is the result |
| `kept` | the environment has the answers behind what it had before, and nothing else |

The names are a parameter of `Asks` and the tree is not, so that it holds of one look-up as well as
of two operands in a row, and the induction on the tree (`Expr.asks`) puts these together.
-/

namespace Argand

variable {σ : Type}

/-! ## Questions and answers -/

/-- A name that a resolver was asked for, with what it said. -/
abbrev Question := Char × Except EvaluationError Complex

/-- A look-up that the environment could not answer is a question. -/
def Lookup.question? : Lookup → Option Question
  | .asked name answer => some (name, answer)
  | .known _ _ => none

/-- A question that got a value is a binding. -/
def Question.binding? : Question → Option (Char × Complex)
  | (name, .ok value) => some (name, value)
  | (_, .error _) => none

/-- The bindings that questions came to. -/
def bindings (questions : List Question) : Environment := questions.filterMap Question.binding?

/-- What the resolver was asked in an evaluation. -/
def Evaluation.asked (run : Evaluation σ) : List Question := run.lookups.filterMap Lookup.question?

/-- What the resolver answers when it is asked for names one after another, and its state then. -/
def Resolver.ask (resolver : Resolver σ) : List Char → σ → List Question × σ
  | [], state => ([], state)
  | name :: names, state =>
    let answer := resolver name state
    let rest := resolver.ask names answer.2
    ((name, answer.1) :: rest.1, rest.2)

/-- The names without a value. -/
def unbound (environment : Environment) (names : List Char) : List Char :=
  names.filter fun name => (environment.lookup name).isNone

theorem ask_append (resolver : Resolver σ) (names more : List Char) (state : σ) :
    resolver.ask (names ++ more) state =
      ((resolver.ask names state).1 ++ (resolver.ask more (resolver.ask names state).2).1,
        (resolver.ask more (resolver.ask names state).2).2) := by
  induction names generalizing state with
  | nil => rfl
  | cons name names ih => simp only [List.cons_append, Resolver.ask, ih]

/-- What was answered is what the resolver says in some state. -/
theorem answer_of_mem_ask {resolver : Resolver σ} {names : List Char} {state : σ}
    {question : Question} (h : question ∈ (resolver.ask names state).1) :
    ∃ state', (resolver question.1 state').1 = question.2 := by
  induction names generalizing state with
  | nil => cases h
  | cons name names ih =>
    rcases List.mem_cons.1 h with rfl | h
    · exact ⟨state, rfl⟩
    · exact ih h

/-- Questions that all got a value are as many bindings. -/
theorem map_bindings {questions : List Question}
    (h : ∀ name error, (name, .error error) ∉ questions) :
    (bindings questions).map Prod.fst = questions.map Prod.fst := by
  induction questions with
  | nil => rfl
  | cons question questions ih =>
    have ih := ih fun name error hm => h name error (List.mem_cons_of_mem _ hm)
    obtain ⟨name, value | error⟩ := question
    · exact absurd List.mem_cons_self (h name value)
    · exact congrArg (name :: ·) ih

theorem mem_bindings {questions : List Question} {name : Char} {value : Complex} :
    (name, value) ∈ bindings questions ↔ (name, .ok value) ∈ questions := by
  constructor
  · intro hm
    obtain ⟨⟨_, _ | _⟩, hq, hb⟩ := List.mem_filterMap.1 hm
    · cases hb
    · cases hb
      exact hq
  · intro hm
    exact List.mem_filterMap.2 ⟨_, hm, rfl⟩

theorem map_bindings_sublist (questions : List Question) :
    ((bindings questions).map Prod.fst).Sublist (questions.map Prod.fst) := by
  induction questions with
  | nil => exact .slnil
  | cons question questions ih =>
    obtain ⟨name, value | value⟩ := question
    · exact ih.cons name
    · exact ih.cons_cons name

/-! ## Names with and without a value -/

theorem mem_unbound {environment : Environment} {names : List Char} {name : Char} :
    name ∈ unbound environment names ↔ name ∈ names ∧ environment.lookup name = none := by
  simp [unbound]

theorem lookup_eq_none_iff_notMem {environment : Environment} {name : Char} :
    environment.lookup name = none ↔ name ∉ environment.map Prod.fst := by
  constructor
  · intro h hm
    obtain ⟨binding, hb, rfl⟩ := List.mem_map.1 hm
    simpa using List.lookup_eq_none_iff.1 h binding hb
  · intro h
    refine List.lookup_eq_none_iff.2 fun binding hb => ?_
    refine bne_iff_ne.2 ?_
    rintro rfl
    exact h (List.mem_map_of_mem hb)

theorem lookup_eq_some_iff_mem {environment : Environment} (h : (environment.map Prod.fst).Nodup)
    {name : Char} {value : Complex} :
    environment.lookup name = some value ↔ (name, value) ∈ environment := by
  induction environment with
  | nil => simp
  | cons binding environment ih =>
    obtain ⟨key, bound⟩ := binding
    obtain ⟨hk, hn⟩ := List.nodup_cons.1 h
    rw [List.mem_cons, Prod.mk.injEq]
    by_cases he : name = key
    · subst he
      have hm : (name, value) ∉ environment :=
        fun hm => hk (List.mem_map.2 ⟨(name, value), hm, rfl⟩)
      rw [List.lookup_cons_self]
      simp [hm, eq_comm]
    · rw [List.lookup_cons, beq_false_of_ne he]
      simp [he, ih hn]

theorem unbound_nil (names : List Char) : unbound [] names = names :=
  List.filter_eq_self.2 fun _ _ => rfl

/-- With a value for each of the names, those that are without one among more names are the
others. -/
theorem unbound_append {environment answers : Environment} {names : List Char}
    (h : answers.map Prod.fst = unbound environment names) (more : List Char) :
    unbound environment (names ++ more.filter fun name => name ∉ names) =
      unbound environment names ++ unbound (environment ++ answers) more := by
  have hmem (name : Char) : ((environment ++ answers).lookup name).isNone =
      ((environment.lookup name).isNone && decide (name ∉ names)) := by
    have ha : answers.lookup name = none ↔ ¬(name ∈ names ∧ environment.lookup name = none) := by
      rw [lookup_eq_none_iff_notMem, h, mem_unbound]
    rw [List.lookup_append]
    cases he : environment.lookup name with
    | some value => rfl
    | none =>
      rw [he] at ha
      rw [Bool.eq_iff_iff]
      simpa using ha
  have hmore : unbound environment (more.filter fun name => name ∉ names) =
      unbound (environment ++ answers) more := by
    simp only [unbound, hmem, List.filter_filter]
  rw [← hmore]
  exact List.filter_append ..

/-! ## The variables of a tree -/

namespace Expr

/-- A walk through the tree from left to right that notes each name which is new. -/
def walk (seen : List Char) : Expr → List Char
  | literal _ _ => seen
  | var name _ => if name ∈ seen then seen else seen ++ [name]
  | unary _ operand _ => operand.walk seen
  | binary _ left right _ => right.walk (left.walk seen)

theorem walk_eq (tree : Expr) (seen : List Char) :
    tree.walk seen = seen ++ tree.variableNames.filter fun name => name ∉ seen := by
  induction tree generalizing seen with
  | literal value column => exact (List.append_nil _).symm
  | var name column =>
    show (if name ∈ seen then seen else seen ++ [name]) = _
    by_cases h : name ∈ seen <;> simp [variableNames, h]
  | unary op operand column ih => exact ih seen
  | binary op left right column ihl ihr =>
    show right.walk (left.walk seen) = _
    rw [ihr, ihl, List.append_assoc]
    simp only [variableNames, List.filter_append, List.filter_filter]
    congr 2
    refine List.filter_congr fun name _ => ?_
    by_cases hs : name ∈ seen <;> by_cases hl : name ∈ left.variableNames <;> simp [hs, hl]

/-- The variables of a tree are what a walk through it notes. -/
theorem walk_nil (tree : Expr) : tree.walk [] = tree.variableNames := by
  rw [walk_eq]
  simp

theorem mem_variableNames_binary {op : BinaryOperator} {left right : Expr} {column : Nat}
    {name : Char} : name ∈ (binary op left right column).variableNames ↔
      name ∈ left.variableNames ∨ name ∈ right.variableNames := by
  simp only [variableNames, List.mem_append, List.mem_filter, decide_eq_true_eq]
  by_cases h : name ∈ left.variableNames <;> simp [h]

theorem nodup_variableNames (tree : Expr) : tree.variableNames.Nodup := by
  induction tree with
  | literal value column => exact List.nodup_nil
  | var name column => simp [variableNames]
  | unary op operand column ih => exact ih
  | binary op left right column ihl ihr =>
    refine List.nodup_append.2 ⟨ihl, ihr.filter _, ?_⟩
    rintro name hl _ hr rfl
    exact absurd hl (of_decide_eq_true (List.mem_filter.1 hr).2)

end Expr

/-! ## What one step does -/

/-- A look-up finds the value, or asks for it and notes it, or asks for it in vain. -/
theorem resolve_cases (resolver : Resolver σ) (name : Char) (environment : Environment)
    (state : σ) :
    (∃ value, environment.lookup name = some value ∧
      resolve resolver name environment state =
        ⟨.ok value, environment, state, [.known name value]⟩) ∨
    environment.lookup name = none ∧
      ((∃ value, (resolver name state).1 = .ok value ∧
        resolve resolver name environment state =
          ⟨.ok value, environment ++ [(name, value)], (resolver name state).2,
            [.asked name (.ok value)]⟩) ∨
      ∃ error, (resolver name state).1 = .error error ∧
        resolve resolver name environment state =
          ⟨.error error, environment, (resolver name state).2, [.asked name (.error error)]⟩) := by
  unfold resolve
  cases environment.lookup name with
  | some value => exact .inl ⟨value, rfl, rfl⟩
  | none =>
    refine .inr ⟨rfl, ?_⟩
    obtain ⟨error | value, state'⟩ := resolver name state
    · exact .inr ⟨error, rfl, rfl⟩
    · exact .inl ⟨value, rfl, rfl⟩

/-- The run with what follows from its value. -/
def Evaluation.bind (run : Evaluation σ) (f : Complex → Except EvaluationError Complex) :
    Evaluation σ :=
  { run with result := run.result.bind f }

/-- The second run behind the first one. -/
def Evaluation.after (first second : Evaluation σ) : Evaluation σ :=
  { second with lookups := first.lookups ++ second.lookups }

@[simp] theorem Evaluation.asked_bind (run : Evaluation σ)
    (f : Complex → Except EvaluationError Complex) : (run.bind f).asked = run.asked :=
  rfl

@[simp] theorem Evaluation.asked_after (first second : Evaluation σ) :
    (first.after second).asked = first.asked ++ second.asked :=
  List.filterMap_append

namespace Expr

theorem eval_unary (resolver : Resolver σ) (op : UnaryOperator) (operand : Expr) (column : Nat)
    (environment : Environment) (state : σ) :
    (unary op operand column).eval resolver environment state =
      (operand.eval resolver environment state).bind fun z => .ok (op.apply z) := by
  show Evaluation.mk _ _ _ _ = Evaluation.mk _ _ _ _
  cases (operand.eval resolver environment state).result <;> rfl

/-- A binary node ends with the error of its left operand, or goes on with the right one. -/
theorem eval_binary_cases (resolver : Resolver σ) (op : BinaryOperator) (left right : Expr)
    (column : Nat) (environment : Environment) (state : σ) :
    (∃ error, (left.eval resolver environment state).result = .error error ∧
      (binary op left right column).eval resolver environment state =
        left.eval resolver environment state) ∨
    ∃ z, (left.eval resolver environment state).result = .ok z ∧
      (binary op left right column).eval resolver environment state =
        ((left.eval resolver environment state).after
          (right.eval resolver (left.eval resolver environment state).environment
            (left.eval resolver environment state).state)).bind fun w => op.apply z w column := by
  rw [Expr.eval]
  cases h : (left.eval resolver environment state).result with
  | error error => exact .inl ⟨error, rfl, rfl⟩
  | ok z => exact .inr ⟨z, rfl, rfl⟩

end Expr

/-! ## The invariant of an evaluation -/

/-- How a run that comes to the names in their order deals with the resolver and the environment. -/
structure Asks (resolver : Resolver σ) (names : List Char) (environment : Environment) (state : σ)
    (run : Evaluation σ) : Prop where
  conversation : resolver.ask (run.asked.map Prod.fst) state = (run.asked, run.state)
  ahead : run.asked.map Prod.fst <+: unbound environment names
  all : ∀ value, run.result = .ok value → run.asked.map Prod.fst = unbound environment names
  fails : ∀ before name error after, run.asked = before ++ (name, .error error) :: after →
    after = [] ∧ run.result = .error error
  kept : run.environment = environment ++ bindings run.asked

namespace Asks

variable {resolver : Resolver σ} {names : List Char} {environment : Environment} {state : σ}
  {run : Evaluation σ}

/-- A run without questions keeps everything. -/
theorem of_asked_eq_nil (hn : unbound environment names = []) (ha : run.asked = [])
    (he : run.environment = environment) (hs : run.state = state) :
    Asks resolver names environment state run where
  conversation := by simp [ha, hs, Resolver.ask]
  ahead := by simp [ha]
  all := by simp [ha, hn]
  fails := by simp [ha]
  kept := by simp [ha, he, bindings]

/-- A run with one question for a name without a value. -/
theorem of_asked_eq_singleton {name : Char} {answer : Except EvaluationError Complex}
    (hl : environment.lookup name = none) (hq : resolver name state = (answer, run.state))
    (ha : run.asked = [(name, answer)]) (hr : run.result = answer)
    (he : run.environment = environment ++ bindings run.asked) :
    Asks resolver [name] environment state run := by
  have hn : unbound environment [name] = [name] := by simp [unbound, hl]
  refine ⟨?_, ?_, ?_, ?_, he⟩
  · rw [ha]
    show ([(name, (resolver name state).1)], (resolver name state).2) = _
    rw [hq]
  · rw [ha, hn]
    exact List.prefix_rfl
  · intro _ _
    rw [ha, hn]
    rfl
  · intro before name' error after h
    rw [ha] at h
    obtain ⟨_, h⟩ | ⟨_, h⟩ := List.singleton_eq_append_iff.1 h
    · cases h
      exact ⟨rfl, hr⟩
    · cases h

theorem resolve (resolver : Resolver σ) (name : Char) (environment : Environment) (state : σ) :
    Asks resolver [name] environment state (resolve resolver name environment state) := by
  obtain ⟨value, hl, hr⟩ | ⟨hl, ⟨value, ha, hr⟩ | ⟨error, ha, hr⟩⟩ :=
    resolve_cases resolver name environment state
  · rw [hr]
    exact of_asked_eq_nil (by simp [unbound, hl]) rfl rfl rfl
  · rw [hr]
    exact of_asked_eq_singleton hl (Prod.ext ha rfl) rfl rfl rfl
  · rw [hr]
    exact of_asked_eq_singleton hl (Prod.ext ha rfl) rfl rfl (List.append_nil _).symm

/-- What follows from the value asks nothing. -/
theorem bind (h : Asks resolver names environment state run)
    (f : Complex → Except EvaluationError Complex) :
    Asks resolver names environment state (run.bind f) where
  conversation := h.conversation
  ahead := h.ahead
  all := by
    intro value hv
    cases hr : run.result with
    | ok z => exact h.all z hr
    | error error =>
      have hb : run.result.bind f = .ok value := hv
      rw [hr] at hb
      cases hb
  fails := by
    intro before name error after ha
    obtain ⟨rfl, hr⟩ := h.fails before name error after ha
    refine ⟨rfl, ?_⟩
    show run.result.bind f = _
    rw [hr]
    rfl
  kept := h.kept

/-- A run that ends with an error comes to no further names. -/
theorem append_names (h : Asks resolver names environment state run) (more : List Char)
    (hr : ∀ value, run.result ≠ .ok value) :
    Asks resolver (names ++ more) environment state run where
  conversation := h.conversation
  ahead := by
    have hp : unbound environment names <+: unbound environment (names ++ more) :=
      (List.prefix_append _ _).filter _
    exact h.ahead.trans hp
  all := fun value hv => absurd hv (hr value)
  fails := h.fails
  kept := h.kept

/-- A question without a value decides the result. -/
theorem result_of_mem (h : Asks resolver names environment state run) {name : Char}
    {error : EvaluationError} (hm : (name, .error error) ∈ run.asked) :
    run.result = .error error := by
  obtain ⟨before, after, ha⟩ := List.append_of_mem hm
  exact (h.fails before name error after ha).2

theorem answered (h : Asks resolver names environment state run) {value : Complex}
    (hr : run.result = .ok value) (name : Char) (error : EvaluationError) :
    (name, .error error) ∉ run.asked := by
  intro hm
  have he := h.result_of_mem hm
  rw [hr] at he
  cases he

/-- Two runs in a row, where the second one starts with what the first one left. -/
theorem after (h : Asks resolver names environment state run) {value : Complex}
    (hr : run.result = .ok value) {more : List Char} {second : Evaluation σ}
    (hs : Asks resolver more run.environment run.state second) :
    Asks resolver (names ++ more.filter fun name => name ∉ names) environment state
      (run.after second) := by
  have hasked := run.asked_after second
  have hb : (bindings run.asked).map Prod.fst = unbound environment names :=
    (map_bindings (h.answered hr)).trans (h.all value hr)
  have hn := unbound_append hb more
  rw [← h.kept] at hn
  refine ⟨?_, ?_, ?_, ?_, ?_⟩
  · rw [hasked, List.map_append, ask_append, h.conversation]
    show (run.asked ++ (resolver.ask (second.asked.map Prod.fst) run.state).1, _) = _
    rw [hs.conversation]
    rfl
  · rw [hasked, List.map_append, h.all value hr, hn]
    exact (List.prefix_append_right_inj _).2 hs.ahead
  · intro w hw
    rw [hasked, List.map_append, h.all value hr, hn, hs.all w hw]
  · intro before name error after ha
    rw [hasked] at ha
    -- The question without a value is not in the first run, since that one has a value.
    obtain ⟨rest, -, hrest⟩ | ⟨rest, hfirst, hrest⟩ := List.append_eq_append_iff.1 ha
    · exact hs.fails rest name error after hrest
    · cases rest with
      | nil => exact hs.fails [] name error after hrest.symm
      | cons question rest =>
        cases hrest
        have hm : (name, .error error) ∈ run.asked :=
          hfirst ▸ List.mem_append_right _ List.mem_cons_self
        exact absurd hm (h.answered hr name error)
  · show second.environment = _
    rw [hs.kept, h.kept, hasked, List.append_assoc]
    exact congrArg _ List.filterMap_append.symm

/-! ## What the invariant says of names and questions -/

/-- What is asked for has no value yet. -/
theorem lookup_eq_none (h : Asks resolver names environment state run) {question : Question}
    (hq : question ∈ run.asked) : environment.lookup question.1 = none :=
  (mem_unbound.1 (h.ahead.mem (List.mem_map_of_mem hq))).2

theorem answer_of_mem (h : Asks resolver names environment state run) {question : Question}
    (hq : question ∈ run.asked) : ∃ state', (resolver question.1 state').1 = question.2 := by
  have hc : question ∈ (resolver.ask (run.asked.map Prod.fst) state).1 := by
    rw [h.conversation]
    exact hq
  exact answer_of_mem_ask hc

/-- No name is asked for twice. -/
theorem nodup (h : Asks resolver names environment state run) (hn : names.Nodup) :
    (run.asked.map Prod.fst).Nodup :=
  (hn.filter _).sublist h.ahead.sublist

theorem lookup_of_lookup (h : Asks resolver names environment state run) {name : Char}
    {value : Complex} (hl : environment.lookup name = some value) :
    run.environment.lookup name = some value := by
  rw [h.kept, List.lookup_append, hl]
  rfl

/-- A name has a value afterwards if it had that value before or got it as the answer. -/
theorem lookup_iff (h : Asks resolver names environment state run) (hn : names.Nodup) {name : Char}
    {value : Complex} :
    run.environment.lookup name = some value ↔
      environment.lookup name = some value ∨ (name, .ok value) ∈ run.asked := by
  have hb : ((bindings run.asked).map Prod.fst).Nodup :=
    (h.nodup hn).sublist (map_bindings_sublist _)
  rw [h.kept, List.lookup_append, Option.or_eq_some_iff, ← mem_bindings,
    lookup_eq_some_iff_mem hb]
  constructor
  · rintro (hl | ⟨-, hm⟩)
    · exact .inl hl
    · exact .inr hm
  · rintro (hl | hm)
    · exact .inl hl
    · exact .inr ⟨h.lookup_eq_none (mem_bindings.1 hm), hm⟩

end Asks

/-- An evaluation comes to the variables of the tree in their order. -/
theorem Expr.asks (resolver : Resolver σ) (tree : Expr) (environment : Environment) (state : σ) :
    Asks resolver tree.variableNames environment state (tree.eval resolver environment state) := by
  induction tree generalizing environment state with
  | literal value column => exact .of_asked_eq_nil rfl rfl rfl rfl
  | var name column => exact .resolve resolver name environment state
  | unary op operand column ih =>
    rw [eval_unary]
    exact (ih environment state).bind _
  | binary op left right column ihl ihr =>
    obtain ⟨error, hr, he⟩ | ⟨z, hr, he⟩ :=
      eval_binary_cases resolver op left right column environment state
    · rw [he]
      exact (ihl environment state).append_names _ fun value h => nomatch hr.symm.trans h
    · rw [he]
      exact ((ihl environment state).after hr (ihr _ _)).bind _

end Argand
