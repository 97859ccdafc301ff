import Argand.Proofs.Resuming

/-!
Evaluation with fixed values.

A resolver is stateless if it has one answer for each name, whatever it was asked before.  Then it
makes no difference that an evaluation asks for a name only once: the result is the value of the
tree over those answers, where every occurrence of a variable is looked up afresh
(`Expr.eval_eq_value_of_stateless`).  This holds of errors too, since the first variable without a
value is the first one either way.

A table is such a resolver (`Expr.evaluate_ofTable`).  So the result over a table depends on the
variables of the tree and on nothing else in it, and it does not matter whether a value is looked up
or stands in the tree: `Expr.filledIn` puts the values of one table into the tree, and a variable
that this table does not hold is left to the next one.

Main statement: `Expr.evaluate_looks_up_afresh`.
-/

namespace Argand

variable {σ : Type}

/-- The resolver has the answers of the source, in each of its states. -/
def Resolver.Answers (resolver : Resolver σ) (source : Source) : Prop :=
  ∀ name state, (resolver name state).1 = source name

theorem Resolver.answers_ofTable (table : Environment) :
    (Resolver.ofTable table).Answers (.ofEnvironment table) :=
  fun _ () => rfl

theorem Source.extends_nil (source : Source) : source.Extends [] := by
  intro name value h
  rw [List.lookup_nil] at h
  cases h

theorem Source.Extends.append {source : Source} {environment : Environment}
    (h : source.Extends environment) {name : Char} {value : Complex}
    (hv : source name = .ok value) :
    source.Extends (environment ++ [(name, value)]) := by
  intro other value' hl
  rw [List.lookup_append, Option.or_eq_some_iff] at hl
  rcases hl with hl | ⟨-, hl⟩
  · exact h other value' hl
  · rw [List.lookup_cons] at hl
    by_cases he : other = name
    · simp only [he, beq_self_eq_true, Option.some.injEq] at hl
      rw [he, hv, hl]
    · rw [beq_false_of_ne he] at hl
      cases hl

namespace Expr

/-- With a stateless resolver, an evaluation has the value of the tree over its answers. -/
theorem eval_eq_value_of_stateless {resolver : Resolver σ} {source : Source}
    (ha : resolver.Answers source) (tree : Expr) {environment : Environment} (state : σ)
    (he : source.Extends environment) :
    (tree.eval resolver environment state).result = tree.value source ∧
      source.Extends (tree.eval resolver environment state).environment := by
  induction tree generalizing environment state with
  | literal value column => exact ⟨rfl, he⟩
  | var name column =>
    show (resolve resolver name environment state).result = source name ∧
      source.Extends (resolve resolver name environment state).environment
    obtain ⟨value, hl, hr⟩ | ⟨-, ⟨value, hv, hr⟩ | ⟨error, hv, hr⟩⟩ :=
      resolve_cases resolver name environment state
    · rw [hr]
      exact ⟨(he name value hl).symm, he⟩
    · rw [ha] at hv
      rw [hr]
      exact ⟨hv.symm, he.append hv⟩
    · rw [ha] at hv
      rw [hr]
      exact ⟨hv.symm, he⟩
  | unary op operand column ih =>
    rw [eval_unary]
    obtain ⟨hr, he'⟩ := ih state he
    exact ⟨congrArg (fun result => result.bind fun z => .ok (op.apply z)) hr, he'⟩
  | binary op left right column ihl ihr =>
    show _ = (left.value source).bind _ ∧ _
    obtain ⟨hl, he'⟩ := ihl state he
    obtain ⟨error, hf, heval⟩ | ⟨z, hf, heval⟩ :=
      eval_binary_cases resolver op left right column environment state
    · rw [heval, ← hl, hf]
      exact ⟨rfl, he'⟩
    · rw [heval, ← hl, hf]
      obtain ⟨hr, he''⟩ := ihr (left.eval resolver environment state).state he'
      exact ⟨congrArg (fun result => result.bind fun w => op.apply z w column) hr, he''⟩

/-- Over a table a tree has its value over the same table as a source. -/
theorem evaluate_ofTable (tree : Expr) (table : Environment) :
    (tree.evaluate (.ofTable table) ()).result = tree.value (.ofEnvironment table) :=
  (tree.eval_eq_value_of_stateless (Resolver.answers_ofTable table) () (Source.extends_nil _)).1

/-! ## The variables that matter -/

/-- The value of a tree depends on its own variables only. -/
theorem value_congr {source source' : Source} (tree : Expr)
    (h : ∀ name ∈ tree.variableNames, source name = source' name) :
    tree.value source = tree.value source' := by
  induction tree with
  | literal value column => rfl
  | var name column => exact h name (List.mem_singleton_self name)
  | unary op operand column ih =>
    exact congrArg (fun result => result.bind fun z => .ok (op.apply z)) (ih h)
  | binary op left right column ihl ihr =>
    have hl := ihl fun name hn => h name (mem_variableNames_binary.2 (.inl hn))
    have hr := ihr fun name hn => h name (mem_variableNames_binary.2 (.inr hn))
    simp only [value, hl, hr]

/-- Tables that agree on the variables of a tree give it the same result. -/
theorem evaluate_congr (tree : Expr) {table other : Environment}
    (h : ∀ name ∈ tree.variableNames, other.lookup name = table.lookup name) :
    (tree.evaluate (.ofTable other) ()).result = (tree.evaluate (.ofTable table) ()).result := by
  rw [evaluate_ofTable, evaluate_ofTable]
  refine tree.value_congr fun name hn => ?_
  simp only [Source.ofEnvironment, Resolver.ofTable, h name hn]

/-! ## Values in place of variables -/

/-- The tree with a literal in place of each variable that the table has a value for. -/
def filledIn (table : Environment) : Expr → Expr
  | literal value column => .literal value column
  | var name column =>
    match table.lookup name with
    | some value => .literal value column
    | none => .var name column
  | unary op operand column => .unary op (operand.filledIn table) column
  | binary op left right column => .binary op (left.filledIn table) (right.filledIn table) column

/-- What a table has filled in is not looked up any more. -/
theorem value_filledIn (tree : Expr) (given rest : Environment) :
    (tree.filledIn given).value (.ofEnvironment rest) =
      tree.value (.ofEnvironment (given ++ rest)) := by
  induction tree with
  | literal value column => rfl
  | var name column =>
    simp only [filledIn, value, Source.ofEnvironment, Resolver.ofTable, List.lookup_append]
    cases given.lookup name with
    | some value => rfl
    | none => rfl
  | unary op operand column ih => simp only [filledIn, value, ih]
  | binary op left right column ihl ihr => simp only [filledIn, value, ihl, ihr]

theorem evaluate_filledIn (tree : Expr) (given rest : Environment) :
    ((tree.filledIn given).evaluate (.ofTable rest) ()).result =
      (tree.evaluate (.ofTable (given ++ rest)) ()).result := by
  rw [evaluate_ofTable, evaluate_ofTable, value_filledIn]

/-- With a value for each of its variables the tree has none left. -/
theorem variableNames_filledIn {tree : Expr} {table : Environment}
    (h : ∀ name ∈ tree.variableNames, (table.lookup name).isSome) :
    (tree.filledIn table).variableNames = [] := by
  induction tree with
  | literal value column => rfl
  | var name column =>
    obtain ⟨value, hv⟩ := Option.isSome_iff_exists.1 (h name (List.mem_singleton_self name))
    simp only [filledIn, hv, variableNames]
  | unary op operand column ih => exact ih h
  | binary op left right column ihl ihr =>
    have hl := ihl fun name hn => h name (mem_variableNames_binary.2 (.inl hn))
    have hr := ihr fun name hn => h name (mem_variableNames_binary.2 (.inr hn))
    simp only [filledIn, variableNames, hl, hr, List.filter_nil, List.append_nil]

/-- **It does not show that a variable is asked for only once.**  Over a table a tree has the value,
or the first error from left to right, that it has when every occurrence of a variable is looked up
for itself.  Other names in the table make no difference, and neither does it to write the values of
variables into the tree: those of a part of the table, with the rest left to be looked up, or all of
them, with any resolver that is left to ask. -/
theorem evaluate_looks_up_afresh (tree : Expr) (table : List (Char × Complex)) :
    let result := (tree.evaluate (.ofTable table) ()).result
    result = tree.value (.ofEnvironment table) ∧
      (∀ other : List (Char × Complex),
        (∀ name ∈ tree.variableNames, other.lookup name = table.lookup name) →
          (tree.evaluate (.ofTable other) ()).result = result) ∧
      (∀ given rest : List (Char × Complex),
        (∀ name ∈ tree.variableNames, (given ++ rest).lookup name = table.lookup name) →
          ((tree.filledIn given).evaluate (.ofTable rest) ()).result = result) ∧
      ((∀ name ∈ tree.variableNames, (table.lookup name).isSome) →
        ∀ (σ : Type) (resolver : Resolver σ) (state : σ),
          ((tree.filledIn table).evaluate resolver state).result = result) := by
  intro result
  refine ⟨tree.evaluate_ofTable table, fun other h => tree.evaluate_congr h, ?_, ?_⟩
  · intro given rest h
    rw [evaluate_filledIn]
    exact tree.evaluate_congr h
  · intro h σ resolver state
    have hclosed := variableNames_filledIn h
    have hself : ∀ name ∈ tree.variableNames, (table ++ table).lookup name = table.lookup name := by
      intro name _
      rw [List.lookup_append, Option.or_self]
    calc ((tree.filledIn table).evaluate resolver state).result
        = (tree.filledIn table).value (.ofEnvironment table) :=
          evaluate_of_closed hclosed resolver state _
      _ = (tree.evaluate (.ofTable (table ++ table)) ()).result := by
          rw [value_filledIn, evaluate_ofTable]
      _ = result := tree.evaluate_congr hself

/-- The tree of `x/(x-x)+y`. -/
def ratioBeforeName : Expr :=
  .binary .add
    (.binary .div (.var 'x' 1) (.binary .sub (.var 'x' 4) (.var 'x' 6) 5) 2) (.var 'y' 9) 8

/-- The division fails first, although there is no value for the name behind it; and with a value
for that name too, no resolver is asked for it. -/
theorem evaluate_ratioBeforeName :
    let table := [('x', Complex.one)]
    let other := [('z', Complex.zero), ('x', Complex.one)]
    let full := [('x', Complex.one), ('y', Complex.i)]
    (ratioBeforeName.evaluate (.ofTable table) ()).result = .error (.divisionByZero 2) ∧
      (∀ name ∈ ratioBeforeName.variableNames, other.lookup name = table.lookup name) ∧
      (ratioBeforeName.evaluate (.ofTable other) ()).result = .error (.divisionByZero 2) ∧
      ((ratioBeforeName.filledIn other).evaluate (.ofTable []) ()).result =
        .error (.divisionByZero 2) ∧
      (∀ name ∈ ratioBeforeName.variableNames, (full.lookup name).isSome) ∧
      ((ratioBeforeName.filledIn full).evaluate .ofAnswers ⟨[], []⟩).result =
        (ratioBeforeName.evaluate (.ofTable full) ()).result := by
  intro table other full
  have hnames (p : Char → Prop) (hx : p 'x') (hy : p 'y') :
      ∀ name ∈ ratioBeforeName.variableNames, p name :=
    List.forall_mem_cons.2 ⟨hx, List.forall_mem_singleton.2 hy⟩
  have hz : (Complex.one - Complex.one).isZero = true := by decide +kernel
  obtain ⟨hvalue, hother, hfilled, -⟩ := ratioBeforeName.evaluate_looks_up_afresh table
  have hresult : (ratioBeforeName.evaluate (.ofTable table) ()).result =
      .error (.divisionByZero 2) := by
    have hx : Source.ofEnvironment table 'x' = .ok Complex.one := rfl
    have hdifference : BinaryOperator.sub.apply Complex.one Complex.one 5 =
        .ok (Complex.one - Complex.one) := rfl
    have hratio : BinaryOperator.div.apply Complex.one (Complex.one - Complex.one) 2 =
        .error (.divisionByZero 2) := by
      rw [BinaryOperator.apply, if_pos hz]
    rw [hvalue]
    simp only [ratioBeforeName, value, hx, Except.bind, hdifference, hratio]
  have hagree : ∀ name ∈ ratioBeforeName.variableNames,
      other.lookup name = table.lookup name := hnames _ rfl rfl
  have hfull : ∀ name ∈ ratioBeforeName.variableNames, (full.lookup name).isSome := hnames _ rfl rfl
  refine ⟨hresult, hagree, (hother other hagree).trans hresult, ?_, hfull, ?_⟩
  · refine (hfilled other [] ?_).trans hresult
    rwa [List.append_nil]
  · exact (ratioBeforeName.evaluate_looks_up_afresh full).2.2.2 hfull _ .ofAnswers ⟨[], []⟩

end Expr

end Argand
