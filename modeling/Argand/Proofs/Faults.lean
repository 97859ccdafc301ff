import Argand.Proofs.Answers
import Argand.Proofs.Groups
import Argand.Proofs.Messages
import Argand.Proofs.Printed

/-!
What goes wrong in a calculation at a terminal.

* An expression is refused as a text, or a division by zero comes up in it, or the line that belongs
  to one of its variables is no answer (`FailsOn`).
* Of a calculation the first expression fails, or that one has a value and the second one fails,
  with answers from the lines that the first one left (`Fails`).

A calculation shows a failure exactly for these reasons (`calculate_eq_error_iff`), and whatever the
reason is, the message is one line (`Fails.oneLine`).
-/

namespace Argand

namespace Shell

/-- What goes wrong with an expression whose answers are in these bytes. -/
inductive FailsOn (mode : Mode) (source : List Char) (bytes : List UInt8) : Failure → Prop
  | parse {e : ParseError} : parse mode source = .error e → FailsOn mode source bytes (.parse e)
  | division {tree : Expr} {column : Nat} : parse mode source = .ok tree →
      column ∈ tree.divisions →
      (tree.evaluate Terminal.resolver (.ofBytes bytes)).result = .error (.divisionByZero column) →
      FailsOn mode source bytes (.evaluation (.divisionByZero column))
  | answer {tree : Expr} {k : Nat} {name : Char} {e : EvaluationError} :
      parse mode source = .ok tree → tree.variableNames[k]? = some name →
      answerOf name (lineOf (Text.dropLines k bytes)) = .error e →
      (tree.evaluate Terminal.resolver (.ofBytes bytes)).result = .error e →
      FailsOn mode source bytes (.evaluation e)

/-- What goes wrong with a calculation whose answers are in these bytes. -/
inductive Fails (mode : Mode) (first : List Char) (second : Option (List Char))
    (bytes : List UInt8) : Failure → Prop
  | first {e : Failure} : FailsOn mode first bytes e → Fails mode first second bytes e
  | second {tree : Expr} {value : Complex} {source : List Char} {e : Failure} :
      parse mode first = .ok tree →
      (tree.evaluate Terminal.resolver (.ofBytes bytes)).result = .ok value →
      second = some source →
      FailsOn mode source (Text.dropLines tree.variableNames.length bytes) e →
      Fails mode first second bytes e

end Shell

/-! ## Failures of one line -/

theorem oneLine_answerOf {name : Char} (hn : name ≠ '\n') {bytes : List UInt8} {e : EvaluationError}
    (h : answerOf name (lineOf bytes) = .error e) : OneLine e.message := by
  cases hl : lineOf bytes with
  | ended =>
    rw [hl] at h
    cases h
    exact oneLine_unresolved hn (by decide)
  | malformed =>
    rw [hl] at h
    cases h
    exact oneLine_unresolved hn (by decide)
  | text line =>
    rw [hl] at h
    dsimp only [answerOf] at h
    cases hc : Complex.ofText line with
    | ok value =>
      rw [hc] at h
      cases h
    | error refused =>
      rw [hc] at h
      cases h
      exact oneLine_unresolved hn (oneLine_of_refused_line (decode?_of_lineOf hl) hc)

namespace Shell

theorem FailsOn.oneLine {mode : Mode} {source : List Char} {bytes : List UInt8} {e : Failure}
    (h : FailsOn mode source bytes e) : OneLine e.message := by
  cases h with
  | parse hp => exact (located_of_parse_error hp).oneLine
  | division _ _ _ => exact oneLine_divisionByZero _
  | @answer tree k name e hp hname ha _ =>
    have hletter : name ≠ '\n' := by
      rintro rfl
      have hm := List.mem_of_getElem? hname
      exact absurd (isBlank_of_isAlphabetic (isLettered_of_parse hp _ hm)) (by decide)
    exact oneLine_answerOf hletter ha

/-- Whatever goes wrong in a calculation, its message is one line. -/
theorem Fails.oneLine {mode : Mode} {first : List Char} {second : Option (List Char)}
    {bytes : List UInt8} {e : Failure} (h : Fails mode first second bytes e) :
    OneLine e.message := by
  cases h with
  | first h => exact h.oneLine
  | second _ _ _ h => exact h.oneLine

/-! ## Calculations that fail -/

variable {mode : Mode} {index : Nat} {source : List Char} {bytes : List UInt8} {t : Terminal}

theorem evaluateShown_result {tree : Expr} (hp : parse mode source = .ok tree) :
    (evaluateShown mode index source t).1 =
      (tree.evaluate Terminal.resolver t).result.mapError .evaluation := by
  unfold evaluateShown
  rw [hp]
  dsimp only
  cases (tree.evaluate Terminal.resolver t).result <;> rfl

theorem evaluateShown_ofBytes_eq_error_iff {e : Failure} :
    (evaluateShown mode index source (.ofBytes bytes)).1 = .error e ↔
      FailsOn mode source bytes e := by
  constructor
  · intro he
    cases hp : parse mode source with
    | error e' =>
      rw [evaluateShown, hp] at he
      cases he
      exact .parse hp
    | ok tree =>
      rw [evaluateShown_result hp] at he
      cases hr : (tree.evaluate Terminal.resolver (.ofBytes bytes)).result with
      | ok value =>
        rw [hr] at he
        cases he
      | error e' =>
        rw [hr] at he
        cases he
        rcases tree.eval_error Terminal.resolver [] _ hr with ⟨name, hm⟩ | ⟨column, hc, rfl⟩
        · obtain ⟨k, hname, ha⟩ := Terminal.exists_refused_line rfl hm
          exact .answer hp hname ha hr
        · exact .division hp hc hr
  · intro h
    cases h with
    | parse hp => rw [evaluateShown, hp]
    | division hp _ hr =>
      rw [evaluateShown_result hp, hr]
      rfl
    | answer hp _ _ hr =>
      rw [evaluateShown_result hp, hr]
      rfl

theorem evaluateShown_eq_error_iff (h : t.refusal = none) {e : Failure} :
    (evaluateShown mode index source t).1 = .error e ↔ FailsOn mode source t.unread e := by
  rw [(ignoresOutput_evaluateShown mode index source).eq h]
  exact evaluateShown_ofBytes_eq_error_iff

/-- An expression that has a value took a line for each of its variables. -/
theorem exists_tree_of_evaluateShown {z : Complex}
    (h : evaluateShown mode index source (.ofBytes bytes) = (.ok z, t)) :
    ∃ tree, parse mode source = .ok tree ∧
      (tree.evaluate Terminal.resolver (.ofBytes bytes)).result = .ok z ∧
      t.refusal = none ∧ t.unread = Text.dropLines tree.variableNames.length bytes := by
  obtain ⟨said, hd, -⟩ := dialogue_evaluateShown mode index source (t := .ofBytes bytes) rfl
  have hresult := congrArg Prod.fst h
  rw [h] at hd
  cases hp : parse mode source with
  | error e =>
    rw [evaluateShown, hp] at hresult
    cases hresult
  | ok tree =>
    rw [evaluateShown_result hp] at hresult
    cases hr : (tree.evaluate Terminal.resolver (.ofBytes bytes)).result with
    | error e =>
      rw [hr] at hresult
      cases hresult
    | ok value =>
      rw [hr] at hresult
      cases hresult
      rw [evaluateShown, hp] at h
      dsimp only at h
      rw [hr] at h
      have hunread := (Terminal.evaluate_takes_lines hr).1
      rw [Text.flatten_drop_lines] at hunread
      exact ⟨tree, rfl, hr, hd.refusal, (congrArg (·.2.unread) h).symm.trans hunread⟩

/-- An expression that has a value does not fail. -/
theorem not_failsOn_of_value {tree : Expr} {value : Complex} (hp : parse mode source = .ok tree)
    (hr : (tree.evaluate Terminal.resolver (.ofBytes bytes)).result = .ok value) (e : Failure) :
    ¬FailsOn mode source bytes e := by
  intro h
  have herror : (evaluateShown mode 1 source (.ofBytes bytes)).1 = .error e :=
    evaluateShown_ofBytes_eq_error_iff.2 h
  rw [evaluateShown_result hp, hr] at herror
  cases herror

/-- Where the first expression has a value, the second one is what fails. -/
theorem fails_iff_of_value {tree : Expr} {value : Complex} (hp : parse mode source = .ok tree)
    (hr : (tree.evaluate Terminal.resolver (.ofBytes bytes)).result = .ok value)
    {second : Option (List Char)} {e : Failure} :
    Fails mode source second bytes e ↔
      ∃ text, second = some text ∧
        FailsOn mode text (Text.dropLines tree.variableNames.length bytes) e := by
  constructor
  · intro h
    cases h with
    | first h => exact absurd h (not_failsOn_of_value hp hr e)
    | second hp' _ hs h =>
      cases hp.symm.trans hp'
      exact ⟨_, hs, h⟩
  · rintro ⟨text, hs, h⟩
    exact .second hp hr hs h

/-- A calculation fails exactly where something is wrong with it. -/
theorem calculate_eq_error_iff {options : Options} {first : List Char}
    {second : Option (List Char)} {e : Failure} :
    (calculate options first second (.ofBytes bytes)).1 = .error e ↔
      Fails options.mode first second bytes e := by
  unfold calculate
  rcases hrun : evaluateShown options.mode 1 first (.ofBytes bytes) with ⟨e' | z, t⟩
  · have hfirst : (evaluateShown options.mode 1 first (.ofBytes bytes)).1 = .error e' :=
      congrArg Prod.fst hrun
    constructor
    · rintro ⟨⟩
      exact .first (evaluateShown_ofBytes_eq_error_iff.1 hfirst)
    · intro h
      cases h with
      | first h =>
        cases hfirst.symm.trans (evaluateShown_ofBytes_eq_error_iff.2 h)
        rfl
      | second hp hr _ _ =>
        rw [evaluateShown_result hp, hr] at hfirst
        cases hfirst
  · obtain ⟨tree, hp, hr, hrefusal, hunread⟩ := exists_tree_of_evaluateShown hrun
    rw [fails_iff_of_value hp hr]
    cases second with
    | none =>
      constructor
      · exact nofun
      · rintro ⟨text, hs, -⟩
        cases hs
    | some second =>
      have hsecond : (evaluateShown options.mode 2 second t).1 = .error e ↔
          FailsOn options.mode second (Text.dropLines tree.variableNames.length bytes) e :=
        hunread ▸ evaluateShown_eq_error_iff hrefusal
      simp only [Option.some.injEq, exists_eq_left', ← hsecond]
      rcases evaluateShown options.mode 2 second t with ⟨e' | w, t'⟩
      · constructor
        · rintro ⟨⟩
          rfl
        · rintro ⟨⟩
          rfl
      · exact ⟨nofun, nofun⟩

end Shell

end Argand
