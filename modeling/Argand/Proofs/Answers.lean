import Argand.Proofs.Dialogue
import Mathlib.Data.List.Induction

/-!
Answers, line by line.

An input is a number of lines, and it can be cut into them in one way only (`Text.isLines_iff`).  A
question to the prompting resolver comes to one of two things:

| the output | the question |
| :-- | :-- |
| takes the prompt | takes the first line left, whatever it holds, and is answered from it alone |
| refuses it | fails and leaves the input as it was |

So the questions and the lines stay in step, whatever lines there are and whenever the output fails:
a question is answered from the line whose number is that of the prompts taken before it
(`Terminal.ask_resolverAt`).  An evaluation asks for its variables in their order, and it has a
value only if each of them got one.

Main statement: `Terminal.answers_line_by_line`.
-/

namespace Argand

/-! ## One question -/

/-- The value of a variable from its line, if there is one. -/
def answerFrom (name : Char) : Option (List UInt8) → Except EvaluationError Complex
  | none => .error (.unresolved name "end of input")
  | some line =>
    match Text.decode? line with
    | none => .error (.unresolved name "stream did not contain valid UTF-8")
    | some characters => (Complex.ofText characters).mapError fun e => .unresolved name e.message

theorem answerOf_lineOf (name : Char) (bytes : List UInt8) :
    answerOf name (lineOf bytes) = answerFrom name (Text.lines bytes).head? := by
  unfold lineOf
  by_cases h : bytes = []
  · subst h
    rfl
  · rw [if_neg h, Text.lines_eq_cons h]
    dsimp only [List.head?_cons, answerFrom]
    cases Text.decode? (Text.splitLine bytes).1 <;> rfl

/-- The line with a number is the first one behind so many others. -/
theorem answerFrom_lines (name : Char) (bytes : List UInt8) (k : Nat) :
    answerFrom name (Text.lines bytes)[k]? = answerOf name (lineOf (Text.dropLines k bytes)) := by
  rw [answerOf_lineOf, Text.lines_dropLines, List.head?_drop]

/-- The reason that a refusal gives. -/
def Refusal.reason : Refusal → String
  | write reason => reason
  | flush reason => reason

namespace Terminal

theorem resolver_of_refusal_eq_none {t : Terminal} (h : t.refusal = none) (name : Char) :
    (resolver name t).1 = answerFrom name (Text.lines t.unread).head? ∧
      Text.lines (resolver name t).2.unread = (Text.lines t.unread).tail := by
  rw [resolver_eq h]
  exact ⟨answerOf_lineOf name t.unread,
    Text.lines_splitLine t.unread ▸ congrArg _ (readLine_unread _)⟩

theorem resolver_of_refusal_eq_some {t : Terminal} {refusal : Refusal}
    (h : t.refusal = some refusal) (name : Char) :
    (resolver name t).1 = .error (.unresolved name refusal.reason) ∧
      (resolver name t).2.unread = t.unread := by
  unfold resolver prompt
  rw [h]
  cases refusal <;> exact ⟨rfl, rfl⟩

/-! ## Questions one after another -/

/-- The prompting resolver at an output that takes some prompts and refuses others: `output k` says
what it does with the one of question number `k`. -/
def resolverAt (output : Nat → Option Refusal) : Resolver (Terminal × Nat) := fun name (t, k) =>
  let (answer, t) := resolver name { t with refusal := output k }
  (answer, t, k + 1)

/-- How many of the first prompts the output takes. -/
def taken (output : Nat → Option Refusal) (k : Nat) : Nat :=
  (List.range k).countP fun j => (output j).isNone

/-- What question number `k` comes to. -/
def answerAt (output : Nat → Option Refusal) (lines : List (List UInt8)) (k : Nat) (name : Char) :
    Except EvaluationError Complex :=
  match output k with
  | none => answerFrom name lines[taken output k]?
  | some refusal => .error (.unresolved name refusal.reason)

theorem taken_succ (output : Nat → Option Refusal) (k : Nat) :
    taken output (k + 1) = taken output k + if (output k).isNone then 1 else 0 := by
  rw [taken, List.range_succ, List.countP_append, List.countP_singleton, ← taken]

/-- A question takes the first line that is left, or it fails and takes none. -/
theorem resolverAt_step (output : Nat → Option Refusal) {lines : List (List UInt8)} {t : Terminal}
    {k : Nat} (h : Text.lines t.unread = lines.drop (taken output k)) (name : Char) :
    (resolverAt output name (t, k)).1 = answerAt output lines k name ∧
      Text.lines (resolverAt output name (t, k)).2.1.unread =
        lines.drop (taken output (k + 1)) := by
  rw [taken_succ]
  cases ho : output k with
  | none =>
    obtain ⟨ha, hl⟩ := resolver_of_refusal_eq_none (t := { t with refusal := output k }) ho name
    refine ⟨?_, ?_⟩
    · rw [answerAt, ho, ← List.head?_drop, ← h]
      exact ha
    · rw [Option.isNone_none, if_pos rfl, ← List.tail_drop, ← h]
      exact hl
  | some refusal =>
    obtain ⟨ha, hl⟩ := resolver_of_refusal_eq_some (t := { t with refusal := output k }) ho name
    refine ⟨?_, ?_⟩
    · rw [answerAt, ho]
      exact ha
    · rw [Option.isNone_some, if_neg Bool.false_ne_true, Nat.add_zero, ← h]
      exact congrArg Text.lines hl

/-- Questions and lines stay in step. -/
theorem ask_resolverAt (output : Nat → Option Refusal) (names : List Char) (t : Terminal) :
    let run := (resolverAt output).ask names (t, 0)
    run.1 = names.mapIdx (fun k name => (name, answerAt output (Text.lines t.unread) k name)) ∧
      Text.lines run.2.1.unread = (Text.lines t.unread).drop (taken output names.length) ∧
      run.2.2 = names.length := by
  induction names using List.reverseRecOn with
  | nil => exact ⟨rfl, rfl, rfl⟩
  | append_singleton names name ih =>
    obtain ⟨ha, hl, hk⟩ := ih
    dsimp only at ha hl hk ⊢
    rw [ask_append, ha, List.mapIdx_concat, List.length_append]
    generalize ((resolverAt output).ask names (t, 0)).2 = state at hl hk
    obtain ⟨t', k⟩ := state
    obtain rfl : k = names.length := hk
    obtain ⟨hanswer, hlines⟩ := resolverAt_step output hl name
    exact ⟨congrArg (fun answer => _ ++ [(name, answer)]) hanswer, hlines, rfl⟩

/-! ## An output that takes everything -/

theorem taken_none (k : Nat) : taken (fun _ => none) k = k :=
  (List.countP_eq_length.2 fun _ _ => rfl).trans List.length_range

/-- Where nothing is refused, counting the questions changes nothing. -/
theorem ask_resolverAt_none {t : Terminal} (h : t.refusal = none) (names : List Char) (k : Nat) :
    (resolverAt fun _ => none).ask names (t, k) =
      ((resolver.ask names t).1, (resolver.ask names t).2, k + names.length) := by
  induction names generalizing t k with
  | nil => rfl
  | cons name names ih =>
    have ht : { t with refusal := none } = t := by rw [← h]
    have hq := (Dialogue.question h name).refusal
    simp only [Resolver.ask, resolverAt, ht, ih hq]
    rw [List.length_cons, Nat.add_assoc, Nat.add_comm 1]

/-- What had been shown when a line was first missing. -/
theorem hear_awaited (t : Terminal) (u : Utterance) :
    (t.hear u).awaited =
      if t.unread = [] then t.awaited <|> some (t.written ++ u.text) else t.awaited := by
  unfold hear readLine
  rw [write_unread]
  split <;> rfl

/-- If there are fewer lines than questions, the one that found none had its prompt shown, as had
those before it and no other. -/
theorem awaited_ask {t : Terminal} (h : t.refusal = none) (names : List Char) :
    (resolver.ask names t).2.awaited =
      if (Text.lines t.unread).length < names.length then
        t.awaited <|> some (t.written ++
          transcript ((names.take ((Text.lines t.unread).length + 1)).map .variablePrompt))
      else t.awaited := by
  induction names generalizing t with
  | nil => rfl
  | cons name names ih =>
    have hq := (Dialogue.question h name).refusal
    have hlines := (resolver_of_refusal_eq_none h name).2
    show (resolver.ask names (resolver name t).2).2.awaited = _
    rw [ih hq, hlines, resolver_eq h]
    dsimp only
    rw [hear_awaited]
    by_cases hu : t.unread = []
    · -- The line was missing at this question already, and nothing later changes what is noted.
      have hnil : Text.lines t.unread = [] := by rw [hu]; rfl
      simp only [hnil, if_pos hu, List.tail_nil, List.length_nil, List.length_cons,
        Nat.succ_pos, if_true, Nat.zero_add, List.take_succ_cons, List.take_zero, List.map_cons,
        List.map_nil, transcript_singleton]
      cases t.awaited <;> simp
    · have hw : (t.hear (.variablePrompt name)).written =
          t.written ++ (Utterance.variablePrompt name).text := readLine_written _
      have happend (names : List Char) :
          t.written ++ (Utterance.variablePrompt name).text ++
            transcript (names.map .variablePrompt) =
            t.written ++ transcript ((name :: names).map .variablePrompt) := String.append_assoc ..
      rw [Text.lines_eq_cons hu, List.tail_cons, List.length_cons, List.length_cons, if_neg hu, hw,
        happend, List.take_succ_cons]
      simp only [Nat.succ_lt_succ_iff]

/-- Question number `k` is answered from line number `k`. -/
theorem ask_resolver {t : Terminal} (h : t.refusal = none) (names : List Char) :
    (resolver.ask names t).1 =
        names.mapIdx (fun k name => (name, answerFrom name (Text.lines t.unread)[k]?)) ∧
      Text.lines (resolver.ask names t).2.unread = (Text.lines t.unread).drop names.length := by
  obtain ⟨ha, hl, -⟩ := ask_resolverAt (fun _ => none) names t
  simp only [ask_resolverAt_none h, answerAt, taken_none] at ha hl
  exact ⟨ha, hl⟩

/-! ## Evaluations -/

variable {t : Terminal} {tree : Expr} {value : Complex}

/-- An evaluation that has a value asked for all variables of the tree, and each question got
one. -/
theorem asked_of_evaluate (hv : (tree.evaluate resolver t).result = .ok value) :
    resolver.ask tree.variableNames t =
        ((tree.evaluate resolver t).asked, (tree.evaluate resolver t).state) ∧
      ∀ name error, (name, .error error) ∉ (tree.evaluate resolver t).asked := by
  have hasks := tree.asks resolver [] t
  have hall := hasks.all value hv
  rw [unbound_nil] at hall
  exact ⟨hall ▸ hasks.conversation, hasks.answered hv⟩

/-- A question of an evaluation that got no value was for a variable of the tree, and the line that
belongs to the variable is no answer. -/
theorem exists_refused_line (h : t.refusal = none) {name : Char} {e : EvaluationError}
    (hm : (name, .error e) ∈ (tree.evaluate resolver t).asked) :
    ∃ k, tree.variableNames[k]? = some name ∧
      answerOf name (lineOf (Text.dropLines k t.unread)) = .error e := by
  have hasks : Asks resolver tree.variableNames [] t (tree.evaluate resolver t) :=
    tree.asks resolver [] t
  have hahead := hasks.ahead
  rw [unbound_nil] at hahead
  have hanswers := (ask_resolver h ((tree.evaluate resolver t).asked.map Prod.fst)).1
  rw [hasks.conversation] at hanswers
  obtain ⟨k, hk⟩ := List.mem_iff_getElem?.1 hm
  have hname : ((tree.evaluate resolver t).asked.map Prod.fst)[k]? = some name := by
    rw [List.getElem?_map, hk]
    rfl
  have hanswer := congrArg (·[k]?) hanswers
  dsimp only at hanswer
  rw [hk, List.getElem?_mapIdx, hname] at hanswer
  obtain ⟨more, hmore⟩ := hahead
  obtain ⟨hlt, -⟩ := List.getElem?_eq_some_iff.1 hname
  refine ⟨k, ?_, ?_⟩
  · rw [← hmore, List.getElem?_append_left hlt]
    exact hname
  · rw [← answerFrom_lines]
    exact (congrArg Prod.snd (Option.some.inj hanswer)).symm

/-- Where the output refuses prompts, only a tree without variables has a value. -/
theorem variableNames_of_refusal {refusal : Refusal} (h : t.refusal = some refusal)
    (hv : (tree.evaluate resolver t).result = .ok value) : tree.variableNames = [] := by
  obtain ⟨hask, hok⟩ := asked_of_evaluate hv
  rcases hn : tree.variableNames with _ | ⟨name, names⟩
  · rfl
  · rw [hn] at hask
    have hfirst := congrArg Prod.fst hask
    rw [Resolver.ask] at hfirst
    dsimp only at hfirst
    rw [(resolver_of_refusal_eq_some h name).1] at hfirst
    exact absurd (hfirst ▸ List.mem_cons_self) (hok name (.unresolved name refusal.reason))

/-- Each variable of a tree that has a value got the one in the line of its own. -/
theorem evaluate_takes_lines (hv : (tree.evaluate resolver t).result = .ok value) :
    let run := tree.evaluate resolver t
    run.state.unread = ((Text.lines t.unread).drop tree.variableNames.length).flatten ∧
      run.state.written = t.written ++ transcript (tree.variableNames.map .variablePrompt) ∧
      ∀ (k : Nat) (name : Char), tree.variableNames[k]? = some name →
        ∃ line z, (Text.lines t.unread)[k]? = some line ∧ answerFrom name (some line) = .ok z ∧
          run.environment.lookup name = some z := by
  intro run
  obtain ⟨hask, hok⟩ := asked_of_evaluate hv
  cases hr : t.refusal with
  | some refusal =>
    have hn : tree.variableNames = [] := variableNames_of_refusal hr hv
    rw [hn] at hask ⊢
    have hstate : run.state = t := (congrArg Prod.snd hask).symm
    rw [hstate]
    refine ⟨(Text.flatten_lines _).symm, String.append_empty.symm, fun k name hk => ?_⟩
    cases hk
  | none =>
    obtain ⟨hanswers, hlines⟩ := ask_resolver hr tree.variableNames
    have hd := Dialogue.questions hr tree.variableNames
    rw [hask] at hanswers hlines hd
    refine ⟨?_, hd.written, fun k name hk => ?_⟩
    · rw [← hlines, Text.flatten_lines]
    · have hq : run.asked[k]? = some (name, answerFrom name (Text.lines t.unread)[k]?) := by
        rw [show run.asked = _ from hanswers, List.getElem?_mapIdx, hk]
        rfl
      have hm := List.mem_of_getElem? hq
      cases ha : answerFrom name (Text.lines t.unread)[k]? with
      | error e =>
        rw [ha] at hm
        exact absurd hm (hok name e)
      | ok z =>
        rw [ha] at hm
        have hlookup : run.environment.lookup name = some z :=
          ((tree.asks resolver [] t).lookup_iff tree.nodup_variableNames).2 (.inr hm)
        cases hline : (Text.lines t.unread)[k]? with
        | none =>
          rw [hline] at ha
          cases ha
        | some line => exact ⟨line, z, rfl, hline ▸ ha, hlookup⟩

/-- Questions at a terminal are answered line by line.  The input has its lines, and no others.  Of
questions one after another, number `k` is answered from the line whose number is that of the
prompts taken before it, or fails where its own prompt is refused, and exactly the lines of the
prompts taken are gone.  Where the output takes everything that is one line and one prompt for each
question, and by the time that a line is first missing the prompt of the question that misses it has
been shown.  An evaluation that has a value took a line for each variable of the tree, in their
order, and the variable has the value in its line. -/
theorem answers_line_by_line (t : Terminal) :
    (∀ lines, Text.IsLines t.unread lines ↔ lines = Text.lines t.unread) ∧
    (∀ output names,
      let run := (resolverAt output).ask names (t, 0)
      run.1 = names.mapIdx (fun k name => (name, answerAt output (Text.lines t.unread) k name)) ∧
        run.2.1.unread = ((Text.lines t.unread).drop (taken output names.length)).flatten) ∧
    (t.refusal = none → ∀ names,
      let run := resolver.ask names t
      run.1 = names.mapIdx (fun k name => (name, answerFrom name (Text.lines t.unread)[k]?)) ∧
        run.2.unread = ((Text.lines t.unread).drop names.length).flatten ∧
        run.2.written = t.written ++ transcript (names.map .variablePrompt) ∧
        run.2.awaited =
          if (Text.lines t.unread).length < names.length then
            t.awaited <|> some (t.written ++
              transcript ((names.take ((Text.lines t.unread).length + 1)).map .variablePrompt))
          else t.awaited) ∧
    ∀ (tree : Expr) (value : Complex), (tree.evaluate resolver t).result = .ok value →
      let run := tree.evaluate resolver t
      run.state.unread = ((Text.lines t.unread).drop tree.variableNames.length).flatten ∧
        run.state.written = t.written ++ transcript (tree.variableNames.map .variablePrompt) ∧
        ∀ (k : Nat) (name : Char), tree.variableNames[k]? = some name →
          ∃ line z, (Text.lines t.unread)[k]? = some line ∧ answerFrom name (some line) = .ok z ∧
            run.environment.lookup name = some z := by
  refine ⟨fun _ => Text.isLines_iff, fun output names => ?_, fun h names => ?_, fun _ _ =>
    evaluate_takes_lines⟩
  · obtain ⟨ha, hl, -⟩ := ask_resolverAt output names t
    exact ⟨ha, hl ▸ (Text.flatten_lines _).symm⟩
  · obtain ⟨ha, hl⟩ := ask_resolver h names
    exact ⟨ha, hl ▸ (Text.flatten_lines _).symm, (Dialogue.questions h names).written,
      awaited_ask h names⟩

/-- Three questions to two lines, of which the second one is not text; and a variable alone. -/
theorem answers_line_by_line_undecodable :
    let t := ofBytes [49, 10, 255, 10]
    t.refusal = none ∧
      (resolver.ask ['z', 'w', 'x'] t).1 =
        [('z', .ok .one), ('w', .error (.unresolved 'w' "stream did not contain valid UTF-8")),
          ('x', .error (.unresolved 'x' "end of input"))] ∧
      (resolver.ask ['z', 'w', 'x'] t).2.awaited = some "Value for z: Value for w: Value for x: " ∧
      ((resolverAt fun k => if k = 0 then some (.flush "broken pipe") else none).ask
          ['z', 'w'] (t, 0)).1 =
        [('z', .error (.unresolved 'z' "broken pipe")), ('w', .ok .one)] ∧
      ((Expr.var 'z' 1).evaluate resolver t).result = .ok .one ∧
      ((Expr.var 'z' 1).evaluate resolver t).state.unread = [255, 10] := by
  intro t
  have hlines : Text.lines t.unread = [[49, 10], [255, 10]] := rfl
  have hone (name : Char) : answerFrom name (some [49, 10]) = .ok .one := by
    have hd : Text.decode? [49, 10] = some ['1', '\n'] := by decide +kernel
    have ht : Complex.ofText ['1', '\n'] = .ok .one := by decide +kernel
    simp only [answerFrom, hd, ht, Except.mapError]
  have hbad (name : Char) : answerFrom name (some [255, 10]) =
      .error (.unresolved name "stream did not contain valid UTF-8") := by
    have hd : Text.decode? [255, 10] = none := by decide +kernel
    simp only [answerFrom, hd]
  obtain ⟨-, hrefused, htaken, hvalue⟩ := answers_line_by_line t
  obtain ⟨hanswers, -, -, hawaited⟩ := htaken rfl ['z', 'w', 'x']
  have hz : (resolver 'z' t).1 = .ok .one :=
    (resolver_of_refusal_eq_none rfl 'z').1.trans (hone 'z')
  have hresult : ((Expr.var 'z' 1).evaluate resolver t).result = .ok .one := by
    show (resolve resolver 'z' [] t).result = _
    obtain ⟨_, hl, -⟩ | ⟨-, ⟨z, ha, hr⟩ | ⟨e, ha, -⟩⟩ := resolve_cases resolver 'z' [] t
    · cases hl
    · rw [hr, ← ha, hz]
    · cases hz.symm.trans ha
  refine ⟨rfl, ?_, ?_, ?_, hresult, (hvalue _ _ hresult).1⟩
  · rw [hanswers, hlines]
    show [('z', answerFrom 'z' (some [49, 10])), ('w', answerFrom 'w' (some [255, 10])), _] = _
    rw [hone, hbad]
    rfl
  · rw [hawaited, hlines]
    rfl
  · rw [(hrefused _ _).1, hlines]
    show [_, ('w', answerFrom 'w' (some [49, 10]))] = _
    rw [hone]
    rfl

end Terminal

end Argand
