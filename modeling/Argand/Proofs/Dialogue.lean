import Argand.Proofs.Lines
import Argand.Proofs.Questions
import Argand.Shell.Session

/-!
What is said at a terminal.

A dialogue is a list of utterances.  Each is a text of its own, and those that ask for something
take the next line (`Dialogue`).  So a dialogue tells at once what was written and how many lines
are gone, and it is put together from the parts of a calculation, one behind the other.

No part of it looks at what was written before (`IgnoresOutput`): with some output in front of it,
it does the same and its own output comes behind that.  For an evaluation this is a statement on
resolvers: two resolvers that do the same on corresponding states make the same evaluation of them
(`Expr.eval_map`).
-/

namespace Argand

/-! ## Reading a line -/

/-- What comes of asking for a line where these bytes are unread. -/
def lineOf (bytes : List UInt8) : Line :=
  if bytes = [] then .ended
  else match Text.decode? (Text.splitLine bytes).1 with
    | none => .malformed
    | some characters => .text characters

theorem lineOf_ne_ended {bytes : List UInt8} (h : bytes ≠ []) : lineOf bytes ≠ .ended := by
  unfold lineOf
  rw [if_neg h]
  split <;> exact nofun

theorem decode?_of_lineOf {bytes : List UInt8} {characters : List Char}
    (h : lineOf bytes = .text characters) :
    Text.decode? (Text.splitLine bytes).1 = some characters := by
  unfold lineOf at h
  by_cases hb : bytes = []
  · rw [if_pos hb] at h
    cases h
  · rw [if_neg hb] at h
    split at h
    · cases h
    · next hd =>
      cases h
      exact hd

namespace Terminal

variable (terminal : Terminal)

theorem readLine_line : terminal.readLine.1 = lineOf terminal.unread := by
  unfold readLine lineOf
  by_cases h : terminal.unread = []
  · rw [if_pos h, if_pos h]
  · exact (congrArg Prod.fst (if_neg h)).trans (if_neg h).symm

theorem readLine_unread : terminal.readLine.2.unread = (Text.splitLine terminal.unread).2 := by
  unfold readLine
  by_cases h : terminal.unread = []
  · rw [if_pos h, h]
    rfl
  · rw [if_neg h]

theorem readLine_written : terminal.readLine.2.written = terminal.written := by
  unfold readLine
  split <;> rfl

theorem readLine_refusal : terminal.readLine.2.refusal = terminal.refusal := by
  unfold readLine
  split <;> rfl

end Terminal

/-! ## Corresponding states -/

/-- The evaluation with its state replaced. -/
def Evaluation.mapState {σ τ : Type} (f : σ → τ) (run : Evaluation σ) : Evaluation τ :=
  ⟨run.result, run.environment, f run.state, run.lookups⟩

section

variable {σ τ : Type} {resolver : Resolver σ} {resolver' : Resolver τ} {f : σ → τ}
  (h : ∀ name state, resolver' name (f state) =
    ((resolver name state).1, f (resolver name state).2))

include h

theorem resolve_map (name : Char) (environment : Environment) (state : σ) :
    resolve resolver' name environment (f state) =
      (resolve resolver name environment state).mapState f := by
  unfold resolve
  rw [h]
  cases environment.lookup name with
  | some value => rfl
  | none => rcases resolver name state with ⟨_ | _, _⟩ <;> rfl

/-- Resolvers that do the same on corresponding states make the same evaluation of them. -/
theorem Expr.eval_map (tree : Expr) (environment : Environment) (state : σ) :
    tree.eval resolver' environment (f state) =
      (tree.eval resolver environment state).mapState f := by
  induction tree generalizing environment state with
  | literal value column => rfl
  | var name column => exact resolve_map h name environment state
  | unary op operand column ih =>
    rw [eval_unary, eval_unary, ih]
    rfl
  | binary op left right column ihl ihr =>
    rw [Expr.eval, Expr.eval, ihl]
    obtain ⟨_ | z, environment, state, lookups⟩ := left.eval resolver environment state
    · rfl
    · dsimp only [Evaluation.mapState]
      rw [ihr]
      rfl

end

/-! ## Output that came before -/

namespace Terminal

/-- The terminal with what another one has shown in front of its own output. -/
def behind (terminal earlier : Terminal) : Terminal :=
  { terminal with
    written := earlier.written ++ terminal.written
    awaited := earlier.awaited <|> terminal.awaited.map (earlier.written ++ ·) }

/-- A part of a dialogue does the same whatever was written before, and its own output comes behind
that. -/
def IgnoresOutput {α : Type} (part : Terminal → α × Terminal) : Prop :=
  ∀ terminal earlier, part (terminal.behind earlier) =
    ((part terminal).1, (part terminal).2.behind earlier)

/-- A terminal that takes everything is one without output behind its own. -/
theorem ofBytes_behind {terminal : Terminal} (h : terminal.refusal = none) :
    (ofBytes terminal.unread).behind terminal = terminal := by
  obtain ⟨unread, written, refusal, awaited⟩ := terminal
  obtain rfl : refusal = none := h
  simp [ofBytes, behind]

/-- Such a part depends on the unread input only. -/
theorem IgnoresOutput.eq {α : Type} {part : Terminal → α × Terminal} (hp : IgnoresOutput part)
    {terminal : Terminal} (h : terminal.refusal = none) :
    part terminal = ((part (ofBytes terminal.unread)).1,
      (part (ofBytes terminal.unread)).2.behind terminal) := by
  rw [← hp, ofBytes_behind h]

theorem write_behind (terminal earlier : Terminal) (text : String) :
    (terminal.behind earlier).write text = (terminal.write text).behind earlier := by
  simp only [write, behind, String.append_assoc]

theorem ignoresOutput_readLine : IgnoresOutput readLine := by
  intro terminal earlier
  unfold readLine
  by_cases h : terminal.unread = []
  · rw [if_pos h, if_pos (show (terminal.behind earlier).unread = [] from h)]
    simp only [behind, Prod.mk.injEq, true_and, mk.injEq]
    cases earlier.awaited <;> cases terminal.awaited <;> rfl
  · rw [if_neg h, if_neg (show (terminal.behind earlier).unread ≠ [] from h)]
    rfl

theorem ignoresOutput_prompt (text : String) : IgnoresOutput (prompt · text) := by
  intro terminal earlier
  have hw := write_behind terminal earlier text
  obtain ⟨unread, written, refusal, awaited⟩ := terminal
  rcases refusal with _ | ⟨reason⟩ | ⟨reason⟩
  · exact congrArg (Prod.mk none) hw
  · rfl
  · exact congrArg (Prod.mk (some reason)) hw

theorem ignoresOutput_resolver (name : Char) : IgnoresOutput (resolver name) := by
  intro terminal earlier
  have hp := ignoresOutput_prompt ("Value for " ++ String.singleton name ++ ": ") terminal earlier
  dsimp only at hp
  unfold resolver
  rw [hp]
  rcases terminal.prompt ("Value for " ++ String.singleton name ++ ": ") with ⟨_ | reason, t⟩
  · have hr := ignoresOutput_readLine t earlier
    dsimp only
    rw [hr]
    rcases t.readLine with ⟨_ | _ | line, t'⟩
    · rfl
    · rfl
    · dsimp only
      cases Complex.ofText line <;> rfl
  · rfl

end Terminal

/-! ## Utterances -/

/-- Something that is said in a session. -/
inductive Utterance where
  | firstPrompt
  | secondPrompt
  | variablePrompt (name : Char)
  /-- An expression with its value. -/
  | shown (index : Nat) (tree : Expr) (value : Complex)
  | verdict (comparison : Comparison)
  | failure (e : Failure)
  /-- The empty line behind a round. -/
  | separator

namespace Utterance

def text : Utterance → String
  | firstPrompt => "Expression 1: "
  | secondPrompt => "Expression 2 (press ENTER to skip comparison): "
  | variablePrompt name => "Value for " ++ String.singleton name ++ ": "
  | shown index tree value => s!"Tree {index}: {tree}\nResult {index}: {value}\n"
  | verdict comparison => s!"The expressions are {comparison}.\n"
  | failure e => s!"Error: {e.message}\n"
  | separator => "\n"

/-- An utterance that asks for a line. -/
def isPrompt : Utterance → Bool
  | firstPrompt => true
  | secondPrompt => true
  | variablePrompt _ => true
  | _ => false

def failure? : Utterance → Option Failure
  | failure e => some e
  | _ => none

end Utterance

/-- The texts of utterances, one behind the other. -/
def transcript (said : List Utterance) : String := said.foldr (fun u rest => u.text ++ rest) ""

/-- How many lines the utterances ask for. -/
def promptCount (said : List Utterance) : Nat := said.countP Utterance.isPrompt

/-- The failures among the utterances. -/
def failures (said : List Utterance) : List Failure := said.filterMap Utterance.failure?

theorem transcript_append (said more : List Utterance) :
    transcript (said ++ more) = transcript said ++ transcript more := by
  induction said with
  | nil => exact String.empty_append.symm
  | cons u said ih =>
    show u.text ++ transcript (said ++ more) = u.text ++ transcript said ++ transcript more
    rw [ih, String.append_assoc]

theorem promptCount_append (said more : List Utterance) :
    promptCount (said ++ more) = promptCount said + promptCount more := List.countP_append

theorem failures_append (said more : List Utterance) :
    failures (said ++ more) = failures said ++ failures more := List.filterMap_append

theorem transcript_singleton (u : Utterance) : transcript [u] = u.text := String.append_empty

/-- The terminal after a prompt and the line behind it. -/
def Terminal.hear (t : Terminal) (u : Utterance) : Terminal := (t.write u.text).readLine.2

theorem Terminal.hear_eq (t : Terminal) (u : Utterance) :
    (t.write u.text).readLine = (lineOf t.unread, t.hear u) := Prod.ext (readLine_line _) rfl

theorem Terminal.hear_unread (t : Terminal) (u : Utterance) :
    (t.hear u).unread = Text.dropLines 1 t.unread := readLine_unread _

/-- The value of a variable, from a line. -/
def answerOf (name : Char) : Line → Except EvaluationError Complex
  | .ended => .error (.unresolved name "end of input")
  | .malformed => .error (.unresolved name "stream did not contain valid UTF-8")
  | .text line => (Complex.ofText line).mapError fun e => .unresolved name e.message

/-- Where the output takes everything, a question is a prompt and its answer is the next line. -/
theorem Terminal.resolver_eq {t : Terminal} (h : t.refusal = none) (name : Char) :
    resolver name t = (answerOf name (lineOf t.unread), t.hear (.variablePrompt name)) := by
  have hp : t.prompt (Utterance.variablePrompt name).text =
      (none, t.write (Utterance.variablePrompt name).text) := by
    unfold prompt
    rw [h]
  unfold resolver
  rw [show "Value for " ++ String.singleton name ++ ": " =
    (Utterance.variablePrompt name).text from rfl, hp]
  dsimp only
  rw [hear_eq]
  cases lineOf t.unread with
  | ended => rfl
  | malformed => rfl
  | text line =>
    dsimp only [answerOf]
    cases Complex.ofText line <;> rfl

/-- From one terminal to another the utterances were made, and each prompt took a line. -/
structure Dialogue (t t' : Terminal) (said : List Utterance) : Prop where
  refusal : t'.refusal = none
  unread : t'.unread = Text.dropLines (promptCount said) t.unread
  written : t'.written = t.written ++ transcript said

namespace Dialogue

variable {t t' t'' : Terminal} {said more : List Utterance}

theorem refl (h : t.refusal = none) : Dialogue t t [] := ⟨h, rfl, String.append_empty.symm⟩

theorem append (h : Dialogue t t' said) (h' : Dialogue t' t'' more) :
    Dialogue t t'' (said ++ more) where
  refusal := h'.refusal
  unread := by
    rw [h'.unread, h.unread, ← Text.dropLines_add, promptCount_append]
  written := by rw [h'.written, h.written, transcript_append, String.append_assoc]

/-- An utterance that asks for nothing. -/
theorem write (h : t.refusal = none) {u : Utterance} (hu : u.isPrompt = false) :
    Dialogue t (t.write u.text) [u] where
  refusal := h
  unread := by
    rw [promptCount, List.countP_singleton, hu]
    rfl
  written := by
    rw [transcript_singleton]
    rfl

/-- A prompt and the line behind it. -/
theorem ask (h : t.refusal = none) {u : Utterance} (hu : u.isPrompt = true) :
    Dialogue t (t.hear u) [u] where
  refusal := (Terminal.readLine_refusal _).trans h
  unread := by
    rw [Terminal.hear_unread, promptCount, List.countP_singleton, hu]
    rfl
  written := by
    rw [transcript_singleton]
    exact Terminal.readLine_written _

/-! ## Questions for values -/

/-- A question is a prompt, and the line behind it is taken, whatever it holds. -/
theorem question (h : t.refusal = none) (name : Char) :
    Dialogue t (Terminal.resolver name t).2 [.variablePrompt name] := by
  rw [Terminal.resolver_eq h]
  exact ask h rfl

theorem questions (h : t.refusal = none) (names : List Char) :
    Dialogue t (Terminal.resolver.ask names t).2 (names.map .variablePrompt) := by
  induction names generalizing t with
  | nil => exact refl h
  | cons name names ih =>
    have hq := question h name
    exact hq.append (ih hq.refusal)

/-- An evaluation puts its questions one after another. -/
theorem evaluation (h : t.refusal = none) (tree : Expr) (environment : Environment) :
    let run := tree.eval Terminal.resolver environment t
    Dialogue t run.state ((run.asked.map Prod.fst).map .variablePrompt) := by
  intro run
  have hc : Terminal.resolver.ask (run.asked.map Prod.fst) t = (run.asked, run.state) :=
    (tree.asks Terminal.resolver environment t).conversation
  have hq := questions h (run.asked.map Prod.fst)
  rwa [hc] at hq

theorem failures_questions (names : List Char) :
    failures (names.map Utterance.variablePrompt) = [] := by
  unfold failures
  rw [List.filterMap_map]
  exact List.filterMap_eq_nil_iff.2 fun _ _ => rfl

end Dialogue

/-! ## Calculations -/

namespace Shell

open Terminal

theorem ignoresOutput_evaluateShown (mode : Mode) (index : Nat) (source : List Char) :
    IgnoresOutput (evaluateShown mode index source) := by
  intro t earlier
  unfold evaluateShown
  cases parse mode source with
  | error e => rfl
  | ok tree =>
    have hm := tree.eval_map (fun name t => ignoresOutput_resolver name t earlier) [] t
    dsimp only
    rw [Expr.evaluate, hm, ← Expr.evaluate]
    obtain ⟨_ | value, environment, t', lookups⟩ := tree.evaluate resolver t
    · rfl
    · exact congrArg (Prod.mk _) (write_behind ..)

theorem ignoresOutput_calculate (options : Options) (first : List Char)
    (second : Option (List Char)) : IgnoresOutput (calculate options first second) := by
  intro t earlier
  unfold calculate
  rw [ignoresOutput_evaluateShown options.mode 1 first t earlier]
  obtain ⟨_ | z, t'⟩ := evaluateShown options.mode 1 first t
  · rfl
  cases second with
  | none => rfl
  | some second =>
    dsimp only
    rw [ignoresOutput_evaluateShown options.mode 2 second t' earlier]
    obtain ⟨_ | w, t''⟩ := evaluateShown options.mode 2 second t'
    · rfl
    · exact congrArg (Prod.mk _) (write_behind ..)

/-- What is said about an expression: the questions, and the value if there is one. -/
theorem dialogue_evaluateShown (mode : Mode) (index : Nat) (source : List Char) {t : Terminal}
    (h : t.refusal = none) :
    ∃ said, Dialogue t (evaluateShown mode index source t).2 said ∧ failures said = [] := by
  unfold evaluateShown
  cases parse mode source with
  | error e => exact ⟨[], .refl h, rfl⟩
  | ok tree =>
    have hd : Dialogue t (tree.evaluate resolver t).state _ := Dialogue.evaluation h tree []
    have hf := Dialogue.failures_questions ((tree.evaluate resolver t).asked.map Prod.fst)
    dsimp only
    cases (tree.evaluate resolver t).result with
    | error e => exact ⟨_, hd, hf⟩
    | ok value =>
      refine ⟨_, hd.append (.write hd.refusal (u := .shown index tree value) rfl), ?_⟩
      rw [failures_append]
      exact congrArg (· ++ []) hf

theorem dialogue_calculate (options : Options) (first : List Char) (second : Option (List Char))
    {t : Terminal} (h : t.refusal = none) :
    ∃ said, Dialogue t (calculate options first second t).2 said ∧ failures said = [] := by
  obtain ⟨said₁, hd₁, hf₁⟩ := dialogue_evaluateShown options.mode 1 first h
  unfold calculate
  generalize evaluateShown options.mode 1 first t = run₁ at hd₁ ⊢
  obtain ⟨_ | z, t₁⟩ := run₁
  · exact ⟨said₁, hd₁, hf₁⟩
  cases second with
  | none => exact ⟨said₁, hd₁, hf₁⟩
  | some second =>
    obtain ⟨said₂, hd₂, hf₂⟩ := dialogue_evaluateShown options.mode 2 second hd₁.refusal
    dsimp only
    generalize evaluateShown options.mode 2 second t₁ = run₂ at hd₂ ⊢
    obtain ⟨_ | w, t₂⟩ := run₂
    · exact ⟨_, hd₁.append hd₂, by rw [failures_append, hf₁, hf₂]; rfl⟩
    · have hv := Dialogue.write hd₂.refusal (u := .verdict (z.compare w options.tolerance)) rfl
      refine ⟨_, (hd₁.append hd₂).append hv, ?_⟩
      rw [failures_append, failures_append, hf₁, hf₂]
      rfl

end Shell

end Argand
