import Argand.Proofs.Faults

/-!
Sessions, round by round.

What a round does is known from the lines in front of it.

| lines | round |
| :-- | :-- |
| no input, or the word `sair` | ends the session with code `0` |
| a first or second line that is no text | ends the session with code `1` |
| a first line of blanks | says nothing more, and the session goes on |
| any other first line | leads to a calculation, and the session goes on |

The first two are `Stops`, the last one is `Calculates`.  A calculation that fails, for one of the
reasons in `Fails`, is reported once, in one line (`round_of_calculates`).

The rounds of a session that go on are `Rounds`.  Each takes a line at least, so there are no more
of them than lines, and one that does not go on follows.  What comes after some of them is a session
of its own over the input that they left.

Main statement: `session_ends`, of every input.
-/

namespace Argand

namespace Shell

/-! ## Rounds -/

/-- A round in front of these bytes ends the session with the code. -/
inductive Stops : List UInt8 → ExitCode → Prop
  | ended {bytes : List UInt8} : bytes = [] → Stops bytes 0
  | farewell {bytes : List UInt8} {text : List Char} : content (lineOf bytes) = some text →
      isFarewell text = true → Stops bytes 0
  | malformed {bytes : List UInt8} : lineOf bytes = .malformed → Stops bytes 1
  | malformedSecond {bytes : List UInt8} {text : List Char} : content (lineOf bytes) = some text →
      isFarewell text = false → lineOf (Text.dropLines 1 bytes) = .malformed → Stops bytes 1

/-- A round in front of these bytes calculates with one or two expressions. -/
structure Calculates (bytes : List UInt8) (first : List Char) (second : Option (List Char)) :
    Prop where
  read_first : content (lineOf bytes) = some first
  not_farewell : isFarewell first = false
  readable : lineOf (Text.dropLines 1 bytes) ≠ .malformed
  read_second : content (lineOf (Text.dropLines 1 bytes)) = second

/-- A round in front of these bytes has a blank line to read. -/
def Skips (bytes : List UInt8) : Prop :=
  ∃ line, lineOf bytes = .text line ∧ content (.text line) = none

/-- What a round does. -/
theorem stops_or_skips_or_calculates (bytes : List UInt8) :
    (∃ code, Stops bytes code) ∨ Skips bytes ∨ ∃ first second, Calculates bytes first second := by
  cases hl : lineOf bytes with
  | ended =>
    have hb : bytes = [] := Classical.byContradiction fun hb => lineOf_ne_ended hb hl
    exact .inl ⟨0, .ended hb⟩
  | malformed => exact .inl ⟨1, .malformed hl⟩
  | text line =>
    cases hc : content (.text line) with
    | none => exact .inr (.inl ⟨line, hl, hc⟩)
    | some first =>
      have hfirst : content (lineOf bytes) = some first := by rw [hl, hc]
      cases hw : isFarewell first with
      | true => exact .inl ⟨0, .farewell hfirst hw⟩
      | false =>
        by_cases hm : lineOf (Text.dropLines 1 bytes) = .malformed
        · exact .inl ⟨1, .malformedSecond hfirst hw hm⟩
        · exact .inr (.inr ⟨first, _, hfirst, hw, hm, rfl⟩)

theorem Calculates.not_stops {bytes : List UInt8} {first : List Char} {second : Option (List Char)}
    (h : Calculates bytes first second) {code : ExitCode} : ¬Stops bytes code := by
  intro hs
  have hfirst := h.read_first
  cases hs with
  | ended hb =>
    rw [hb] at hfirst
    cases hfirst
  | farewell hc hw =>
    rw [Option.some.inj (hc.symm.trans hfirst), h.not_farewell] at hw
    cases hw
  | malformed hm =>
    rw [hm] at hfirst
    cases hfirst
  | malformedSecond _ _ hm => exact h.readable hm

theorem Skips.not_calculates {bytes : List UInt8} (hs : Skips bytes) {first : List Char}
    {second : Option (List Char)} : ¬Calculates bytes first second := by
  obtain ⟨line, hl, hc⟩ := hs
  intro h
  have hfirst := h.read_first
  rw [hl, hc] at hfirst
  cases hfirst

/-- The failures that are shown in a round in front of these bytes: the one of its calculation, if
there is one and it fails.  Its message is one line. -/
inductive Shows (options : Options) (bytes : List UInt8) : List Failure → Prop
  | nothing : (∀ first second, ¬Calculates bytes first second) → Shows options bytes []
  | value {first : List Char} {second : Option (List Char)} : Calculates bytes first second →
      (calculate options first second (.ofBytes (Text.dropLines 2 bytes))).1 = .ok () →
      Shows options bytes []
  | failure {first : List Char} {second : Option (List Char)} {e : Failure} :
      Calculates bytes first second →
      (calculate options first second (.ofBytes (Text.dropLines 2 bytes))).1 = .error e →
      OneLine e.message → Shows options bytes [e]

variable (options : Options) (t : Terminal)

/-! ### Requests -/

theorem request_eq : request t =
    match lineOf t.unread with
    | .ended => (.stop 0, t.hear .firstPrompt)
    | .malformed => (.stop 1, t.hear .firstPrompt)
    | .text line =>
      match content (.text line) with
      | none => (.skip, t.hear .firstPrompt)
      | some first =>
        if isFarewell first then (.stop 0, t.hear .firstPrompt)
        else if lineOf (Text.dropLines 1 t.unread) = .malformed then
          (.stop 1, (t.hear .firstPrompt).hear .secondPrompt)
        else (.calculate first (content (lineOf (Text.dropLines 1 t.unread))),
          (t.hear .firstPrompt).hear .secondPrompt) := by
  unfold request
  rw [show "Expression 1: " = Utterance.firstPrompt.text from rfl, Terminal.hear_eq]
  cases lineOf t.unread with
  | ended => rfl
  | malformed => rfl
  | text line =>
    dsimp only
    cases content (.text line) with
    | none => rfl
    | some first =>
      dsimp only
      rw [show "Expression 2 (press ENTER to skip comparison): " =
          Utterance.secondPrompt.text from rfl,
        Terminal.hear_eq, Terminal.hear_unread]
      cases lineOf (Text.dropLines 1 t.unread) <;> rfl

theorem request_of_content {t : Terminal} {first : List Char}
    (h : content (lineOf t.unread) = some first) :
    request t =
      if isFarewell first then (.stop 0, t.hear .firstPrompt)
      else if lineOf (Text.dropLines 1 t.unread) = .malformed then
        (.stop 1, (t.hear .firstPrompt).hear .secondPrompt)
      else (.calculate first (content (lineOf (Text.dropLines 1 t.unread))),
        (t.hear .firstPrompt).hear .secondPrompt) := by
  rw [request_eq]
  cases hl : lineOf t.unread with
  | text line =>
    rw [hl] at h
    dsimp only
    rw [h]
  | _ =>
    rw [hl] at h
    cases h

/-- What is said up to the calculation. -/
theorem request_of_calculates {first : List Char} {second : Option (List Char)}
    (h : Calculates t.unread first second) :
    request t = (.calculate first second, (t.hear .firstPrompt).hear .secondPrompt) := by
  rw [request_of_content h.read_first, if_neg (Bool.eq_false_iff.1 h.not_farewell),
    if_neg h.readable, h.read_second]

/-- What is written of how a calculation ended. -/
def report : Except Failure Unit → String
  | .ok _ => ""
  | .error e => s!"Error: {e.message}\n"

theorem write_empty (t : Terminal) : t.write "" = t := by
  rw [Terminal.write, String.append_empty]

/-- Behind a calculation stands the report, and behind that an empty line. -/
theorem round_eq_of_calculates {first : List Char} {second : Option (List Char)}
    (h : Calculates t.unread first second) :
    round options t =
      let calculation := calculate options first second ((t.hear .firstPrompt).hear .secondPrompt)
      (none, (calculation.2.write (report calculation.1)).write "\n") := by
  unfold round
  rw [request_of_calculates t h]
  dsimp only
  obtain ⟨e | _, t'⟩ := calculate options first second ((t.hear .firstPrompt).hear .secondPrompt)
  · rfl
  · exact congrArg (fun t => (none, Terminal.write t "\n")) (write_empty t').symm

variable {t}

/-! ### The three kinds of rounds -/

theorem round_of_stops (ht : t.refusal = none) {code : ExitCode} (h : Stops t.unread code) :
    (round options t).1 = some code ∧
      ∃ said, Dialogue t (round options t).2 said ∧ 0 < promptCount said ∧ failures said = [] := by
  have hd := Dialogue.ask ht (u := .firstPrompt) rfl
  rw [round]
  cases h with
  | ended hb =>
    rw [request_eq, hb]
    exact ⟨rfl, _, hd, Nat.one_pos, rfl⟩
  | farewell hc hw =>
    rw [request_of_content hc, if_pos hw]
    exact ⟨rfl, _, hd, Nat.one_pos, rfl⟩
  | malformed hm =>
    rw [request_eq, hm]
    exact ⟨rfl, _, hd, Nat.one_pos, rfl⟩
  | malformedSecond hc hw hm =>
    rw [request_of_content hc, if_neg (Bool.eq_false_iff.1 hw), if_pos hm]
    exact ⟨rfl, _, hd.append (.ask hd.refusal rfl), Nat.two_pos, rfl⟩

theorem round_of_skips (ht : t.refusal = none) (h : Skips t.unread) :
    (round options t).1 = none ∧
      ∃ said, Dialogue t (round options t).2 said ∧ 0 < promptCount said ∧ failures said = [] := by
  obtain ⟨line, hl, hc⟩ := h
  rw [round, request_eq, hl]
  dsimp only
  rw [hc]
  exact ⟨rfl, _, .ask ht rfl, Nat.one_pos, rfl⟩

/-- A calculation that fails is reported once, and the session goes on either way. -/
theorem round_of_calculates (ht : t.refusal = none) {first : List Char}
    {second : Option (List Char)} (h : Calculates t.unread first second) :
    (round options t).1 = none ∧
      ∃ said, Dialogue t (round options t).2 said ∧ 0 < promptCount said ∧
        Shows options t.unread (failures said) := by
  have hd₁ := Dialogue.ask ht (u := .firstPrompt) rfl
  have hd₂ := hd₁.append (.ask hd₁.refusal (u := .secondPrompt) rfl)
  have hcalc := (ignoresOutput_calculate options first second).eq hd₂.refusal
  rw [hd₂.unread] at hcalc
  obtain ⟨said, hd₃, hf⟩ := dialogue_calculate options first second hd₂.refusal
  rw [round_eq_of_calculates options t h]
  have hd := hd₂.append hd₃
  have hprompts (more : List Utterance) :
      0 < promptCount ([.firstPrompt] ++ [.secondPrompt] ++ said ++ more) :=
    List.countP_pos_iff.2 ⟨.firstPrompt, List.mem_cons_self, rfl⟩
  have hfailures (more : List Utterance) :
      failures ([.firstPrompt] ++ [.secondPrompt] ++ said ++ more) = failures more := by
    rw [failures_append, failures_append, hf]
    rfl
  generalize calculate options first second ((t.hear .firstPrompt).hear .secondPrompt) = run
    at hd hcalc ⊢
  obtain ⟨e | _, t₃⟩ := run
  · have hdf := Dialogue.write hd.refusal (u := .failure e) rfl
    have hds := hdf.append (.write hdf.refusal (u := .separator) rfl)
    have herror := (congrArg Prod.fst hcalc).symm
    refine ⟨rfl, _, hd.append hds, hprompts _, ?_⟩
    rw [hfailures]
    exact .failure h herror (calculate_eq_error_iff.1 herror).oneLine
  · have hds := hd.append (.write hd.refusal (u := .separator) rfl)
    dsimp only [report]
    rw [write_empty]
    refine ⟨rfl, _, hds, hprompts _, ?_⟩
    rw [hfailures]
    exact .value h (congrArg Prod.fst hcalc).symm

/-! ### Every round -/

/-- A round says something, with a prompt for each line that it takes, and shows the failure of its
calculation. -/
theorem round_says (ht : t.refusal = none) :
    ∃ said, Dialogue t (round options t).2 said ∧ 0 < promptCount said ∧
      Shows options t.unread (failures said) := by
  rcases stops_or_skips_or_calculates t.unread with ⟨code, h⟩ | h | ⟨first, second, h⟩
  · obtain ⟨-, said, hd, hp, hf⟩ := round_of_stops options ht h
    exact ⟨said, hd, hp, hf ▸ .nothing fun _ _ hc => hc.not_stops h⟩
  · obtain ⟨-, said, hd, hp, hf⟩ := round_of_skips options ht h
    exact ⟨said, hd, hp, hf ▸ .nothing fun _ _ => h.not_calculates⟩
  · exact (round_of_calculates options ht h).2

/-- A round ends the session exactly if the lines in front of it say so. -/
theorem round_eq_some_iff (ht : t.refusal = none) {code : ExitCode} :
    (round options t).1 = some code ↔ Stops t.unread code := by
  constructor
  · intro hr
    rcases stops_or_skips_or_calculates t.unread with ⟨code', h⟩ | h | ⟨first, second, h⟩
    · rw [(round_of_stops options ht h).1] at hr
      cases hr
      exact h
    · rw [(round_of_skips options ht h).1] at hr
      cases hr
    · rw [(round_of_calculates options ht h).1] at hr
      cases hr
  · intro h
    exact (round_of_stops options ht h).1

/-! ## Sessions -/

/-- From one terminal to another there are so many rounds that go on. -/
inductive Rounds (options : Options) : Nat → Terminal → Terminal → Prop
  | nil (t : Terminal) : Rounds options 0 t t
  | cons {n : Nat} {t t' t'' : Terminal} : round options t = (none, t') → Rounds options n t' t'' →
      Rounds options (n + 1) t t''

theorem session_of_some {t' : Terminal} {code : ExitCode} (h : round options t = (some code, t')) :
    session options t = (code, t') := by
  rw [session]
  split
  · next h' =>
    cases h'.symm.trans h
    rfl
  · next h' => cases h'.symm.trans h

theorem session_of_none {t' : Terminal} (h : round options t = (none, t')) :
    session options t = session options t' := by
  rw [session]
  split
  · next h' => cases h'.symm.trans h
  · next h' =>
    cases h'.symm.trans h
    rfl

namespace Rounds

variable {options : Options} {n : Nat} {t t' : Terminal}

theorem session_eq (h : Rounds options n t t') : session options t = session options t' := by
  induction h with
  | nil t => rfl
  | cons hr _ ih => rw [session_of_none options hr, ih]

/-- What is said in the rounds, with a prompt for each of them at least. -/
theorem dialogue (h : Rounds options n t t') (ht : t.refusal = none) :
    ∃ said, Dialogue t t' said ∧ n ≤ promptCount said := by
  induction h with
  | nil t => exact ⟨[], .refl ht, Nat.le_refl 0⟩
  | cons hr _ ih =>
    obtain ⟨said, hd, hp, -⟩ := round_says options ht
    rw [hr] at hd
    obtain ⟨more, hm, hn⟩ := ih hd.refusal
    refine ⟨said ++ more, hd.append hm, ?_⟩
    rw [promptCount_append]
    omega

theorem refusal (h : Rounds options n t t') (ht : t.refusal = none) : t'.refusal = none := by
  obtain ⟨said, hd, -⟩ := h.dialogue ht
  exact hd.refusal

/-- Each of the rounds takes a line. -/
theorem add_lineCount_le (h : Rounds options n t t') (ht : t.refusal = none) :
    n + Text.lineCount t'.unread ≤ Text.lineCount t.unread := by
  induction h with
  | nil t => exact Nat.le_of_eq (Nat.zero_add _)
  | @cons n t t' t'' hr _ ih =>
    obtain ⟨said, hd, hp, -⟩ := round_says options ht
    have hne : t.unread ≠ [] := by
      intro hb
      have hs := (round_eq_some_iff options ht).2 (.ended hb)
      rw [hr] at hs
      cases hs
    have hpos := Text.lineCount_pos hne
    rw [hr] at hd
    have := ih hd.refusal
    rw [hd.unread, Text.lineCount_dropLines] at this
    omega

end Rounds

/-- Some round is the last one. -/
theorem exists_last_round (options : Options) (t : Terminal) :
    ∃ n last code, Rounds options n t last ∧ (round options last).1 = some code := by
  induction hl : t.unread.length using Nat.strongRecOn generalizing t with
  | ind length ih =>
    rcases hr : round options t with ⟨_ | code, t'⟩
    · have hlt := length_round_lt hr
      rw [hl] at hlt
      obtain ⟨n, last, code, hrounds, hlast⟩ := ih _ hlt t' rfl
      exact ⟨n + 1, last, code, .cons hr hrounds, hlast⟩
    · exact ⟨0, t, code, .nil t, by rw [hr]⟩

/-! ### What came before -/

theorem hear_behind (t earlier : Terminal) (u : Utterance) :
    (t.behind earlier).hear u = (t.hear u).behind earlier := by
  unfold Terminal.hear
  rw [Terminal.write_behind, Terminal.ignoresOutput_readLine]

theorem ignoresOutput_request : Terminal.IgnoresOutput request := by
  intro t earlier
  have hu : (t.behind earlier).unread = t.unread := rfl
  rw [request_eq, request_eq, hu, hear_behind, hear_behind]
  cases lineOf t.unread with
  | ended => rfl
  | malformed => rfl
  | text line =>
    dsimp only
    cases content (.text line) with
    | none => rfl
    | some first =>
      dsimp only
      split
      · rfl
      · split <;> rfl

theorem ignoresOutput_round (options : Options) : Terminal.IgnoresOutput (round options) := by
  intro t earlier
  unfold round
  rw [ignoresOutput_request]
  obtain ⟨code | _ | ⟨first, second⟩, t'⟩ := request t
  · rfl
  · rfl
  dsimp only
  rw [ignoresOutput_calculate]
  obtain ⟨e | _, t''⟩ := calculate options first second t'
  · dsimp only [showFailure]
    rw [Terminal.write_behind, Terminal.write_behind]
  · dsimp only
    rw [Terminal.write_behind]

theorem ignoresOutput_session (options : Options) : Terminal.IgnoresOutput (session options) := by
  intro t earlier
  obtain ⟨n, last, code, hrounds, hlast⟩ := exists_last_round options t
  induction hrounds with
  | nil t =>
    have hr := ignoresOutput_round options t earlier
    rw [hlast] at hr
    rw [session_of_some options hr, session_of_some options (Prod.ext hlast rfl)]
  | @cons n t t' t'' hr _ ih =>
    have hb := ignoresOutput_round options t earlier
    rw [hr] at hb
    rw [session_of_none options hb, session_of_none options hr]
    exact ih hlast

/-! ## The whole session -/

/-- **Every session ends.**  It has so many rounds that go on, no more than there are lines, and
then one that does not.  At whatever round one looks:

* it ends the session exactly if it has no input, the word `sair`, or a first or second line that
  is no text, and with the code that belongs to that;
* it has one prompt at least, each prompt takes a line, and nothing else is taken;
* if it comes to a calculation the session goes on, and a failure of that is shown once, in one
  line;
* what the session does from there on, it does for the unread input alone.

A calculation fails exactly if one of its expressions is refused as a text, or a division by zero
comes up in it, or a variable of it has a line that is no answer; the second expression counts only
if the first has a value. -/
theorem session_ends (options : Options) (input : List UInt8) :
    let start := (Terminal.ofBytes input).write banner
    (∀ arguments, CommandLine.ofArguments? arguments = some (options, []) →
      run arguments input = ((session options start).2.written, (session options start).1)) ∧
    (∃ n last code, n ≤ Text.lineCount input ∧ Rounds options n start last ∧
      Stops last.unread code ∧ round options last = (some code, (session options start).2) ∧
      (session options start).1 = code) ∧
    (∀ n t, Rounds options n start t →
      (∀ code, (round options t).1 = some code ↔ Stops t.unread code) ∧
      (∃ said, Dialogue t (round options t).2 said ∧ 0 < promptCount said ∧
        Shows options t.unread (failures said)) ∧
      (∀ first second, Calculates t.unread first second → (round options t).1 = none) ∧
      (session options start).1 = (session options (.ofBytes t.unread)).1 ∧
      (session options start).2.written =
        t.written ++ (session options (.ofBytes t.unread)).2.written) ∧
    ∀ first second answers e,
      (calculate options first second (.ofBytes answers)).1 = .error e ↔
        Fails options.mode first second answers e := by
  intro start
  have hstart : start.refusal = none := rfl
  refine ⟨fun arguments ha => ?_, ?_, fun n t hrounds => ?_,
    fun first second answers e => calculate_eq_error_iff⟩
  · unfold run
    rw [ha]
  · obtain ⟨n, last, code, hrounds, hlast⟩ := exists_last_round options start
    have hn : n ≤ Text.lineCount input :=
      Nat.le_of_add_right_le (hrounds.add_lineCount_le hstart)
    have hs : session options start = (code, (round options last).2) := by
      rw [hrounds.session_eq, session_of_some options (Prod.ext hlast rfl)]
    have hstops := (round_eq_some_iff options (hrounds.refusal hstart)).1 hlast
    rw [hs]
    exact ⟨n, last, code, hn, hrounds, hstops, Prod.ext hlast rfl, rfl⟩
  · have ht := hrounds.refusal hstart
    have hs := (ignoresOutput_session options).eq ht
    rw [hrounds.session_eq, hs]
    exact ⟨fun code => round_eq_some_iff options ht, round_says options ht,
      fun first second h => (round_of_calculates options ht h).1, rfl, rfl⟩

end Shell

end Argand
