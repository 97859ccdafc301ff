import Argand.Proofs.Arguments
import Argand.Proofs.Sessions

/-!
One expression, on the command line or in a session.

The first line of a session and an expression on the command line are calculated by the same code,
with the same questions, but the session takes off the blanks at the ends of its line first.  Those
behind the expression make no difference.  Those in front of it are not counted any more where an
error names a column, so in a session the column is smaller by their number
(`Shell.calculate_trimmed`).

| | what differs |
| :-- | :-- |
| the text | the characters that are no blanks stand at other columns (`cells_trimmed`) |
| its tree, or the error | the columns (`parse_trimmed`) |
| the evaluation | the column of a division by zero (`Expr.eval_mapColumns_eq`) |

Main statement: `Shell.session_and_single_run`.
-/

namespace Argand

/-! ## The bytes of a line -/

namespace Text

/-- The bytes of a text in UTF-8. -/
def encode (text : List Char) : List UInt8 := text.flatMap String.utf8EncodeChar

theorem encode_append (front back : List Char) :
    encode (front ++ back) = encode front ++ encode back :=
  List.flatMap_append

theorem decode?_encode (text : List Char) : decode? (encode text) = some text := by
  have hvalid : (encode text).toByteArray.IsValidUTF8 := ByteArray.isValidUTF8_utf8Encode
  unfold decode? String.fromUTF8?
  rw [dif_pos hvalid]
  exact congrArg some (String.toList_ofList (l := text))

/-- Only the line end has the byte of a line end. -/
theorem eq_of_lineEnd_mem {c : Char} (h : lineEnd ∈ String.utf8EncodeChar c) : c = '\n' := by
  have hbyte {n : Nat} (he : lineEnd = UInt8.ofNat n) : 10 = n % 256 := congrArg UInt8.toNat he
  rw [String.utf8EncodeChar] at h
  split at h
  · next hle =>
    have hc := hbyte (List.mem_singleton.1 h)
    refine Char.ext (UInt32.toNat_inj.1 ?_)
    show c.val.toNat = 10
    omega
  -- Every byte of a longer sequence is above those of the characters with one byte.
  · split at h
    · simp only [List.mem_cons, List.not_mem_nil, or_false] at h
      rcases h with h | h <;> have := hbyte h <;> omega
    · split at h
      · simp only [List.mem_cons, List.not_mem_nil, or_false] at h
        rcases h with h | h | h <;> have := hbyte h <;> omega
      · simp only [List.mem_cons, List.not_mem_nil, or_false] at h
        rcases h with h | h | h | h <;> have := hbyte h <;> omega

theorem splitLine_append_lineEnd {bytes : List UInt8} (h : lineEnd ∉ bytes) (rest : List UInt8) :
    splitLine (bytes ++ lineEnd :: rest) = (bytes ++ [lineEnd], rest) := by
  induction bytes with
  | nil => rfl
  | cons b bytes ih =>
    obtain ⟨hb, hbytes⟩ := not_or.1 (mt List.mem_cons.2 h)
    rw [List.cons_append, splitLine, if_neg (Ne.symm hb), ih hbytes]
    rfl

/-- A line of text goes up to its line end. -/
theorem splitLine_encode {text : List Char} (h : '\n' ∉ text) (rest : List UInt8) :
    splitLine (encode (text ++ ['\n']) ++ rest) = (encode (text ++ ['\n']), rest) := by
  have hbytes : lineEnd ∉ encode text := by
    intro hm
    obtain ⟨c, hc, hb⟩ := List.mem_flatMap.1 hm
    exact h (eq_of_lineEnd_mem hb ▸ hc)
  have hend : encode ['\n'] = [lineEnd] := rfl
  rw [encode_append, hend, List.append_assoc]
  exact splitLine_append_lineEnd hbytes rest

/-! ## Blanks at the ends -/

theorem trimmed_concat {c : Char} (hc : isBlank c = true) (text : List Char) :
    trimmed (text ++ [c]) = trimmed text := by
  have htrimmed (text : List Char) :
      trimmed text = (text.dropWhile isBlank).rdropWhile isBlank := rfl
  rw [htrimmed, htrimmed, List.dropWhile_append]
  split
  · next h =>
    rw [List.isEmpty_iff.1 h, List.dropWhile_cons_of_pos hc]
    rfl
  · exact List.rdropWhile_concat_pos isBlank _ c hc

/-- The number of blanks in front of a text. -/
def leadingBlanks (text : List Char) : Nat := (text.takeWhile isBlank).length

/-- A text is what is left of it without the blanks at its ends, between these blanks. -/
theorem eq_append_trimmed (text : List Char) :
    text = text.takeWhile isBlank ++
      (trimmed text ++ (text.dropWhile isBlank).rtakeWhile isBlank) := by
  have htrimmed : trimmed text = (text.dropWhile isBlank).rdropWhile isBlank := rfl
  rw [htrimmed, List.rdropWhile_append_rtakeWhile, List.takeWhile_append_dropWhile]

end Text

theorem lineOf_encode {text : List Char} (h : '\n' ∉ text) (rest : List UInt8) :
    lineOf (Text.encode (text ++ ['\n']) ++ rest) = .text (text ++ ['\n']) := by
  have hne : Text.encode (text ++ ['\n']) ++ rest ≠ [] := by
    rw [Text.encode_append]
    simp [Text.encode, String.utf8EncodeChar_ne_nil]
  rw [lineOf, if_neg hne, Text.splitLine_encode h, Text.decode?_encode]

theorem dropLines_encode {text : List Char} (h : '\n' ∉ text) (rest : List UInt8) :
    Text.dropLines 1 (Text.encode (text ++ ['\n']) ++ rest) = rest :=
  congrArg Prod.snd (Text.splitLine_encode h rest)

/-! ## Columns without the blanks in front -/

theorem cells_blanks {text : List Char} (h : ∀ c ∈ text, Text.isBlank c = true) :
    cells text = [] := by
  refine List.filter_eq_nil_iff.2 fun cell hm => ?_
  rw [h cell.1 (List.fst_mem_of_mem_zipIdx hm)]
  exact Bool.false_ne_true

/-- The characters of a text without the blanks at its ends, at their columns in the text. -/
theorem cells_trimmed (source : List Char) :
    cells source =
      (cells (Text.trimmed source)).map (Prod.map id (shift (Text.leadingBlanks source))) := by
  have hfront : cells (source.takeWhile Text.isBlank) = [] :=
    cells_blanks fun c hc => List.mem_takeWhile_imp hc
  have hbehind : cells ((source.dropWhile Text.isBlank).rtakeWhile Text.isBlank) = [] :=
    cells_blanks fun c hc => List.mem_rtakeWhile_imp hc
  conv => lhs; rw [Text.eq_append_trimmed source, cells_append, cells_append, hfront, hbehind]
  rw [List.map_nil, List.append_nil, List.nil_append]
  rfl

theorem parse_trimmed (mode : Mode) (source : List Char) :
    parse mode source =
      relabelled (shift (Text.leadingBlanks source))
        (Expr.mapColumns (shift (Text.leadingBlanks source))) (parse mode (Text.trimmed source)) :=
  parse_of_cells _ (cells_trimmed source) mode

namespace Shell

/-! ## Calculations -/

theorem resolver_mapColumn (f : Nat → Nat) (name : Char) (t : Terminal) :
    (Terminal.resolver name t).1.mapError (EvaluationError.mapColumn f) =
      (Terminal.resolver name t).1 := by
  unfold Terminal.resolver
  rcases t.prompt ("Value for " ++ String.singleton name ++ ": ") with ⟨_ | reason, t⟩
  · dsimp only
    rcases t.readLine with ⟨_ | _ | line, t⟩
    · rfl
    · rfl
    · dsimp only
      cases Complex.ofText line <;> rfl
  · rfl

/-- Without the blanks at its ends an expression is shown alike, or fails alike up to the column. -/
theorem evaluateShown_trimmed (mode : Mode) (index : Nat) (source : List Char) (t : Terminal) :
    evaluateShown mode index source t =
      ((evaluateShown mode index (Text.trimmed source) t).1.mapError
          (Failure.mapColumn (shift (Text.leadingBlanks source))),
        (evaluateShown mode index (Text.trimmed source) t).2) := by
  unfold evaluateShown
  rw [parse_trimmed mode source]
  generalize shift (Text.leadingBlanks source) = f
  cases parse mode (Text.trimmed source) with
  | error e => rfl
  | ok tree =>
    have he : (tree.mapColumns f).evaluate Terminal.resolver t =
        (tree.evaluate Terminal.resolver t).mapColumn f :=
      tree.eval_mapColumns_eq f (resolver_mapColumn f) [] t
    have htext : toString (tree.mapColumns f) = toString tree :=
      congrArg String.ofList (tree.text_mapColumns f)
    dsimp only [relabelled]
    rw [he, htext]
    obtain ⟨_ | value, environment, state, lookups⟩ := tree.evaluate Terminal.resolver t <;> rfl

theorem calculate_trimmed (options : Options) (first : List Char) (t : Terminal) :
    calculate options first none t =
      ((calculate options (Text.trimmed first) none t).1.mapError
          (Failure.mapColumn (shift (Text.leadingBlanks first))),
        (calculate options (Text.trimmed first) none t).2) := by
  unfold calculate
  rw [evaluateShown_trimmed]
  obtain ⟨_ | z, t⟩ := evaluateShown options.mode 1 (Text.trimmed first) t <;> rfl

/-- The code of a single run whose calculation ended so. -/
def codeOf : Except Failure Unit → ExitCode
  | .ok _ => 0
  | .error _ => 1

theorem runOnce_eq (options : Options) (first : List Char) (second : Option (List Char))
    (t : Terminal) :
    runOnce options first second t =
      (codeOf (calculate options first second t).1,
        (calculate options first second t).2.write
          (report (calculate options first second t).1)) := by
  unfold runOnce
  obtain ⟨e | _, t⟩ := calculate options first second t
  · rfl
  · exact congrArg (Prod.mk 0) (write_empty t).symm

theorem codeOf_mapError (f : Failure → Failure) (result : Except Failure Unit) :
    codeOf (result.mapError f) = codeOf result := by
  cases result <;> rfl

theorem mapError_mapColumn_zero (result : Except Failure Unit) :
    result.mapError (Failure.mapColumn (shift 0)) = result := by
  rcases result with (e | e) | _
  · cases e <;> rfl
  · cases e <;> rfl
  · rfl

theorem run_of_expression {arguments : List (List Char)} {options : Options} {source : List Char}
    (h : CommandLine.ofArguments? arguments = some (options, [source])) (answers : List UInt8) :
    let calculation := calculate options source none (.ofBytes answers)
    run arguments answers =
      (calculation.2.written ++ report calculation.1, codeOf calculation.1) := by
  intro calculation
  unfold run
  rw [h]
  dsimp only [List.head?]
  rw [runOnce_eq]
  rfl

/-- A round with an expression in its first line and a second one of blanks. -/
theorem round_of_expression (options : Options) {source : List Char} (hline : '\n' ∉ source)
    (hblank : Text.trimmed source ≠ []) (hword : isFarewell (Text.trimmed source) = false)
    {t : Terminal} (ht : t.refusal = none) {answers : List UInt8}
    (hunread : t.unread = Text.encode (source ++ ['\n']) ++ (Text.encode ['\n'] ++ answers)) :
    let calculation := calculate options (Text.trimmed source) none (.ofBytes answers)
    ∃ t', round options t = (none, t') ∧ t'.refusal = none ∧ t'.unread = calculation.2.unread ∧
      t'.written = t.written ++ "Expression 1: " ++
        "Expression 2 (press ENTER to skip comparison): " ++
        (calculation.2.written ++ report calculation.1) ++ "\n" := by
  intro calculation
  have hd₁ := Dialogue.ask ht (u := .firstPrompt) rfl
  have hd₂ := hd₁.append (.ask hd₁.refusal (u := .secondPrompt) rfl)
  have hbehind : Text.dropLines 1 t.unread = Text.encode ([] ++ ['\n']) ++ answers := by
    rw [hunread, dropLines_encode hline]
    rfl
  have hanswers : ((t.hear .firstPrompt).hear .secondPrompt).unread = answers := by
    rw [Terminal.hear_unread, Terminal.hear_unread, hbehind, dropLines_encode List.not_mem_nil]
  have hsecond : lineOf (Text.dropLines 1 t.unread) = .text ([] ++ ['\n']) := by
    rw [hbehind, lineOf_encode List.not_mem_nil]
  have hcalculates : Calculates t.unread (Text.trimmed source) none := by
    refine ⟨?_, hword, hsecond ▸ nofun, hsecond ▸ rfl⟩
    rw [hunread, lineOf_encode hline, content, Text.trimmed_concat (by decide)]
    exact if_neg hblank
  have hcalc := (ignoresOutput_calculate options (Text.trimmed source) none).eq hd₂.refusal
  rw [hanswers] at hcalc
  obtain ⟨said, hd, -⟩ :=
    dialogue_calculate options (Text.trimmed source) none (t := .ofBytes answers) rfl
  rw [round_eq_of_calculates options t hcalculates, hcalc]
  have hprompts : transcript ([.firstPrompt] ++ [.secondPrompt]) =
      "Expression 1: " ++ "Expression 2 (press ENTER to skip comparison): " := by
    rw [transcript_append, transcript_singleton, transcript_singleton]
    rfl
  refine ⟨_, rfl, hd.refusal, rfl, ?_⟩
  show ((t.hear .firstPrompt).hear .secondPrompt).written ++ calculation.2.written ++
    report calculation.1 ++ "\n" = _
  rw [hd₂.written, hprompts]
  simp only [String.append_assoc]

/-- What a session writes after a first round with this expression. -/
theorem run_of_first_expression {flags : List (List Char)} {options : Options}
    (h : CommandLine.ofArguments? flags = some (options, [])) {source : List Char}
    (hline : '\n' ∉ source) (hblank : Text.trimmed source ≠ [])
    (hword : isFarewell (Text.trimmed source) = false) (answers : List UInt8) :
    let calculation := calculate options (Text.trimmed source) none (.ofBytes answers)
    let rest := session options (.ofBytes calculation.2.unread)
    run flags (Text.encode (source ++ ['\n', '\n']) ++ answers) =
      (banner ++ "Expression 1: " ++ "Expression 2 (press ENTER to skip comparison): " ++
        (calculation.2.written ++ report calculation.1) ++ "\n" ++ rest.2.written, rest.1) := by
  intro calculation rest
  have hinput : Text.encode (source ++ ['\n', '\n']) ++ answers =
      Text.encode (source ++ ['\n']) ++ (Text.encode ['\n'] ++ answers) := by
    rw [← List.append_assoc, ← Text.encode_append, List.append_assoc]
    rfl
  have hrun (input : List UInt8) : run flags input =
      ((session options ((Terminal.ofBytes input).write banner)).2.written,
        (session options ((Terminal.ofBytes input).write banner)).1) := by
    unfold run
    rw [h]
  obtain ⟨t', hround, hrefusal, hunread, hwritten⟩ :=
    round_of_expression options hline hblank hword
      (t := (Terminal.ofBytes (Text.encode (source ++ ['\n', '\n']) ++ answers)).write banner)
      rfl hinput
  have hs := (ignoresOutput_session options).eq hrefusal
  rw [hunread] at hs
  rw [hrun, session_of_none options hround, hs]
  show (t'.written ++ rest.2.written, rest.1) = _
  have hstart (t : List UInt8) : ((Terminal.ofBytes t).write banner).written = banner :=
    String.empty_append
  rw [hwritten, hstart]

/-- **One expression, on the command line or in a session.**  Take a text of one line that has more
than blanks, is not the word that ends a session and has no minus sign in front.  As the first line
of a session, with an empty one behind it, and as the one expression on the command line it is
calculated with the same lines of answers, and the same is written: what the session shows of its
first round between the two prompts and the empty line behind the round is what the single run
shows.  The one difference is in the column of an error, which is smaller in the session by the
number of blanks in front of the text. -/
theorem session_and_single_run {flags : List (List Char)} {options : Options}
    (h : CommandLine.ofArguments? flags = some (options, [])) {source : List Char}
    (hline : '\n' ∉ source) (hblank : Text.trimmed source ≠ [])
    (hword : isFarewell (Text.trimmed source) = false) (hminus : source.head? ≠ some '-')
    (answers : List UInt8) :
    let calculation := calculate options (Text.trimmed source) none (.ofBytes answers)
    let rest := session options (.ofBytes calculation.2.unread)
    let once := run (flags ++ [source]) answers
    run flags (Text.encode (source ++ ['\n', '\n']) ++ answers) =
      (banner ++ "Expression 1: " ++ "Expression 2 (press ENTER to skip comparison): " ++
        (calculation.2.written ++ report calculation.1) ++ "\n" ++ rest.2.written, rest.1) ∧
    once = (calculation.2.written ++
      report (calculation.1.mapError (Failure.mapColumn (shift (Text.leadingBlanks source)))),
      codeOf calculation.1) ∧
    (Text.leadingBlanks source = 0 →
      once = (calculation.2.written ++ report calculation.1, codeOf calculation.1)) := by
  intro calculation rest once
  have honce : once = (calculation.2.written ++
      report (calculation.1.mapError (Failure.mapColumn (shift (Text.leadingBlanks source)))),
      codeOf calculation.1) := by
    have hrun := run_of_expression (CommandLine.ofArguments?_append h hminus) answers
    rw [calculate_trimmed] at hrun
    dsimp only at hrun
    rw [codeOf_mapError] at hrun
    exact hrun
  refine ⟨run_of_first_expression h hline hblank hword answers, honce, fun h0 => ?_⟩
  rw [honce, h0, mapError_mapColumn_zero]

/-- Without arguments everything is as it is by default. -/
theorem ofArguments?_nil : CommandLine.ofArguments? [] =
    some (⟨.permissive, Comparison.defaultTolerance, false⟩, []) := by
  rw [CommandLine.ofArguments?, CommandLine.read, if_neg Bool.false_ne_true, Option.map_some]
  simp only [CommandLine.Reading.empty, Bool.false_eq_true, if_false, Option.getD_none]

/-- Blanks behind the expression make no difference. -/
theorem session_and_single_run_trailing :
    let source := "√x ".toList
    let options : Options := ⟨.permissive, Comparison.defaultTolerance, false⟩
    let answers := Text.encode "2i\n".toList
    let calculation := calculate options (Text.trimmed source) none (.ofBytes answers)
    let rest := session options (.ofBytes calculation.2.unread)
    run [] (Text.encode (source ++ ['\n', '\n']) ++ answers) =
      (banner ++ "Expression 1: " ++ "Expression 2 (press ENTER to skip comparison): " ++
        (calculation.2.written ++ report calculation.1) ++ "\n" ++ rest.2.written, rest.1) ∧
    run [source] answers =
      (calculation.2.written ++ report calculation.1, codeOf calculation.1) := by
  intro source options answers calculation rest
  have hline : '\n' ∉ source := by decide +kernel
  have hblank : Text.trimmed source ≠ [] := by decide +kernel
  have hword : isFarewell (Text.trimmed source) = false := by decide +kernel
  have hminus : source.head? ≠ some '-' := by decide +kernel
  obtain ⟨hsession, -, honce⟩ :=
    session_and_single_run ofArguments?_nil hline hblank hword hminus answers
  exact ⟨hsession, honce (by decide +kernel)⟩

/-- The tree of `1/0`. -/
def ratioByZero (one ratio nought : Nat) : Expr :=
  .binary .div (.literal (.ofReal (numeralValue ['1'])) one)
    (.literal (.ofReal (numeralValue ['0'])) nought) ratio

theorem parse_ratioByZero {mode : Mode} {source : List Char} {one ratio nought : Nat}
    (h : cut (cells source) = [(.token (.number ['1']), one), (.token .slash, ratio),
      (.token (.number ['0']), nought)]) :
    parse mode source = .ok (ratioByZero one ratio nought) := by
  have ht : tokenize mode source =
      .ok ([⟨.number ['1'], one⟩] ++ ⟨.slash, ratio⟩ :: [⟨.number ['0'], nought⟩]) :=
    tokenize_of_cut h rfl mode
  have hone : IsNumber ['1'] := ⟨.digit rfl nofun, by decide⟩
  have hzero : IsNumber ['0'] := ⟨.digit rfl nofun, by decide⟩
  exact parse_eq_ok_iff.2 ⟨_, ht, .ofTerm (.product rfl (.inr rfl)
    (.ofFactor (.real hone nofun)) (.real hzero nofun))⟩

theorem calculate_ratioByZero {options : Options} {source : List Char} {one ratio nought : Nat}
    (h : parse options.mode source = .ok (ratioByZero one ratio nought)) (t : Terminal) :
    calculate options source none t = (.error (.evaluation (.divisionByZero ratio)), t) := by
  have hzero : (Complex.ofReal (numeralValue ['0'])).isZero = true := by decide +kernel
  have hrun : (ratioByZero one ratio nought).evaluate Terminal.resolver t =
      ⟨.error (.divisionByZero ratio), [], t, []⟩ := by
    simp [ratioByZero, Expr.evaluate, Expr.eval, BinaryOperator.apply, hzero, Except.bind]
  unfold calculate evaluateShown
  rw [h]
  dsimp only
  rw [hrun]

/-- Without any input a session writes its first prompt. -/
theorem session_of_nothing (options : Options) :
    ((session options (.ofBytes [])).2.written, (session options (.ofBytes [])).1) =
      ("Expression 1: ", 0) := by
  have hround : round options (.ofBytes []) =
      (some 0, (Terminal.ofBytes []).hear .firstPrompt) := by
    rw [round, request_eq]
    rfl
  rw [session_of_some options hround]
  have hwritten : ((Terminal.ofBytes []).hear .firstPrompt).written = "" ++ "Expression 1: " :=
    Terminal.readLine_written _
  rw [hwritten, String.empty_append]

/-- With a blank in front of `1/0` the session is off by one column, and the single run is not. -/
theorem session_column_without_blank :
    run [] (Text.encode (" 1/0".toList ++ ['\n', '\n'])) =
      (banner ++ "Expression 1: " ++ "Expression 2 (press ENTER to skip comparison): " ++
        "Error: Error at column 2: Division by zero.\n" ++ "\n" ++ "Expression 1: ", 0) ∧
    run [" 1/0".toList] [] = ("Error: Error at column 3: Division by zero.\n", 1) := by
  have hcut : cut (cells " 1/0".toList) =
      [(.token (.number ['1']), 2), (.token .slash, 3), (.token (.number ['0']), 4)] := by
    decide +kernel
  have hcut' : cut (cells (Text.trimmed " 1/0".toList)) =
      [(.token (.number ['1']), 1), (.token .slash, 2), (.token (.number ['0']), 3)] := by
    decide +kernel
  have hline : '\n' ∉ " 1/0".toList := by decide +kernel
  have hblank : Text.trimmed " 1/0".toList ≠ [] := by decide +kernel
  have hword : isFarewell (Text.trimmed " 1/0".toList) = false := by decide +kernel
  have hminus : " 1/0".toList.head? ≠ some '-' := by decide +kernel
  have hfirst := run_of_first_expression ofArguments?_nil hline hblank hword []
  have honce := run_of_expression (CommandLine.ofArguments?_append ofArguments?_nil hminus) []
  have hreport : report (.error (.evaluation (.divisionByZero 2))) =
      "Error: Error at column 2: Division by zero.\n" := by decide +kernel
  have hreport' : report (.error (.evaluation (.divisionByZero 3))) =
      "Error: Error at column 3: Division by zero.\n" := by decide +kernel
  obtain ⟨hwritten, hcode⟩ := Prod.mk.inj
    (session_of_nothing ⟨.permissive, Comparison.defaultTolerance, false⟩)
  rw [calculate_ratioByZero (parse_ratioByZero hcut')] at hfirst
  rw [calculate_ratioByZero (parse_ratioByZero hcut)] at honce
  dsimp only [Terminal.ofBytes] at hfirst honce hwritten hcode
  rw [List.append_nil, hreport, String.empty_append, hwritten, hcode] at hfirst
  rw [List.nil_append, hreport', String.empty_append] at honce
  exact ⟨hfirst, honce⟩

end Shell

end Argand
