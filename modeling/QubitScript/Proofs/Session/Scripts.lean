import QubitScript.Proofs.Line.Composing
import QubitScript.Proofs.Session.ReadingBack
import QubitScript.Proofs.Session.Skipping

/-!
# Parts of scripts

A script is known from its lines up to the first one that fails: what these lines print is what they
print as a script of their own, and blank lines only count.
-/

namespace QubitScript

/-! ## Actions after a change of the state -/

section Changes

variable {ε α β σ : Type}

/-- An action does the same after a change of the state, which is still there afterwards. -/
def Commutes (change : σ → σ) (action : ExceptT ε (StateM σ) α) : Prop :=
  ∀ state, action.run.run (change state) =
    ((action.run.run state).1, change (action.run.run state).2)

theorem composes_commutes (change : σ → σ) : Composes (Commutes change) where
  lift x state := by rw [run_liftExcept, run_liftExcept]
  adapt f h state := by rw [run_adapt, h state, run_adapt]
  bind := by
    intro ε α β x f hx hf state
    rw [run_bind, hx state, run_bind]
    rcases x.run.run state with ⟨_ | a, after⟩
    · rfl
    · exact hf a after

end Changes

/-! ## Text printed before -/

section Evaluations

variable {P : {ε α : Type} → Printing ε α → Prop} {bindings : Bindings}

/-- What holds of printing a value holds of calling any function. -/
theorem Composes.callFunction (h : Composes P)
    (hprint : ∀ value, P (Function.applyPrint value : Printing EvalFault Value)) (name : String)
    (arguments : List Value) : P (QubitScript.callFunction name arguments) := by
  unfold QubitScript.callFunction
  split
  next function _ =>
    match arguments with
    | [] | _ :: _ :: _ => exact h.throw _
    | [value] =>
      cases function with
      | print => exact hprint value
      | _ => exact h.lift _
  next => split <;> exact h.throw _

mutual

/-- What holds of printing a value holds of an evaluation. -/
theorem Composes.eval (h : Composes P)
    (hprint : ∀ value, P (Function.applyPrint value : Printing EvalFault Value)) :
    ∀ expr : Expr, P (expr.eval bindings)
  | .literal _ _ => by
      rw [Expr.eval]
      exact h.pure _
  | .variable _ _ => by
      rw [Expr.eval]
      exact h.adapt _ (h.lift _)
  | .negate operand _ => by
      rw [Expr.eval]
      exact h.bind (Composes.eval h hprint operand) fun _ => h.adapt _ (h.lift _)
  | .binary _ left right _ => by
      rw [Expr.eval]
      exact h.bind (Composes.eval h hprint left) fun _ =>
        h.bind (Composes.eval h hprint right) fun _ => h.adapt _ (h.lift _)
  | .call name arguments _ => by
      rw [Expr.eval]
      exact h.bind (Composes.evalAll h hprint arguments) fun values =>
        h.adapt _ (h.callFunction hprint name values)

theorem Composes.evalAll (h : Composes P)
    (hprint : ∀ value, P (Function.applyPrint value : Printing EvalFault Value)) :
    ∀ exprs : List Expr, P (Expr.evalAll bindings exprs)
  | [] => by
      rw [Expr.evalAll]
      exact h.pure _
  | expr :: exprs => by
      rw [Expr.evalAll]
      exact h.bind (Composes.eval h hprint expr) fun _ =>
        h.bind (Composes.evalAll h hprint exprs) fun _ => h.pure _

end

end Evaluations

namespace Machine

/-- The machine with a text printed before all that it has printed. -/
def printedAfter (text : String) (machine : Machine) : Machine :=
  { machine with printed := text ++ machine.printed }

variable {text : String}

theorem commutes_applyPrint {ε : Type} (value : Value) :
    Commutes (text ++ ·) (Function.applyPrint value : Printing ε Value) := by
  intro printed
  change (Except.ok value, text ++ printed ++ value.write ++ "\n") =
    (Except.ok value, text ++ (printed ++ value.write ++ "\n"))
  rw [String.append_assoc, String.append_assoc, String.append_assoc]

theorem commutes_eval (expr : Expr) : Commutes (printedAfter text) (eval expr) := by
  intro machine
  have hcommutes : Commutes (text ++ ·) (expr.eval machine.bindings) :=
    (composes_commutes (text ++ ·)).eval commutes_applyPrint expr
  rw [run_eval, run_eval]
  dsimp only [printedAfter]
  rw [hcommutes machine.printed]

theorem commutes_evaluate (source : String) (line : Nat) :
    Commutes (printedAfter text) (evaluate source line) :=
  (composes_commutes _).bind ((composes_commutes _).lift _) commutes_eval

theorem commutes_assign (source : String) (line : Nat) :
    Commutes (printedAfter text) (assign source line) := by
  refine (composes_commutes _).bind ((composes_commutes _).lift _) fun assignment => ?_
  exact (composes_commutes _).bind (commutes_eval _) fun value machine => rfl

theorem commutes_call (site : CallSite) : Commutes (printedAfter text) (call site) := by
  unfold call
  split
  · refine (composes_commutes _).bind (fun machine => ?_) fun _ => (composes_commutes _).pure _
    rw [run_applyGate, run_applyGate]
    dsimp only [printedAfter]
    cases machine.register.apply _ site.arguments <;> rfl
  · exact (composes_commutes _).bind (commutes_evaluate _ _) fun _ => (composes_commutes _).pure _

end Machine

/-! ## Sessions after a change -/

namespace Session

/-- The session with a text printed before all that it has printed. -/
def printedAfter (text : String) (session : Session Machine) : Session Machine :=
  { session with state := session.state.printedAfter text }

theorem interpret_printedAfter {session : Session Machine}
    (hexecutor : session.executor = Machine.executor) (printed text : String) :
    (session.printedAfter printed).interpret text =
      ((session.interpret text).1, (session.interpret text).2.printedAfter printed) := by
  have hline : Commutes (Machine.printedAfter printed)
      (lineAction session.lexer Machine.executor text (session.lines + 1)) :=
    (composes_commutes _).lineAction fun _ itemized _ _ => (composes_commutes _).run itemized
      (fun _ _ site _ => Machine.commutes_call site)
      (fun _ source => Machine.commutes_assign source _)
      fun _ source => Machine.commutes_evaluate source _
  rw [← hexecutor] at hline
  have hran :
      (lineAction (session.printedAfter printed).lexer (session.printedAfter printed).executor
      text ((session.printedAfter printed).lines + 1)).run.run
        (session.printedAfter printed).state = _ :=
    hline session.state
  rw [interpret_eq_lineAction, interpret_eq_lineAction, hran]
  rfl

/-- A change of sessions that no line notices, except that it may report errors otherwise. -/
structure Unnoticed (change : Session Machine → Session Machine) (report : LineError → LineError) :
    Prop where
  interpret {session : Session Machine} (text : String) : session.executor = Machine.executor →
    (change session).interpret text =
      ((session.interpret text).1.mapError report, change (session.interpret text).2)
  skipLine (session : Session Machine) : (change session).skipLine = change session.skipLine
  print (session : Session Machine) (text : String) :
    (change session).print text = change (session.print text)

theorem unnoticed_skipLine : Unnoticed skipLine LineError.raise where
  interpret text hexecutor := interpret_skipLine hexecutor text
  skipLine _ := rfl
  print _ _ := rfl

theorem unnoticed_printedAfter (text : String) : Unnoticed (printedAfter text) id where
  interpret line hexecutor := by rw [interpret_printedAfter hexecutor, mapError_id]
  skipLine _ := rfl
  print session added := by
    unfold print printedAfter Machine.printedAfter
    dsimp only
    rw [String.append_assoc]

end Session

namespace Script

variable {change : Session Machine → Session Machine} {report : LineError → LineError}
  {showValues : Bool} {session : Session Machine}

theorem step_of_unnoticed (h : Session.Unnoticed change report)
    (hexecutor : session.executor = Machine.executor) (line : String) :
    step showValues (change session) line =
      ((step showValues session line).1.mapError report,
        change (step showValues session line).2) := by
  unfold step
  split
  · rw [h.skipLine]
    rfl
  · rw [h.interpret line hexecutor]
    rcases session.interpret line with ⟨error | outcome, after⟩
    · rfl
    · dsimp only [Except.mapError]
      split
      · rw [h.print]
      · rfl

/-- A line that succeeds prints its value, if values are shown. -/
theorem step_of_ok {line : String} {outcome : Outcome} (hline : isBlankLine line = false)
    (h : (session.interpret line).1 = .ok outcome) :
    step true session line = (.ok (), (session.interpret line).2.print (shown outcome)) := by
  rw [step, hline, if_neg (by decide)]
  rcases hran : session.interpret line with ⟨result, after⟩
  rw [hran] at h
  cases h
  rfl

theorem runLines_of_unnoticed (h : Session.Unnoticed change report) (lines : List String) :
    ∀ {session : Session Machine}, session.executor = Machine.executor →
    runLines showValues (change session) lines =
      ((runLines showValues session lines).1.mapError report,
        change (runLines showValues session lines).2) := by
  induction lines with
  | nil => exact fun _ => rfl
  | cons line lines ih =>
      intro session hexecutor
      have hcounts := step_counts showValues session line
      rw [runLines, runLines, step_of_unnoticed h hexecutor]
      rcases hstep : step showValues session line with ⟨_ | _, after⟩
      · rfl
      · rw [hstep] at hcounts
        exact ih (hcounts.2.1.trans hexecutor)

theorem runLines_append (first second : List String) : ∀ session : Session Machine,
    runLines showValues session (first ++ second) =
      match runLines showValues session first with
      | (.error error, between) => (.error error, between)
      | (.ok (), between) => runLines showValues between second := by
  induction first with
  | nil => exact fun _ => rfl
  | cons line first ih =>
      intro session
      rw [List.cons_append, runLines, runLines]
      rcases step showValues session line with ⟨_ | _, after⟩
      · rfl
      · exact ih after

theorem executor_runLines (showValues : Bool) (lines : List String) : ∀ session : Session Machine,
    (runLines showValues session lines).2.executor = session.executor := by
  induction lines with
  | nil => exact fun _ => rfl
  | cons line lines ih =>
      intro session
      have hcounts := step_counts showValues session line
      rw [runLines]
      rcases hstep : step showValues session line with ⟨_ | _, after⟩ <;> rw [hstep] at hcounts
      · exact hcounts.2.1
      · exact (ih after).trans hcounts.2.1

/-- The text that a line prints in a session. -/
def printedBy (showValues : Bool) (session : Session Machine) (line : String) : String :=
  (step showValues { session with state := { session.state with printed := "" } }
    line).2.state.printed

theorem printed_step (hexecutor : session.executor = Machine.executor) (line : String) :
    (step showValues session line).2.state.printed =
      session.state.printed ++ printedBy showValues session line := by
  -- A session is one that has printed nothing, with the printed text put before.
  let silent : Session Machine := { session with state := { session.state with printed := "" } }
  have hsession : silent.printedAfter session.state.printed = session := by
    have hprinted : session.state.printed ++ "" = session.state.printed := String.append_empty
    unfold Session.printedAfter Machine.printedAfter
    dsimp only [silent]
    rw [hprinted]
  have hsilent : silent.executor = Machine.executor := hexecutor
  have hstep : step showValues (silent.printedAfter session.state.printed) line = _ :=
    step_of_unnoticed (Session.unnoticed_printedAfter session.state.printed) hsilent line
  rw [hsession] at hstep
  rw [hstep]
  rfl

theorem run_of_no_start {options : LexerOptions} {error : LineError}
    (hstart : Session.start options = .error error) (source : String) :
    run source options showValues = (.error error, "") := by
  unfold run
  rw [hstart]

theorem run_of_start {options : LexerOptions} {start : Session Machine}
    (hstart : Session.start options = .ok start) (source : String) :
    run source options showValues = ((runLines showValues start (lines source)).1,
      (runLines showValues start (lines source)).2.state.printed) := by
  unfold run
  rw [hstart]

/-! ## Scripts of given lines -/

theorem splitLines_break (rest : List Char) {line : List Char} : ∀ {piece : List Char},
    '\n' ∉ line →
    splitLines piece (line ++ '\n' :: rest) =
      dropReturn (piece.reverse ++ line) :: splitLines [] rest := by
  induction line with
  | nil =>
      intro piece _
      rw [List.append_nil]
      rfl
  | cons c line ih =>
      intro piece hline
      have hc : c ≠ '\n' := (List.ne_of_not_mem_cons hline).symm
      rw [List.cons_append, splitLines]
      · rw [ih (List.not_mem_of_not_mem_cons hline), List.reverse_cons, List.append_assoc]
        rfl
      · exact hc

/-- A script with given lines. -/
def ofLines (lines : List String) : String := String.join (lines.map (· ++ "\r\n"))

/-- Texts without line breaks are the lines of a script. -/
theorem lines_ofLines {texts : List String} (h : ∀ text ∈ texts, '\n' ∉ text.toList) :
    lines (ofLines texts) = texts := by
  induction texts with
  | nil => rfl
  | cons text texts ih =>
      obtain ⟨htext, htexts⟩ := List.forall_mem_cons.mp h
      have hbreak : (ofLines (text :: texts)).toList =
          (text.toList ++ ['\r']) ++ '\n' :: (ofLines texts).toList := by
        rw [ofLines, List.map_cons, String.join_cons, String.toList_append, String.toList_append]
        simp [ofLines]
      have hreturn : dropReturn (text.toList ++ ['\r']) = text.toList := by
        rw [dropReturn, List.getLast?_concat, if_pos rfl, List.dropLast_concat]
      have hline : '\n' ∉ text.toList ++ ['\r'] := by simpa using htext
      rw [lines, hbreak, splitLines_break _ hline, List.reverse_nil, List.nil_append, hreturn,
        List.map_cons, String.ofList_toList]
      exact congrArg (text :: ·) (ih htexts)

/-- Every front of a script is a script of its own, and other lines can be put after it. -/
theorem lines_ofLines_between {source : String} {before between after : List String}
    (h : lines source = before ++ after) (hbetween : ∀ text ∈ between, '\n' ∉ text.toList) :
    lines (ofLines before) = before ∧
      lines (ofLines (before ++ between ++ after)) = before ++ between ++ after := by
  have hlines : ∀ text ∈ before ++ after, '\n' ∉ text.toList := fun text htext =>
    not_mem_newline_of_mem_lines (h ▸ htext)
  obtain ⟨hbefore, hafter⟩ := List.forall_mem_append.mp hlines
  constructor
  · exact lines_ofLines hbefore
  · apply lines_ofLines
    exact List.forall_mem_append.mpr ⟨List.forall_mem_append.mpr ⟨hbefore, hbetween⟩, hafter⟩

end Script

/-! ## Errors on later lines -/

/-- The error with its line number one higher, if it names a line. -/
def LineError.later : LineError → LineError
  | lex fault => .lex { fault with line := fault.line + 1 }
  | execution (.parse error) => .execution (.parse { error with line := error.line + 1 })
  | execution (.eval error) => .execution (.eval { error with line := error.line + 1 })
  | error => error

theorem LineError.raise_eq_later {error : LineError} (h : error.line? ≠ some 0) :
    error.raise = error.later := by
  cases error with
  | execution cause =>
      have hline : 0 < cause.line := Nat.pos_of_ne_zero fun hzero => h (congrArg some hzero)
      have hraise := raise_of_pos hline
      cases cause with
      | parse error => exact congrArg (fun line => execution (.parse ⟨line, error.item⟩)) hraise
      | eval error => exact congrArg (fun line => execution (.eval ⟨line, error.item⟩)) hraise
  | _ => rfl

namespace Script

variable {source : String} {options : LexerOptions} {showValues : Bool}

/-- An error of a script never names line zero. -/
theorem mapError_raise_run :
    (run source options showValues).1.mapError LineError.raise =
      (run source options showValues).1.mapError LineError.later := by
  cases hrun : (run source options showValues).1 with
  | ok => rfl
  | error error =>
      refine congrArg Except.error (LineError.raise_eq_later fun hzero => ?_)
      -- The line is one of the script, and these are counted from one.
      obtain ⟨before, -, -, -, -, -, -, -, -, hline⟩ := run_eq_error hzero hrun
      omega

/-- Nothing after the first line that fails matters. -/
theorem runLines_of_failing {start session : Session Machine} {front rest : List String}
    {failing : String} {error : LineError}
    (hfront : runLines showValues start front = (.ok (), session))
    (hfailing : (step showValues session failing).1 = .error error) :
    runLines showValues start (front ++ failing :: rest) =
      (.error error, (step showValues session failing).2) := by
  rw [runLines_append, hfront]
  dsimp only
  rw [runLines]
  rcases hstep : step showValues session failing with ⟨_ | _, after⟩ <;> rw [hstep] at hfailing
  · cases hfailing
    rfl
  · cases hfailing

theorem error_of_last {start session : Session Machine} {front : List String} {failing : String}
    {error : LineError} (hfront : runLines showValues start front = (.ok (), session))
    (herror : (runLines showValues start (front ++ [failing])).1 = .error error) :
    (step showValues session failing).1 = .error error := by
  rw [runLines_append, hfront] at herror
  dsimp only at herror
  rw [runLines] at herror
  rcases hstep : step showValues session failing with ⟨_ | _, after⟩ <;> rw [hstep] at herror
  · exact herror
  · cases herror

/-- A blank line between others moves those after it one line down. -/
theorem runLines_of_inserted {start : Session Machine}
    (hexecutor : start.executor = Machine.executor)
    {blank : String} (hblank : isBlankLine blank = true) (before after : List String) :
    (runLines showValues start (before ++ blank :: after)).2.state.printed =
        (runLines showValues start (before ++ after)).2.state.printed ∧
      (runLines showValues start (before ++ blank :: after)).1 =
        match (runLines showValues start before).1 with
        | .ok () => (runLines showValues start (before ++ after)).1.mapError LineError.raise
        | .error _ => (runLines showValues start (before ++ after)).1 := by
  have hbetween := executor_runLines showValues before start
  rw [runLines_append, runLines_append]
  rcases hbefore : runLines showValues start before with ⟨_ | _, between⟩ <;>
    rw [hbefore] at hbetween
  · exact ⟨rfl, rfl⟩
  · dsimp only
    rw [runLines_of_blank hblank,
      runLines_of_unnoticed Session.unnoticed_skipLine after (hbetween.trans hexecutor)]
    exact ⟨rfl, rfl⟩

end Script

/-- A script does what it does up to the first line that fails, and prints first what the lines
before it print as a script of their own. One more blank line changes nothing about what is printed,
and in an error of a later line only the number of that line. -/
theorem scripts_stop_and_blank_lines_count (source : String) (options : LexerOptions)
    (showValues : Bool) :
    (∀ front failing rest own stopped error,
      Script.lines source = front ++ failing :: rest → Script.lines own = front →
      Script.lines stopped = front ++ [failing] →
      (Script.run own options showValues).1 = .ok () →
      (Script.run stopped options showValues).1 = .error error →
      Script.run source options showValues = Script.run stopped options showValues ∧
      ∃ start session, Session.start options = .ok start ∧
        Script.runLines showValues start front = (.ok (), session) ∧
        (Script.run source options showValues).2 =
          (Script.run own options showValues).2 ++ Script.printedBy showValues session failing) ∧
    ∀ before blank after own inserted,
      Script.lines source = before ++ after → Script.isBlankLine blank = true →
      Script.lines own = before → Script.lines inserted = before ++ blank :: after →
      (Script.run inserted options showValues).2 = (Script.run source options showValues).2 ∧
      (Script.run inserted options showValues).1 =
        match (Script.run own options showValues).1 with
        | .ok () => (Script.run source options showValues).1.mapError LineError.later
        | .error _ => (Script.run source options showValues).1 := by
  constructor
  · intro front failing rest own stopped error hsource hown hstopped hfront herror
    cases hstart : Session.start options with
    | error found =>
        rw [Script.run_of_no_start hstart] at hfront
        cases hfront
    | ok start =>
        obtain ⟨lexer, -, hnew⟩ := Session.start_eq_ok hstart
        rw [Script.run_of_start hstart, hown] at hfront
        rw [Script.run_of_start hstart, hstopped] at herror
        rw [Script.run_of_start hstart, Script.run_of_start hstart, Script.run_of_start hstart,
          hsource, hstopped, hown]
        have hsession := Script.executor_runLines showValues front start
        -- The lines of the front run without an error, as they do in a script of their own.
        rcases hran : Script.runLines showValues start front with ⟨_ | _, session⟩ <;>
          rw [hran] at hfront hsession
        · cases hfront
        · have hfailing := Script.error_of_last hran herror
          rw [Script.runLines_of_failing hran hfailing, Script.runLines_of_failing hran hfailing]
          refine ⟨rfl, start, session, rfl, hran, Script.printed_step ?_ failing⟩
          rw [hsession, hnew]
          rfl
  · intro before blank after own inserted hsource hblank hown hinserted
    cases hstart : Session.start options with
    | error found =>
        rw [Script.run_of_no_start hstart, Script.run_of_no_start hstart,
          Script.run_of_no_start hstart]
        exact ⟨rfl, rfl⟩
    | ok start =>
        obtain ⟨lexer, -, hnew⟩ := Session.start_eq_ok hstart
        have hexecutor : start.executor = Machine.executor := by rw [hnew]; rfl
        rw [← Script.mapError_raise_run, Script.run_of_start hstart, Script.run_of_start hstart,
          Script.run_of_start hstart, hsource, hown, hinserted]
        exact Script.runLines_of_inserted hexecutor hblank before after

/-- A line of digits has the integer as its value, and changes nothing on the machine. -/
theorem Session.interpret_digits {options : LexerOptions} {session : Session Machine}
    (hlexer : Lexer.build commandRules options = .ok session.lexer)
    (hexecutor : session.executor = Machine.executor) {n : Int64} {m : Nat} (hm : n.toInt = m) :
    (session.interpret (Value.integer n).write).1 = .ok (.value (.integer n)) ∧
      (session.interpret (Value.integer n).write).2.state = session.state := by
  have hspelled : Spelled n [.ofDigits m] := .digits hm
  have hsmall : m < 2 ^ (63 : Nat) := by
    have hhigh := n.toInt_lt
    omega
  have hinteger : Int64.ofNat m = n := by
    rw [← Int64.toInt_inj, Int64.toInt_ofNat_of_lt hsmall, hm]
  have hread : Expr.read (joined [.ofDigits m]) (session.lines + 1) =
      .ok (.literal (.integer n) (session.lines + 1)) := by
    rw [Expr.read, Expr.tokensOf, tokenize_of_reads _ (.cons (Token.readsAs_ofDigits hsmall) .nil),
      hinteger]
    exact Expr.Grammar.parseWhole_onLine (.one (.one (.primary .integer)))
  rw [interpret_eq_lineAction, run_of_assembles (hspelled.assembles hlexer),
    if_neg (not_mem_joined hspelled.not_mem_equals), hexecutor]
  dsimp only [Machine.executor]
  rw [Machine.run_evaluate, hread]
  exact ⟨rfl, rfl⟩

/-- A script that prints a value and then fails at a gate on too many qubits, with a line after that
and with a blank line between the two. -/
theorem script_stopped_at_gate :
    let source := "1\nH(a,b)\n2"
    let own := "1\n"
    let stopped := "1\nH(a,b)"
    let inserted := "1\n \nH(a,b)\n2"
    Script.run own {} true = (.ok (), "1\n") ∧
    Script.run stopped {} true = (.error (.execution (.eval ⟨2, .argumentCount⟩)), "1\n") ∧
    Script.run source {} true = Script.run stopped {} true ∧
    (∃ start session, Session.start {} = .ok start ∧
      Script.runLines true start ["1"] = (.ok (), session) ∧
      (Script.run source {} true).2 =
        (Script.run own {} true).2 ++ Script.printedBy true session "H(a,b)") ∧
    Script.run inserted {} true = (.error (.execution (.eval ⟨3, .argumentCount⟩)), "1\n") := by
  obtain ⟨lexer, hlexer, htokens⟩ := exists_lexer_of_tokens {} "H(a,b)"
    [.plain Kind.call "H(a,b)"] (by decide +kernel)
  let start := Session.new lexer Machine.executor .new .default
  have hstart : Session.start {} = .ok start := Session.start_of_build hlexer
  have hwrite : (Value.integer 1).write = "1" := rfl
  obtain ⟨hvalue, hstate⟩ := @Session.interpret_digits {} start hlexer rfl 1 1 rfl
  rw [hwrite] at hvalue hstate
  obtain ⟨hsame, hexecutor⟩ := start.interpret_keeps "1"
  -- The session after the first line has printed its value.
  let between := (start.interpret "1").2.print "1\n"
  have hfirst : Script.step true start "1" = (.ok (), between) :=
    Script.step_of_ok (by decide) hvalue
  have hprintedFirst : between.state.printed = "1\n" := by
    have hbetween : between.state.printed = (start.interpret "1").2.state.printed ++ "1\n" := rfl
    rw [hbetween, hstate]
    rfl
  have hown : Script.run "1\n" {} true = (.ok (), "1\n") := by
    rw [Script.run_of_start hstart, show Script.lines "1\n" = ["1"] by decide, Script.runLines,
      hfirst]
    exact congrArg (Prod.mk _) hprintedFirst
  have hgate : Gate.ofName? "H" = some .h := by decide +kernel
  have hcall : between.lexer.tokenize "H(a,b)" = .ok [.plain Kind.call "H(a,b)"] :=
    hsame ▸ htokens
  have hmachine : between.executor = Machine.executor := hexecutor
  obtain ⟨hrefused, hkept⟩ := Session.interpret_of_refused hmachine hcall
    (rfl : splitCall "H(a,b)" = .ok ("H", ["a", "b"])) hgate rfl
  have hlines : between.lines = 1 := start.lines_interpret "1"
  have hstopped : Script.run "1\nH(a,b)" {} true =
      (.error (.execution (.eval ⟨2, .argumentCount⟩)), "1\n") := by
    have hlast : Script.step true between "H(a,b)" =
        (.error (.execution (.eval ⟨2, .argumentCount⟩)), (between.interpret "H(a,b)").2) := by
      rw [hlines] at hrefused
      rw [Script.step, if_neg (by decide), show between.interpret "H(a,b)" = (_, _) from
        Prod.ext hrefused rfl]
    rw [Script.run_of_start hstart, show Script.lines "1\nH(a,b)" = ["1", "H(a,b)"] by decide,
      Script.runLines, hfirst]
    dsimp only
    rw [Script.runLines, hlast]
    dsimp only
    rw [hkept, hprintedFirst]
  obtain ⟨hstops, hcounts⟩ := scripts_stop_and_blank_lines_count "1\nH(a,b)\n2" {} true
  obtain ⟨hsource, hprefix⟩ :=
    hstops ["1"] "H(a,b)" ["2"] "1\n" "1\nH(a,b)" _ (by decide) (by decide)
    (by decide) (congrArg Prod.fst hown) (congrArg Prod.fst hstopped)
  obtain ⟨hprinted, hresult⟩ := hcounts ["1"] " " ["H(a,b)", "2"] "1\n" "1\n \nH(a,b)\n2"
    (by decide) (by decide) (by decide) (by decide)
  rw [hown, hsource, hstopped] at hresult
  rw [hsource, hstopped] at hprinted
  exact ⟨hown, hstopped, hsource, hprefix, Prod.ext hresult hprinted⟩

end QubitScript
