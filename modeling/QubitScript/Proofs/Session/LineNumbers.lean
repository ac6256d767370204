import QubitScript.Proofs.Expr.FaultLines
import QubitScript.Proofs.Line.SingleCall
import QubitScript.Proofs.Line.Unbroken
import QubitScript.Proofs.Session.Counting

/-!
# Errors name the line that fails

A line of a session is one line from its lexemes to the tokens of its expression, so whatever goes
wrong with it is found on the line that the session has just counted.
-/

namespace QubitScript

/-- The line that an error names. -/
def ExecutionError.line : ExecutionError → Nat
  | parse error => error.line
  | eval error => error.line

/-- The line that an error names, if it names one. -/
def LineError.line? : LineError → Option Nat
  | lex fault => some fault.line
  | execution error => some error.line
  | _ => none

/-! ## Requests to the machine -/

namespace Machine

variable {machine : Machine} {source : String} {line : Nat} {cause : ExecutionError}

theorem line_of_eval {expr : Expr} (hexpr : expr.OnLine line)
    (h : ((eval expr).run.run machine).1 = .error cause) : cause.line = line := by
  rw [result_eval] at h
  obtain ⟨fault, hfault, rfl⟩ := mapError_eq_error.mp h
  exact Expr.line_of_value hexpr hfault

theorem line_of_evaluate (hline : '\n' ∉ source.toList)
    (h : ((evaluate source line).run.run machine).1 = .error cause) : cause.line = line := by
  rw [run_evaluate] at h
  cases hread : Expr.read source line with
  | error fault =>
      rw [hread] at h
      cases h
      exact Expr.line_of_read hline hread
  | ok expr =>
      rw [hread] at h
      exact line_of_eval (Expr.onLine_of_read hline hread) h

theorem line_of_assign (hline : '\n' ∉ source.toList)
    (h : ((assign source line).run.run machine).1 = .error cause) : cause.line = line := by
  rw [run_assign] at h
  cases hread : Assignment.read source line with
  | error fault =>
      rw [hread] at h
      cases h
      exact Expr.line_of_readAssignment hline hread
  | ok assignment =>
      rw [hread] at h
      dsimp only at h
      split at h
      next heval =>
        cases h
        exact line_of_eval (Expr.onLine_of_readAssignment hline hread) (congrArg Prod.fst heval)
      next => cases h

theorem line_of_call {site : CallSite} (hline : '\n' ∉ site.source.toList)
    (h : ((call site).run.run machine).1 = .error cause) : cause.line = site.line := by
  unfold call at h
  cases hgate : Gate.ofName? site.name with
  | some gate =>
      rw [hgate] at h
      dsimp only at h
      rw [run_bind, run_applyGate] at h
      cases happly : machine.register.apply gate site.arguments with
      | error fault =>
          rw [happly] at h
          cases h
          rfl
      | ok register =>
          rw [happly] at h
          cases h
  | none =>
      rw [hgate] at h
      dsimp only at h
      rw [run_bind_pure] at h
      exact line_of_evaluate hline (map_eq_error.mp h)

/-- What the machine is asked for on a line fails on that line. -/
theorem line_of_failsOn {request : Request} (hline : '\n' ∉ request.source.toList)
    (h : executor.FailsOn cause request) : cause.line = request.line := by
  cases h with
  | assign h => exact line_of_assign hline h
  | evaluate h => exact line_of_evaluate hline h
  | call h => exact line_of_call hline h

end Machine

/-! ## Lines of sessions and scripts -/

namespace ItemizedLine

theorem line?_of_requireValue {token : Token} {error : LineError}
    (h : token.requireValue = .error error) : error.line? = none := by
  rw [Token.requireValue] at h
  cases hvalue : token.value <;> rw [hvalue] at h <;> cases h
  rfl

theorem line?_of_splitCall {text : String} {error : LineError} (h : splitCall text = .error error) :
    error.line? = none := by
  rw [splitCall] at h
  split at h <;> cases h
  rfl

theorem line?_of_add {itemized : ItemizedLine} {token : Token} {error : LineError}
    (h : itemized.add token = .error error) : error.line? = none := by
  rw [add] at h
  split at h
  · cases h
  split at h
  · rcases bind_eq_error.mp h with h | ⟨text, -, h⟩
    · exact line?_of_requireValue h
    · rcases bind_eq_error.mp h with h | ⟨_, -, h⟩
      · exact line?_of_splitCall h
      · cases h
  split at h
  · rcases bind_eq_error.mp h with h | ⟨_, -, h⟩
    · exact line?_of_requireValue h
    · cases h
  split at h
  · exact line?_of_requireValue (error_of_bind_pure h)
  split at h
  · exact line?_of_requireValue (error_of_bind_pure h)
  · cases h
    rfl

/-- The faults of items name tokens and calls, but no lines. -/
theorem line?_of_ofTokens {tokens : List Token} {error : LineError}
    (h : ofTokens tokens = .error error) : error.line? = none := by
  have folded : ∀ itemized, tokens.foldlM add itemized = .error error → error.line? = none := by
    clear h
    induction tokens with
    | nil => exact fun _ => nofun
    | cons token tokens ih =>
        intro itemized h
        rw [List.foldlM_cons] at h
        rcases bind_eq_error.mp h with h | ⟨next, -, h⟩
        · exact line?_of_add h
        · exact ih next h
  exact folded .empty h

end ItemizedLine

namespace Session

/-- An error of a line names the line that has just been counted, if it names one. -/
theorem line_of_interpret {session : Session Machine}
    (hrules : ∀ rule ∈ session.lexer.rules, rule.KeepsLine)
    (hexecutor : session.executor = Machine.executor) {text : String} (htext : '\n' ∉ text.toList)
    {error : LineError} {line : Nat} (hline : error.line? = some line)
    (h : (session.interpret text).1 = .error error) : line = session.lines + 1 := by
  cases htokens : session.lexer.tokenize text with
  | error fault =>
      have hfault := Lexer.line_of_tokenize htext htokens
      have hsession : session.skipLine.tokenize text =
          .error { fault with line := session.skipLine.lines + fault.line - 1 } := by
        rw [tokenize]
        exact congrArg (Except.mapError _) htokens
      unfold interpret at h
      simp only [hsession] at h
      cases h
      cases hline
      rw [hfault]
      rfl
  | ok tokens =>
      cases hitems : ItemizedLine.ofTokens tokens with
      | error fault =>
          rw [interpret_of_itemFault htokens hitems] at h
          cases h
          rw [ItemizedLine.line?_of_ofTokens hitems] at hline
          cases hline
      | ok itemized =>
          rw [interpret_of_items htokens hitems, hexecutor] at h
          have hran : ((itemized.run Machine.executor (session.lines + 1)).run.run
            session.state).1 = .error error := h
          rcases ItemizedLine.error_of_run hitems hran with
            ⟨_, rfl⟩ | ⟨cause, request, rfl, hasked, hfails⟩
          · cases hline
          · cases hline
            have hunbroken := Lexer.isUnbroken_of_tokenize hrules htext htokens
            exact (Machine.line_of_failsOn (hasked.not_mem_newline hunbroken) hfails).trans
              hasked.line_eq

end Session

namespace Script

/-- A script that fails has a line that fails, after lines that succeed. -/
theorem run_eq_error {source : String} {options : LexerOptions} {showValues : Bool}
    {error : LineError} {line : Nat} (hline : error.line? = some line)
    (h : (run source options showValues).1 = .error error) : ∃ before failing rest start session,
      lines source = before ++ failing :: rest ∧ Session.start options = .ok start ∧
      runLines showValues start before = (.ok (), session) ∧
      (session.interpret failing).1 = .error error ∧ line = before.length + 1 := by
  unfold run at h
  cases hstart : Session.start options with
  | error found =>
      -- Rules that make no lexer are no fault of a line.
      obtain ⟨fault, rfl⟩ := Session.start_eq_error hstart
      rw [hstart] at h
      cases Except.error.inj h
      cases hline
  | ok start =>
      have hran : (runLines showValues start (lines source)).1 = .error error := by
        rw [hstart] at h
        dsimp only at h
        rcases hran : runLines showValues start (lines source) with ⟨result, after⟩
        rw [hran] at h
        exact h
      obtain ⟨before, failing, rest, session, hsource, hbefore, hfailing, hsame, hexecutor,
        hcount⟩ :=
        runLines_eq_error hran
      obtain ⟨lexer, hlexer, rfl⟩ := Session.start_eq_ok hstart
      have hinterpret := interpret_of_step hfailing
      have hrules : ∀ rule ∈ session.lexer.rules, rule.KeepsLine := by
        rw [hsame]
        exact Lexer.keepsLine_of_build hlexer
      have htext : failing ∈ lines source := by
        rw [hsource]
        exact List.mem_append_right _ (.head _)
      have hnumber :=
        Session.line_of_interpret hrules hexecutor (not_mem_newline_of_mem_lines htext)
        hline hinterpret
      rw [hcount] at hnumber
      refine ⟨before, failing, rest, _, session, hsource, rfl, hbefore, hinterpret,
        hnumber.trans ?_⟩
      rw [Session.new, Nat.zero_add]

end Script

/-! ## Gates that are refused -/

/-- A gate that is refused leaves the machine as it is. -/
theorem Machine.run_call_of_refused {site : CallSite} {gate : Gate}
    (hgate : Gate.ofName? site.name = some gate) {machine : Machine} {fault : EvalFault}
    (hrefused : machine.register.apply gate site.arguments = .error fault) :
    (call site).run.run machine = (.error (.eval ⟨site.line, fault⟩), machine) := by
  have hran := run_applyGate gate site.arguments site.line machine
  rw [hrefused] at hran
  rw [call, hgate]
  exact run_bind_of_error hran _

/-- So the line of such a gate fails with its own number, and the machine stays as it is. -/
theorem Session.interpret_of_refused {session : Session Machine}
    (hexecutor : session.executor = Machine.executor) {text name : String}
    {arguments : List String} {gate : Gate} {fault : EvalFault}
    (htokens : session.lexer.tokenize text = .ok [Token.plain Kind.call text])
    (hsplit : splitCall text = .ok (name, arguments)) (hgate : Gate.ofName? name = some gate)
    (hrefused : session.state.register.apply gate arguments = .error fault) :
    (session.interpret text).1 = .error (.execution (.eval ⟨session.lines + 1, fault⟩)) ∧
      (session.interpret text).2.state = session.state := by
  obtain ⟨hresult, hstate⟩ := session.interpret_of_split htokens hsplit
  have hran : (session.executor.call (siteOf name arguments (session.lines + 1))).run.run
      session.state = (.error (.eval ⟨session.lines + 1, fault⟩), session.state) := by
    rw [hexecutor]
    exact Machine.run_call_of_refused hgate hrefused
  rw [hran] at hresult hstate
  exact ⟨hresult, hstate⟩

/-- An error that names a line names the one that fails: the number of lines that have been
interpreted or skipped in a session, this one included, and the place of the line among the lines of
a script. So no error names line zero, which is where a parser would report that it has run out of
tokens. The actions of the rules are asked to add no line break to a lexeme, which those of the
command notation do not (`Lexer.keepsLine_of_build`). -/
theorem error_names_failing_line {lexer : Lexer} (hrules : ∀ rule ∈ lexer.rules, rule.KeepsLine)
    (machine : Machine) (book : ChallengeBook) (steps : List Session.Step) {text : String}
    (htext : '\n' ∉ text.toList) (source : String) (options : LexerOptions) (showValues : Bool) :
    let session := (Session.new lexer Machine.executor machine book).after steps
    ∀ error line, error.line? = some line →
      ((session.interpret text).1 = .error error →
        line = steps.length + 1 ∧ line = (session.interpret text).2.lines ∧
          error ≠ .execution (.parse Expr.unexpectedEnd)) ∧
      ((Script.run source options showValues).1 = .error error →
        ∃ before failing rest start session, Script.lines source = before ++ failing :: rest ∧
          Session.start options = .ok start ∧
          Script.runLines showValues start before = (.ok (), session) ∧
          (session.interpret failing).1 = .error error ∧ line = before.length + 1) := by
  intro session error line hline
  refine ⟨fun h => ?_, Script.run_eq_error hline⟩
  obtain ⟨hlexer, hexecutor, hlines⟩ :=
    (Session.new lexer Machine.executor machine book).after_counts steps
  have hkeeps : ∀ rule ∈ session.lexer.rules, rule.KeepsLine := by
    rw [hlexer]
    exact hrules
  have hnumber := Session.line_of_interpret hkeeps hexecutor htext hline h
  refine ⟨?_, hnumber.trans (session.lines_interpret text).symm, ?_⟩
  · rw [hnumber, hlines, Session.new, Nat.zero_add]
  · rintro rfl
    cases hline
    cases hnumber

/-- A gate that is applied to the wrong number of qubits, after two lines that do nothing. -/
theorem error_of_third_line : ∃ lexer, Lexer.build commandRules {} = .ok lexer ∧
    let session := (Session.new lexer Machine.executor .new .default).after [.skip, .skip]
    let error := LineError.execution (.eval ⟨3, .argumentCount⟩)
    let source := "\n \nH(a,b)"
    (session.interpret "H(a,b)").1 = .error error ∧
    (Script.run source {} true).1 = .error error ∧
    3 = (session.interpret "H(a,b)").2.lines ∧
    ∃ before failing rest start session, Script.lines source = before ++ failing :: rest ∧
      Session.start {} = .ok start ∧ Script.runLines true start before = (.ok (), session) ∧
      (session.interpret failing).1 = .error error ∧ 3 = before.length + 1 := by
  obtain ⟨lexer, hlexer, htokens⟩ := exists_lexer_of_tokens {} "H(a,b)"
    [.plain Kind.call "H(a,b)"] (by decide +kernel)
  let session := (Session.new lexer Machine.executor .new .default).after [.skip, .skip]
  have htokens : session.lexer.tokenize "H(a,b)" = .ok [Token.plain Kind.call "H(a,b)"] := htokens
  have hgate : Gate.ofName? "H" = some .h := by decide +kernel
  have hsplit : splitCall "H(a,b)" = .ok ("H", ["a", "b"]) := rfl
  obtain ⟨hsession, -⟩ := session.interpret_of_refused rfl htokens hsplit hgate rfl
  have hscript : (Script.run "\n \nH(a,b)" {} true).1 =
      .error (.execution (.eval ⟨3, .argumentCount⟩)) := by
    have hstart := Session.start_of_build hlexer
    have hlines : Script.lines "\n \nH(a,b)" = ["", " ", "H(a,b)"] := by decide
    have hlast := @Script.step_of_error true session "H(a,b)" (by decide) _ hsession
    unfold Script.run
    rw [hstart, hlines]
    have hran : (Script.runLines true (.new lexer Machine.executor .new .default)
        ["", " ", "H(a,b)"]).1 = .error (.execution (.eval ⟨3, .argumentCount⟩)) := by
      rw [Script.runLines_of_blank (by decide), Script.runLines_of_blank (by decide)]
      exact Script.runLines_of_error hlast
    exact hran
  have h := error_names_failing_line (Lexer.keepsLine_of_build hlexer) .new .default [.skip, .skip]
    (by decide : '\n' ∉ "H(a,b)".toList) "\n \nH(a,b)" {} true
    (.execution (.eval ⟨3, .argumentCount⟩)) 3 rfl
  exact ⟨lexer, hlexer, hsession, hscript, (h.1 hsession).2.1, h.2 hscript⟩

end QubitScript
