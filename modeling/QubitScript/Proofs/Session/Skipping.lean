import QubitScript.Proofs.Expr.Raising
import QubitScript.Proofs.Session.LineNumbers

/-!
# Lines after a skipped line

A session that has skipped a line is at the next line number, and is otherwise where it was. A line
comes to the same in it, with the line number in its error one higher.
-/

namespace QubitScript

/-! ## Errors one line further down -/

def ExecutionError.raise : ExecutionError → ExecutionError
  | parse error => .parse error.raise
  | eval error => .eval error.raise

/-- The same error on the next line. An error that names no line is the same on any line. -/
def LineError.raise : LineError → LineError
  | lex fault => .lex { fault with line := fault.line + 1 }
  | execution error => .execution error.raise
  | error => error

theorem LineError.raise_of_line? {error : LineError} (h : error.line? = none) :
    error.raise = error := by
  cases error with
  | lex | execution => cases h
  | _ => rfl

/-- What fails without naming a line fails in the same way on the next line. -/
theorem mapError_raise {α : Type} {x : Except LineError α}
    (h : ∀ error, x = .error error → error.line? = none) : x.mapError LineError.raise = x := by
  cases x with
  | ok a => rfl
  | error error => exact congrArg Except.error (LineError.raise_of_line? (h error rfl))

/-! ## Requests to the machine -/

namespace Machine

variable {line : Nat}

theorem run_eval (expr : Expr) (machine : Machine) :
    (eval expr).run.run machine =
      let ran := (expr.eval machine.bindings).run.run machine.printed
      (ran.1.mapError ExecutionError.eval, { machine with printed := ran.2 }) := rfl

theorem eval_raise (expr : Expr) : eval expr.raise = (eval expr).adapt ExecutionError.raise := by
  refine ext_run fun machine => ?_
  rw [run_adapt, run_eval, run_eval, Expr.eval_raise, run_adapt]
  dsimp only
  cases ((expr.eval machine.bindings).run.run machine.printed).1 <;> rfl

theorem evaluate_raise (source : String) (hline : 0 < line) :
    evaluate source (line + 1) = (evaluate source line).adapt ExecutionError.raise := by
  rw [evaluate, evaluate, ← raise_of_pos hline, Expr.read_raise source hline]
  cases Expr.read source line with
  | error error => rfl
  | ok expr => exact eval_raise expr

theorem assign_raise (source : String) (hline : 0 < line) :
    assign source (line + 1) = (assign source line).adapt ExecutionError.raise := by
  rw [assign, assign, ← raise_of_pos hline, Assignment.read_raise source hline]
  cases Assignment.read source line with
  | error error => rfl
  | ok assignment =>
      change (eval assignment.value.raise >>= _) = (eval assignment.value >>= _).adapt _
      exact bind_eq_adapt (eval_raise assignment.value) fun _ => rfl

theorem applyGate_raise (gate : Gate) (qubits : List String) (hline : 0 < line) :
    applyGate gate qubits (line + 1) =
      (applyGate gate qubits line).adapt ExecutionError.raise := by
  refine ext_run fun machine => ?_
  rw [run_adapt, run_applyGate, run_applyGate, ← raise_of_pos hline]
  cases machine.register.apply gate qubits <;> rfl

theorem call_raise (site : CallSite) (hline : 0 < site.line) :
    call { site with line := site.line + 1 } = (call site).adapt ExecutionError.raise := by
  unfold call
  dsimp only
  split
  · exact bind_eq_adapt (applyGate_raise _ _ hline) fun _ => rfl
  · exact bind_eq_adapt (evaluate_raise _ hline) fun _ => rfl

end Machine

/-! ## Lines -/

section Lines

variable {line : Nat}

theorem line?_of_resolve {handles : HandleTable} {handle : Handle} {error : LineError}
    (h : handles.resolve handle = .error error) : error.line? = none := by
  rw [HandleTable.resolve] at h
  cases hfound : handles.get? handle <;> rw [hfound] at h <;> cases h
  rfl

theorem line?_of_texts {handles : HandleTable} {call : LineCall} {error : LineError}
    (h : call.texts handles = .error error) : error.line? = none := by
  obtain ⟨handle, -, h⟩ := mapM_eq_error h
  exact line?_of_resolve h

theorem line?_of_source {handles : HandleTable} {item : Item} {error : LineError}
    (h : item.source handles = .error error) : error.line? = none := by
  cases item with
  | operator | name => cases h
  | value handle => exact line?_of_resolve h
  | call call => exact line?_of_texts (error_of_bind_pure h)

/-- Items that cannot be put together do not say on which line. -/
theorem line?_of_build {handles : HandleTable} {items : List Item} {error : LineError}
    (h : (Chain.build items).resolve handles = .error error) : error.line? = none := by
  rcases Chain.resolve_build items handles with ⟨index, hresolve⟩ | hresolve
  · rw [hresolve] at h
    cases h
    rfl
  · rw [hresolve] at h
    obtain ⟨item, -, h⟩ := mapM_eq_error (error_of_bind_pure h)
    exact line?_of_source h

namespace Command

theorem request_raise {σ α : Type} (action : Running σ α) :
    request (action.adapt ExecutionError.raise) = (request action).adapt LineError.raise := by
  rw [request, request, adapt_adapt, adapt_adapt]
  rfl

theorem liftExcept_raise {σ α : Type} {x : Except LineError α}
    (h : ∀ error, x = .error error → error.line? = none) :
    (liftExcept x : Acting σ α) = (liftExcept x : Acting σ α).adapt LineError.raise := by
  rw [adapt_liftExcept, mapError_raise h]

theorem runCall_raise (handles : HandleTable) (call : LineCall) (hline : 0 < line) :
    runCall Machine.executor handles (line + 1) call =
      (runCall Machine.executor handles line call).adapt LineError.raise := by
  refine bind_eq_adapt (liftExcept_raise fun _ => line?_of_texts) fun arguments => ?_
  refine bind_eq_adapt ?_ fun value => rfl
  rw [← request_raise]
  exact congrArg request (Machine.call_raise ⟨call.name, arguments, _, line⟩ hline)

theorem runCalls_raise (handles : HandleTable) (calls : List LineCall) (hline : 0 < line) :
    runCalls Machine.executor handles (line + 1) calls =
      (runCalls Machine.executor handles line calls).adapt LineError.raise := by
  induction calls with
  | nil => rfl
  | cons call calls ih =>
      exact bind_eq_adapt (runCall_raise handles call hline) fun _ => bind_eq_adapt ih fun _ => rfl

theorem run_raise (handles : HandleTable) (command : Command) (hline : 0 < line) :
    command.run Machine.executor handles (line + 1) =
      (command.run Machine.executor handles line).adapt LineError.raise := by
  cases command with
  | expression items =>
      refine bind_eq_adapt (liftExcept_raise fun _ => line?_of_build) fun source => ?_
      split
      · refine bind_eq_adapt ?_ fun _ => rfl
        rw [← request_raise]
        exact congrArg request (Machine.assign_raise source hline)
      · refine bind_eq_adapt ?_ fun _ => rfl
        rw [← request_raise]
        exact congrArg request (Machine.evaluate_raise source hline)
  | calls calls => exact bind_eq_adapt (runCalls_raise handles calls hline) fun _ => rfl

end Command

end Lines

namespace Session

theorem lineAction_raise (lexer : Lexer) (text : String) {line : Nat} (hline : 0 < line) :
    lineAction lexer Machine.executor text (line + 1) =
      (lineAction lexer Machine.executor text line).adapt LineError.raise := by
  unfold lineAction
  cases lexer.tokenize text with
  | error fault =>
      have hfault : line + 1 + fault.line - 1 = line + fault.line - 1 + 1 := by omega
      dsimp only
      rw [hfault]
      rfl
  | ok tokens =>
      dsimp only
      cases hitems : ItemizedLine.ofTokens tokens with
      | error error =>
          have herror := LineError.raise_of_line? (ItemizedLine.line?_of_ofTokens hitems)
          exact congrArg (throw ·) herror.symm
      | ok itemized =>
          dsimp only
          unfold ItemizedLine.run
          cases Command.classify itemized.items with
          | none => rfl
          | some command => exact command.run_raise itemized.handles hline

/-- A line comes to the same after a skipped line, but for the number of its line. -/
theorem interpret_skipLine {session : Session Machine}
    (hexecutor : session.executor = Machine.executor)
    (text : String) :
    session.skipLine.interpret text =
      ((session.interpret text).1.mapError LineError.raise,
        (session.interpret text).2.skipLine) := by
  have hnext : lineAction session.skipLine.lexer session.skipLine.executor text
      (session.skipLine.lines + 1) =
      (lineAction session.lexer session.executor text (session.lines + 1)).adapt
        LineError.raise := by
    have hraise := lineAction_raise session.lexer text (Nat.succ_pos session.lines)
    rwa [← hexecutor] at hraise
  rw [interpret_eq_lineAction, interpret_eq_lineAction, hnext, run_adapt]
  rfl

end Session

end QubitScript
