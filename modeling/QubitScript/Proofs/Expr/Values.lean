import QubitScript.Proofs.Running

/-!
# Values of expressions

The value of an expression does not depend on what has been printed before. So an evaluation is a
calculation beside which something is printed, and the value of an expression comes from the values
of its parts.
-/

namespace QubitScript

variable {ε α β : Type}

namespace Printing

/-- What comes of an action that begins with nothing printed. -/
def outcome (action : Printing ε α) : Except ε α := (action.run.run "").1

/-- What comes of an action is the same whatever has been printed. -/
def Steady (action : Printing ε α) : Prop :=
  ∀ printed, (action.run.run printed).1 = outcome action

theorem steady_pure (a : α) : Steady (pure a : Printing ε α) := fun _ => rfl

theorem steady_throw (e : ε) : Steady (throw e : Printing ε α) := fun _ => rfl

theorem outcome_liftExcept (x : Except ε α) : outcome (liftExcept x : Printing ε α) = x := by
  rw [outcome, run_liftExcept]

theorem steady_liftExcept (x : Except ε α) : Steady (liftExcept x : Printing ε α) := by
  intro printed
  rw [run_liftExcept, outcome_liftExcept]

theorem outcome_bind {x : Printing ε α} {f : α → Printing ε β} (hf : ∀ a, Steady (f a)) :
    outcome (x >>= f) = outcome x >>= fun a => outcome (f a) := by
  rw [outcome, run_bind, outcome]
  rcases x.run.run "" with ⟨_ | a, printed⟩
  · rfl
  · exact hf a printed

theorem steady_bind {x : Printing ε α} {f : α → Printing ε β} (hx : Steady x)
    (hf : ∀ a, Steady (f a)) : Steady (x >>= f) := by
  intro printed
  rw [outcome_bind hf, ← hx printed, run_bind]
  rcases x.run.run printed with ⟨_ | a, printed⟩
  · rfl
  · exact hf a printed

theorem outcome_onLine {line : Nat} {action : Printing ε α} :
    outcome (action.onLine line) = (outcome action).mapError (⟨line, ·⟩) := rfl

theorem steady_onLine {line : Nat} {action : Printing ε α} (h : Steady action) :
    Steady (action.onLine line) := by
  intro printed
  rw [outcome_onLine, ← h printed]
  rfl

end Printing

open Printing

/-! ## Functions -/

theorem steady_apply (function : Function) (value : Value) : Steady (function.apply value) := by
  cases function with
  | print => exact fun _ => rfl
  | _ => exact steady_liftExcept _

theorem steady_callFunction (name : String) (arguments : List Value) :
    Steady (callFunction name arguments) := by
  rw [callFunction]
  split
  next function _ =>
    match arguments with
    | [] | _ :: _ :: _ => exact steady_throw _
    | [value] => exact steady_apply function value
  next => split <;> exact steady_throw _

/-! ## Expressions -/

namespace Expr

/-- The value of an expression, or why it has none. -/
def value (bindings : Bindings) (expr : Expr) : Except EvalError Value :=
  outcome (expr.eval bindings)

def values (bindings : Bindings) (exprs : List Expr) : Except EvalError (List Value) :=
  outcome (evalAll bindings exprs)

variable {bindings : Bindings}

mutual

theorem steady_eval : ∀ expr : Expr, Steady (expr.eval bindings)
  | .literal _ _ => by
      rw [eval]
      exact steady_pure _
  | .variable _ _ => by
      rw [eval]
      exact steady_onLine (steady_liftExcept _)
  | .negate operand _ => by
      rw [eval]
      exact steady_bind (steady_eval operand) fun _ => steady_onLine (steady_liftExcept _)
  | .binary _ left right _ => by
      rw [eval]
      exact steady_bind (steady_eval left) fun _ => steady_bind (steady_eval right) fun _ =>
        steady_onLine (steady_liftExcept _)
  | .call _ arguments _ => by
      rw [eval]
      exact steady_bind (steady_evalAll arguments) fun _ => steady_onLine (steady_callFunction _ _)

theorem steady_evalAll : ∀ exprs : List Expr, Steady (evalAll bindings exprs)
  | [] => by
      rw [evalAll]
      exact steady_pure _
  | expr :: exprs => by
      rw [evalAll]
      exact steady_bind (steady_eval expr) fun _ => steady_bind (steady_evalAll exprs) fun _ =>
        steady_pure _

end

variable {left right operand : Expr} {arguments : List Expr} {line : Nat} {v : Value}

theorem value_literal {literal : Literal} :
    (Expr.literal literal line).value bindings = .ok (.ofLiteral literal) := by
  rw [value, eval]
  rfl

theorem value_variable {name : String} :
    (Expr.variable name line).value bindings = .ok v ↔ bindings.resolve name = .ok v := by
  rw [value, eval, outcome_onLine, outcome_liftExcept, mapError_eq_ok]

/-- The value of a negation from that of its operand. -/
theorem value_negate_eq :
    (Expr.negate operand line).value bindings =
      operand.value bindings >>= fun u => u.negate.mapError (⟨line, ·⟩) := by
  rw [value, eval, outcome_bind fun _ => steady_onLine (steady_liftExcept _)]
  simp only [outcome_onLine, outcome_liftExcept]
  rfl

theorem value_negate :
    (Expr.negate operand line).value bindings = .ok v ↔
      ∃ u, operand.value bindings = .ok u ∧ u.negate = .ok v := by
  rw [value_negate_eq, bind_eq_ok]
  simp only [mapError_eq_ok]

/-- The value of an operation from those of its operands, the left one first. -/
theorem value_binary_eq {op : BinaryOp} :
    (Expr.binary op left right line).value bindings =
      left.value bindings >>= fun l => right.value bindings >>= fun r =>
        (op.apply l r).mapError (⟨line, ·⟩) := by
  have hop : ∀ l r, Steady ((liftExcept (op.apply l r) : Printing _ _).onLine line) :=
    fun _ _ => steady_onLine (steady_liftExcept _)
  rw [value, eval, outcome_bind fun l => steady_bind (steady_eval right) (hop l)]
  simp only [outcome_bind (hop _), outcome_onLine, outcome_liftExcept]
  rfl

theorem value_binary {op : BinaryOp} :
    (Expr.binary op left right line).value bindings = .ok v ↔
      ∃ l r, left.value bindings = .ok l ∧ right.value bindings = .ok r ∧ op.apply l r = .ok v := by
  rw [value_binary_eq, bind_eq_ok]
  simp only [bind_eq_ok, mapError_eq_ok]
  exact exists_congr fun l => exists_and_left.symm

theorem value_call {name : String} :
    (Expr.call name arguments line).value bindings = .ok v ↔
      ∃ vs, values bindings arguments = .ok vs ∧ outcome (callFunction name vs) = .ok v := by
  rw [value, eval, outcome_bind fun _ => steady_onLine (steady_callFunction _ _), bind_eq_ok]
  simp only [outcome_onLine, mapError_eq_ok]
  rfl

theorem values_nil : values bindings [] = .ok [] := by
  rw [values, evalAll]
  rfl

theorem values_cons {expr : Expr} {exprs : List Expr} {vs : List Value} :
    values bindings (expr :: exprs) = .ok vs ↔
      ∃ u us, expr.value bindings = .ok u ∧ values bindings exprs = .ok us ∧ u :: us = vs := by
  rw [values, evalAll, outcome_bind fun _ => steady_bind (steady_evalAll exprs) fun _ =>
    steady_pure _, bind_eq_ok]
  simp only [outcome_bind fun _ => steady_pure _, bind_eq_ok]
  refine exists_congr fun u => ?_
  rw [exists_and_left]
  refine and_congr_right fun _ => exists_congr fun us => and_congr_right fun _ => ?_
  exact pure_eq_ok

end Expr

/-! ## The machine -/

/-- What comes of an expression on a machine is its value under the bindings. -/
theorem Machine.result_eval (expr : Expr) (machine : Machine) :
    ((Machine.eval expr).run.run machine).1 =
      (expr.value machine.bindings).mapError ExecutionError.eval := by
  rw [Expr.value, ← Expr.steady_eval expr machine.printed]
  rfl

theorem Machine.result_evaluate {source : String} {line : Nat} {machine : Machine} {v : Value} :
    ((Machine.evaluate source line).run.run machine).1 = .ok v ↔
      ∃ expr, Expr.read source line = .ok expr ∧ expr.value machine.bindings = .ok v := by
  rw [Machine.evaluate, run_bind, run_liftExcept]
  cases hread : Expr.read source line with
  | error fault => exact ⟨nofun, nofun⟩
  | ok expr =>
      simp only [Except.mapError]
      rw [Machine.result_eval, mapError_eq_ok]
      exact ⟨fun h => ⟨expr, rfl, h⟩, fun ⟨_, hexpr, h⟩ => Except.ok.inj hexpr ▸ h⟩

end QubitScript
