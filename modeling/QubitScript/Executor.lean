import QubitScript.Expr.Eval
import QubitScript.Expr.Parser
import QubitScript.Quantum.Register

/-!
# Executors

The engine behind the lines. A line is turned into three kinds of requests: assignments, expressions
and single calls. The machine is the executor that keeps bindings and a register.
-/

namespace QubitScript

/-- Why a request fails. -/
inductive ExecutionError
  | parse (error : Expr.ParseError)
  | eval (error : EvalError)
deriving Repr

def ExecutionError.message : ExecutionError → String
  | parse error => error.message
  | eval error => error.message

/-- A name and the value that an assignment has bound to it. -/
structure Binding where
  name : String
  value : Value
deriving Repr

/-- A call on a line, with its arguments as texts and the whole call rebuilt from them. -/
structure CallSite where
  name : String
  arguments : List String
  source : String
  line : Nat
deriving DecidableEq, Repr

/-- What can fail and acts on a state. The changes made before a failure stay. -/
abbrev Running (σ α : Type) := ExceptT ExecutionError (StateM σ) α

/-- An engine with state `σ`. A call that only has an effect returns no value. -/
structure Executor (σ : Type) where
  assign (source : String) (line : Nat) : Running σ Binding
  evaluate (source : String) (line : Nat) : Running σ Value
  call (site : CallSite) : Running σ (Option Value)

/-! ## Requests -/

/-- What an executor is asked for. -/
inductive Request
  | assign (source : String) (line : Nat)
  | evaluate (source : String) (line : Nat)
  | call (site : CallSite)
deriving DecidableEq, Repr

namespace Executor

variable {σ : Type}

/-- Runs an action beside a log. -/
def beside {α : Type} (request : Request) (action : Running σ α) :
    Running (σ × List Request) α :=
  fun (state, log) =>
    let (result, state) := action.run.run state
    (result, state, log ++ [request])

/-- The same executor, which keeps a log of its requests. -/
def traced (executor : Executor σ) : Executor (σ × List Request) where
  assign source line := beside (.assign source line) (executor.assign source line)
  evaluate source line := beside (.evaluate source line) (executor.evaluate source line)
  call site := beside (.call site) (executor.call site)

end Executor

/-! ## The machine -/

/-- Bindings, a register and the text printed so far. -/
structure Machine where
  bindings : Bindings
  register : Register Float
  printed : String

namespace Machine

def new : Machine := ⟨.empty, .empty, ""⟩

/-- Evaluates an expression under the bindings. Only the printed text can change. -/
def eval (expr : Expr) : Running Machine Value := fun machine =>
  let (result, printed) := ((expr.eval machine.bindings).run.run machine.printed)
  (result.mapError ExecutionError.eval, { machine with printed })

def assign (source : String) (line : Nat) : Running Machine Binding := do
  let assignment ← liftExcept ((Assignment.read source line).mapError ExecutionError.parse)
  let value ← eval assignment.value
  modify fun machine => { machine with bindings := machine.bindings.bind assignment.name value }
  return ⟨assignment.name, value⟩

def evaluate (source : String) (line : Nat) : Running Machine Value := do
  let expr ← liftExcept ((Expr.read source line).mapError ExecutionError.parse)
  eval expr

/-- Applies a gate to the register. -/
def applyGate (gate : Gate) (qubits : List String) (line : Nat) : Running Machine Unit :=
  fun machine =>
    match machine.register.apply gate qubits with
    | .ok register => (.ok (), { machine with register })
    | .error fault => (.error (.eval ⟨line, fault⟩), machine)

/-- A call of a gate acts on the register, with the arguments as names of qubits. Any other call is
evaluated as an expression. -/
def call (site : CallSite) : Running Machine (Option Value) := do
  match Gate.ofName? site.name with
  | some gate =>
    applyGate gate site.arguments site.line
    return none
  | none => return some (← evaluate site.source site.line)

def executor : Executor Machine := { assign, evaluate, call }

end Machine

end QubitScript
