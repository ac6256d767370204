import QubitScript.Expr.Basic
import QubitScript.Located
import QubitScript.Value.Function

/-!
# Evaluation

The value of an expression under bindings of its variables. Operands and arguments are evaluated
from left to right, and the first failure ends the evaluation.
-/

namespace QubitScript

/-- Variables with their values. A name is bound at most once. -/
structure Bindings where
  entries : List (String × Value)

namespace Bindings

def empty : Bindings := ⟨[]⟩

def get? (bindings : Bindings) (name : String) : Option Value := bindings.entries.lookup name

/-- Binds a name, which loses the value that it had. -/
def bind (bindings : Bindings) (name : String) (value : Value) : Bindings :=
  ⟨(name, value) :: bindings.entries.filter (·.1 != name)⟩

end Bindings

abbrev EvalError := Located EvalFault

def EvalError.message (error : EvalError) : String := error.report EvalFault.describe

/-- The value of a variable. The constants `pi` and `i` are variables that can be bound anew. -/
def Bindings.resolve (bindings : Bindings) (name : String) : Except EvalFault Value :=
  match bindings.get? name with
  | some value => .ok value
  | none =>
    if name = "pi" then .ok (.real pi)
    else if name = "i" then .ok (.complex .unit)
    else .error (.unknownVariable name)

/-- Calls the function of that name. A gate acts on qubits and not on values, so it is none. -/
def callFunction (name : String) (arguments : List Value) : Printing EvalFault Value :=
  match Function.ofName? name with
  | some function => function.call arguments
  | none =>
    match Gate.ofName? name with
    | some gate => throw (.gateInExpression gate)
    | none => throw (.unknownFunction name)

/-- Lays a failure to a line. -/
def Printing.onLine {ε α : Type} (line : Nat) (action : Printing ε α) : Printing (Located ε) α :=
  action.adapt (⟨line, ·⟩)

namespace Expr

mutual

def eval (bindings : Bindings) : Expr → Printing EvalError Value
  | .literal value _ => return .ofLiteral value
  | .variable name line => (liftExcept (bindings.resolve name) : Printing _ _).onLine line
  | .negate operand line => do
    let value ← eval bindings operand
    (liftExcept value.negate : Printing _ _).onLine line
  | .binary op left right line => do
    let left ← eval bindings left
    let right ← eval bindings right
    (liftExcept (op.apply left right) : Printing _ _).onLine line
  | .call name arguments line => do
    let values ← evalAll bindings arguments
    (callFunction name values).onLine line

def evalAll (bindings : Bindings) : List Expr → Printing EvalError (List Value)
  | [] => return []
  | expr :: rest => do
    let value ← eval bindings expr
    let values ← evalAll bindings rest
    return value :: values

end

end Expr

end QubitScript
