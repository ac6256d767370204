import QubitScript.Line.Chain

/-!
# Commands

What a line asks for. A line with a call runs its calls and nothing else; any other line is an
expression, or an assignment when its text has an equals sign.
-/

namespace QubitScript

inductive Command
  | expression (items : List Item)
  | calls (list : List LineCall)
deriving DecidableEq, Repr

/-- A call that has run, as it was run, with the value that it returned. -/
structure ExecutedCall where
  source : String
  value : Option Value
deriving Repr

/-- What came of a line. -/
inductive Outcome
  | nothing
  | value (value : Value)
  | assigned (binding : Binding)
  | executed (calls : List ExecutedCall)
deriving Repr

def Item.call? : Item → Option LineCall
  | call lineCall => some lineCall
  | _ => none

namespace Command

/-- The command of a line, unless the line is empty. -/
def classify (items : List Item) : Option Command :=
  if items.isEmpty then none
  else
    match items.filterMap Item.call? with
    | [] => some (.expression items)
    | found => some (.calls found)

/-- The items of a command, which leave out what stands between calls. -/
def items : Command → List Item
  | expression items => items
  | calls list => list.map .call

/-- What can fail on a line and acts on the state of an executor. -/
abbrev Acting (σ α : Type) := ExceptT LineError (StateM σ) α

section Run

variable {σ : Type}

def request {α : Type} (action : Running σ α) : Acting σ α := action.adapt .execution

def runCall (executor : Executor σ) (handles : HandleTable) (line : Nat) (call : LineCall) :
    Acting σ ExecutedCall := do
  let arguments ← liftExcept (call.texts handles)
  let source := Call.assemble call.name arguments
  let value ← request (executor.call { name := call.name, arguments, source, line })
  return { source, value }

/-- Runs calls in order, up to the first one that fails. -/
def runCalls (executor : Executor σ) (handles : HandleTable) (line : Nat) :
    List LineCall → Acting σ (List ExecutedCall)
  | [] => return []
  | call :: rest => do
    let executed ← runCall executor handles line call
    let others ← runCalls executor handles line rest
    return executed :: others

/-- Runs a command on an executor. -/
def run (executor : Executor σ) (handles : HandleTable) (line : Nat) :
    Command → Acting σ Outcome
  | expression items => do
    let source ← liftExcept ((Chain.build items).resolve handles)
    if '=' ∈ source.toList then
      return .assigned (← request (executor.assign source line))
    else
      return .value (← request (executor.evaluate source line))
  | calls list => return .executed (← runCalls executor handles line list)

end Run

end Command

end QubitScript
