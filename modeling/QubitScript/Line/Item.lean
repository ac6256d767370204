import QubitScript.Executor
import QubitScript.Lexer.Scanner
import QubitScript.Line.Call
import QubitScript.Line.Handle

/-!
# Items of a line

A tokenized line becomes a list of items: annotations and separators are dropped, literals and
numbers become handles, and calls are split into a name and handles for the arguments.
-/

namespace QubitScript

/-- A call on a line, with a handle for every argument. -/
structure LineCall where
  name : String
  arguments : List Handle
deriving DecidableEq, Repr

inductive Item
  | operator (text : String)
  | name (text : String)
  | value (handle : Handle)
  | call (lineCall : LineCall)
deriving DecidableEq, Repr

def Item.isOperator : Item → Bool
  | operator _ => true
  | _ => false

/-- Every way in which interpreting a line can fail. -/
inductive LineError
  | rules (fault : RuleFault)
  | lex (fault : LexFault)
  | malformedCall (lexeme : String) (fault : CallFault)
  | unsupportedToken (kind : String)
  | unresolvedHandle (handle : Handle)
  | detachedItem (index : Nat)
  | execution (error : ExecutionError)
deriving Repr

def LineError.message : LineError → String
  | rules fault => fault.message
  | lex fault => fault.message
  | malformedCall lexeme fault => "Malformed call '" ++ lexeme ++ "': " ++ fault.describe ++ "."
  | unsupportedToken kind => "Token of kind '" ++ kind ++ "' cannot be interpreted."
  | unresolvedHandle handle =>
    "Internal error: " ++ handle.write ++ " has no recorded value."
  | detachedItem index =>
    "Item " ++ toString index ++ " of the line is not connected to any operator."
  | execution error => error.message

/-! ## Resolving handles -/

def HandleTable.resolve (table : HandleTable) (handle : Handle) : Except LineError String :=
  (table.get? handle).elim (.error (.unresolvedHandle handle)) .ok

namespace LineCall

/-- The texts of the arguments. -/
def texts (call : LineCall) (table : HandleTable) : Except LineError (List String) :=
  call.arguments.mapM table.resolve

/-- The call as a text again. -/
def source (call : LineCall) (table : HandleTable) : Except LineError String :=
  return Call.assemble call.name (← call.texts table)

end LineCall

/-- The text of an item. -/
def Item.source (table : HandleTable) : Item → Except LineError String
  | operator text => .ok text
  | name text => .ok text
  | value handle => table.resolve handle
  | call lineCall => lineCall.source table

/-! ## Items of tokens -/

/-- The items of a line with the table of their handles. -/
structure ItemizedLine where
  items : List Item
  handles : HandleTable
deriving DecidableEq, Repr

/-- The value of a token, which is missing when its rule has left it out. -/
def Token.requireValue (token : Token) : Except LineError String :=
  token.value.elim (.error (.unsupportedToken token.kind)) .ok

/-- Splits the text of a call token. -/
def splitCall (lexeme : String) : Except LineError (String × List String) :=
  match Call.split lexeme.toList with
  | .error fault => .error (.malformedCall lexeme fault)
  | .ok (name, arguments) => .ok (String.ofList name, arguments.map String.ofList)

namespace ItemizedLine

def empty : ItemizedLine := ⟨[], .empty⟩

/-- Adds the item of a token, for the kinds of tokens that stand for one. -/
def add (line : ItemizedLine) (token : Token) : Except LineError ItemizedLine :=
  if token.kind = Kind.annotation ∨ token.kind = Kind.separator then .ok line
  else if token.kind = Kind.call then do
    let (name, arguments) ← splitCall (← token.requireValue)
    let (arguments, handles) := line.handles.allocateAll arguments
    return ⟨line.items ++ [.call ⟨name, arguments⟩], handles⟩
  else if token.kind = Kind.literal ∨ token.kind = Kind.number then do
    let (handle, handles) := line.handles.allocate (← token.requireValue)
    return ⟨line.items ++ [.value handle], handles⟩
  else if token.kind = Kind.name then
    return { line with items := line.items ++ [.name (← token.requireValue)] }
  else if token.kind = Kind.operator then
    return { line with items := line.items ++ [.operator (← token.requireValue)] }
  else .error (.unsupportedToken token.kind)

/-- The items of a tokenized line. -/
def ofTokens (tokens : List Token) : Except LineError ItemizedLine := tokens.foldlM add empty

end ItemizedLine

end QubitScript
