import QubitScript.CommandLine

/-!
# The program

Reads the arguments, the file or the input, and writes what the run leaves behind.
-/

namespace QubitScript.CommandLine

/-- Answers the lines of the input one by one. -/
partial def talk (input : IO.FS.Stream) (session : Session Machine) : IO Unit := do
  let line ← input.getLine
  if line.isEmpty then return
  let (session, reports) := converse session (Script.lines line)
  IO.print session.state.printed
  IO.eprint reports
  (← IO.getStdout).flush
  talk input { session with state := { session.state with printed := "" } }

/-- The text of the file that the arguments name, if they name one and it can be read. -/
def readFile? (arguments : Arguments) : IO (Option String) :=
  match arguments.path? with
  | none => return none
  | some path => try return some (← IO.FS.readFile path) catch _ => return none

/-- Writes the result of a run and returns its exit code. -/
def finish (result : Result) : IO UInt32 := do
  IO.print result.output
  IO.eprint result.errors
  return result.code.toUInt32

def execute (words : List String) : IO UInt32 := do
  match Arguments.parse? {} words with
  | none =>
    IO.eprintln "error: the arguments are not understood"
    return 2
  | some arguments =>
    match arguments.contents, Session.start arguments.lexerOptions with
    | none, .ok session =>
      talk (← IO.getStdin) session
      return 0
    | _, _ => finish (run arguments "" (← readFile? arguments))

end QubitScript.CommandLine

def main (words : List String) : IO UInt32 := QubitScript.CommandLine.execute words
