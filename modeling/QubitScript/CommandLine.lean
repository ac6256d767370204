import QubitScript.Script

/-!
# The command line

A run either interprets a script, which is given as an argument or as the path of a file, or it
reads lines from the input and answers each of them.
-/

namespace QubitScript

namespace CommandLine

structure Arguments where
  /-- The contents are the path of a script. -/
  file : Bool := false
  /-- The values of a script are shown. -/
  pipeMode : Bool := false
  ignoreCase : Bool := false
  keepBlanks : Bool := false
  logLevel : Option String := none
  contents : Option String := none
deriving DecidableEq, Repr

/-- What a run leaves behind. -/
structure Result where
  code : Nat
  output : String
  errors : String
deriving DecidableEq, Repr

/-! ## Reading the arguments -/

namespace Arguments

def setFile? (arguments : Arguments) : Option Arguments :=
  if arguments.file then none else some { arguments with file := true }

def setPipeMode? (arguments : Arguments) : Option Arguments :=
  if arguments.pipeMode then none else some { arguments with pipeMode := true }

def setLogLevel? (arguments : Arguments) (level : String) : Option Arguments :=
  if arguments.logLevel.isSome then none else some { arguments with logLevel := some level }

def setContents? (arguments : Arguments) (contents : String) : Option Arguments :=
  if arguments.contents.isSome then none else some { arguments with contents := some contents }

/-- Sets the options of a word such as `-fp`. -/
def setShort? (arguments : Arguments) : List Char → Option Arguments
  | [] => some arguments
  | 'f' :: rest => arguments.setFile?.bind (setShort? · rest)
  | 'p' :: rest => arguments.setPipeMode?.bind (setShort? · rest)
  | _ => none

/-- Sets an option that is written out and takes no value. -/
def setLong? (arguments : Arguments) (name : String) : Option Arguments :=
  if name = "file" then arguments.setFile?
  else if name = "pipe-mode" then arguments.setPipeMode?
  else if name = "case-insensitive" then
    if arguments.ignoreCase then none else some { arguments with ignoreCase := true }
  else if name = "keep-whitespace" then
    if arguments.keepBlanks then none else some { arguments with keepBlanks := true }
  else none

/-- Reads the words of a command line. No option may be given twice, and there is at most one word
that is no option. -/
def parse? (arguments : Arguments) : (words : List String) → Option Arguments
  | [] => some arguments
  | "--" :: words => words.foldlM setContents? arguments
  | "--log-level" :: level :: words =>
    if level.toList.head? = some '-' ∧ level ≠ "-" then none
    else (arguments.setLogLevel? level).bind (parse? · words)
  | word :: words =>
    match word.toList with
    | '-' :: '-' :: name =>
      let level := "log-level=".toList
      let updated :=
        if level.isPrefixOf name then
          arguments.setLogLevel? (String.ofList (name.drop level.length))
        else arguments.setLong? (String.ofList name)
      updated.bind (parse? · words)
    | '-' :: c :: letters => (arguments.setShort? (c :: letters)).bind (parse? · words)
    | _ => (arguments.setContents? word).bind (parse? · words)

def lexerOptions (arguments : Arguments) : LexerOptions :=
  { caseSensitive := !arguments.ignoreCase, omitBlanks := !arguments.keepBlanks }

/-- The path of the file to read before the run. -/
def path? (arguments : Arguments) : Option String :=
  if arguments.file then arguments.contents else none

end Arguments

/-! ## Running -/

/-- How an outcome is answered on the output. -/
def answer : Outcome → String
  | .nothing => ""
  | .value value => value.write ++ "\n"
  | .assigned binding => binding.name ++ " = " ++ binding.value.write ++ "\n"
  | .executed calls =>
    String.join (calls.map fun call =>
      match call.value with
      | some value => call.source ++ " = " ++ value.write ++ "\n"
      | none => call.source ++ "\n")

/-- Interprets lines and answers each of them. A line that fails is reported and the session goes
on. Returns the session and the reports. -/
def converse (session : Session Machine) : List String → Session Machine × String
  | [] => (session, "")
  | line :: rest =>
    match session.interpret line with
    | (.ok outcome, session) => converse (session.print (answer outcome)) rest
    | (.error error, session) =>
      let (session, reports) := converse session rest
      (session, error.message ++ "\n" ++ reports)

/-- Runs a script and reports the line that fails. -/
def runScript (arguments : Arguments) (source : String) : Result :=
  match Script.run source arguments.lexerOptions arguments.pipeMode with
  | (.ok (), output) => ⟨0, output, ""⟩
  | (.error error, output) => ⟨1, output, error.message ++ "\n"⟩

/-- A run with the given input. `file` holds the text of the file that the arguments name, if it can
be read. -/
def run (arguments : Arguments) (input : String) (file : Option String) : Result :=
  match arguments.contents with
  | some contents =>
    if arguments.file then
      match file with
      | some source => runScript arguments source
      | none =>
        ⟨1, "", "Failed to read the input file '" ++ contents ++
          "'. Perhaps this file does not exist?\n"⟩
    else runScript arguments contents
  | none =>
    match Session.start arguments.lexerOptions with
    | .error error => ⟨1, "", error.message ++ "\n"⟩
    | .ok session =>
      let (session, reports) := converse session (Script.lines input)
      ⟨0, session.state.printed, reports⟩

end CommandLine

end QubitScript
