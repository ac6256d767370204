import QubitScript.Session

/-!
# Scripts

A script is a text of many lines that one session interprets, up to the first line that fails. Blank
lines count and do nothing else.
-/

namespace QubitScript

/-- A session of the command notation on a fresh machine. -/
def Session.start (options : LexerOptions) : Except LineError (Session Machine) :=
  match Lexer.build commandRules options with
  | .error fault => .error (.rules fault)
  | .ok lexer => .ok (.new lexer Machine.executor .new .default)

/-- Adds to the printed text. -/
def Session.print (session : Session Machine) (text : String) : Session Machine :=
  { session with state := { session.state with printed := session.state.printed ++ text } }

namespace Script

/-- Removes a carriage return from the end of a line. -/
def dropReturn (line : List Char) : List Char :=
  if line.getLast? = some '\r' then line.dropLast else line

/-- The lines of a text, `piece` holding the characters of the line at hand, the latest first. A
line ends with a line break, which a carriage return may precede, or with the text. -/
def splitLines (piece : List Char) : List Char → List (List Char)
  | [] => if piece.isEmpty then [] else [piece.reverse]
  | '\n' :: rest => dropReturn piece.reverse :: splitLines [] rest
  | c :: rest => splitLines (c :: piece) rest

def lines (source : String) : List String := (splitLines [] source.toList).map String.ofList

def isBlankLine (line : String) : Bool := line.toList.all Text.isBlank

/-- What a line prints of its own accord when values are shown. -/
def shown : Outcome → String
  | .value value => value.write ++ "\n"
  | .executed calls =>
    String.join (calls.filterMap fun call => call.value.map fun value => value.write ++ "\n")
  | .nothing => ""
  | .assigned _ => ""

/-- Interprets a line of a script. -/
def step (showValues : Bool) (session : Session Machine) (line : String) :
    Except LineError Unit × Session Machine :=
  if isBlankLine line then (.ok (), session.skipLine)
  else
    match session.interpret line with
    | (.error error, session) => (.error error, session)
    | (.ok outcome, session) =>
      (.ok (), if showValues then session.print (shown outcome) else session)

/-- Interprets lines up to the first one that fails. -/
def runLines (showValues : Bool) (session : Session Machine) :
    List String → Except LineError Unit × Session Machine
  | [] => (.ok (), session)
  | line :: rest =>
    match step showValues session line with
    | (.error error, session) => (.error error, session)
    | (.ok (), session) => runLines showValues session rest

/-- Runs a script. Returns what came of it and what it printed. -/
def run (source : String) (options : LexerOptions) (showValues : Bool) :
    Except LineError Unit × String :=
  match Session.start options with
  | .error error => (.error error, "")
  | .ok session =>
    let (result, session) := runLines showValues session (lines source)
    (result, session.state.printed)

end Script

end QubitScript
