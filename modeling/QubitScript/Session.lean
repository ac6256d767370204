import QubitScript.Challenge
import QubitScript.Line.Command

/-!
# Sessions

A session interprets lines one after another. It keeps what outlives a line: the lexer, the state of
the executor, the challenges and the number of lines so far.
-/

namespace QubitScript

structure Session (σ : Type) where
  lexer : Lexer
  executor : Executor σ
  state : σ
  book : ChallengeBook
  lines : Nat

/-- The text of a line as the challenges see it: its lexemes without the blanks between them. -/
def rawText (tokens : List Token) : String := String.join (tokens.map (·.lexeme))

namespace Session

variable {σ : Type}

/-- A session at its start. -/
def new (lexer : Lexer) (executor : Executor σ) (state : σ) (book : ChallengeBook) : Session σ :=
  ⟨lexer, executor, state, book, 0⟩

/-- Counts a line without interpreting it. -/
def skipLine (session : Session σ) : Session σ := { session with lines := session.lines + 1 }

/-- The tokens of the line that was just counted. A fault names its line within the session. -/
def tokenize (session : Session σ) (text : String) : Except LexFault (List Token) :=
  (session.lexer.tokenize text).mapError fun fault =>
    { fault with line := session.lines + fault.line - 1 }

/-- The text that a line shows to the challenges, unless the line has no tokens that could be
read. -/
def rawText? (session : Session σ) (text : String) : Option String :=
  (session.tokenize text).toOption.map rawText

/-- Shows a line to the challenges. -/
def submit (session : Session σ) (raw : String) : Session σ :=
  { session with book := session.book.check raw }

/-- Runs an action on the state of the executor. -/
def act {α : Type} (session : Session σ) (action : Command.Acting σ α) :
    Except LineError α × Session σ :=
  let (result, state) := action.run.run session.state
  (result, { session with state })

/-- Runs the commands of tokens that have been shown to the challenges. -/
def runTokens (session : Session σ) (tokens : List Token) : Except LineError Outcome × Session σ :=
  match ItemizedLine.ofTokens tokens with
  | .error error => (.error error, session)
  | .ok line =>
    match Command.classify line.items with
    | none => (.ok .nothing, session)
    | some command => session.act (command.run session.executor line.handles session.lines)

/-- Interprets one line. A line that fails counts as well. -/
def interpret (session : Session σ) (text : String) : Except LineError Outcome × Session σ :=
  let session := session.skipLine
  match session.tokenize text with
  | .error fault => (.error (.lex fault), session)
  | .ok tokens => (session.submit (rawText tokens)).runTokens tokens

end Session

end QubitScript
