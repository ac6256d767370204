import QubitScript.Engine
import QubitScript.Pattern.Basic

/-!
# Lexical rules

A rule names a kind of token and gives the pattern of its lexemes. The order of a rule table counts:
the first rule that matches decides. The command rules split a line of the command notation.
-/

namespace QubitScript

/-- The state of a scan. -/
structure Scanner where
  input : List Char
  cursor : Cursor
  failed : Bool
deriving DecidableEq, Repr

namespace Scanner

def start (input : String) : Scanner := ⟨input.toList, .start input.toList, false⟩

/-- The number of characters before the cursor. -/
def place (scanner : Scanner) : Nat := scanner.input.length - scanner.cursor.rest.length

/-- The number of bytes before the cursor. -/
def position (scanner : Scanner) : Nat := scanner.cursor.offset

/-- Whether the cursor has reached the end of the input. -/
def done (scanner : Scanner) : Bool := scanner.cursor.rest.isEmpty

/-- The line of the cursor within the input. -/
def line (scanner : Scanner) : Nat := (scanner.input.take scanner.place).count '\n' + 1

def moveTo (scanner : Scanner) (cursor : Cursor) : Scanner := { scanner with cursor }

/-- Moves on to a later place. -/
def goTo (scanner : Scanner) (place : Nat) : Scanner :=
  scanner.moveTo (scanner.cursor.skip (place - scanner.place))

end Scanner

/-- A lexical rule. Its action makes the value of a token from its lexeme, and sees the scanner
after it. -/
structure Rule where
  name : String
  pattern : String
  action : (after : Scanner) → (lexeme : String) → Option String := fun _ lexeme => some lexeme

/-! ## Kinds of command tokens -/

namespace Kind

/-- A marker such as `step:` at the start of a line or `:note:` anywhere. -/
def annotation : String := "SUPPLIMENT"

/-- A name with a parenthesized argument list. -/
def call : String := "OBJECT"

def name : String := "IDENTIFIER"

def operator : String := "OPERATOR"

/-- An integer or a decimal. -/
def number : String := "DIGIT"

/-- A text in double quotes. -/
def literal : String := "LITERAL"

/-- A semicolon, which is read and ignored. -/
def separator : String := "END_STMNT"

end Kind

/-- The rules of the command notation. The arguments of a call may hold one level of parentheses. -/
def commandRules : List Rule :=
  [{ name := Kind.annotation, pattern := "^[a-zA-Z]+:|:[a-zA-Z]+:" },
   { name := Kind.call, pattern := "[a-zA-Z_]\\w*\\((?:[^()\\n]|\\([^()\\n]*\\))*\\)" },
   { name := Kind.name, pattern := "[a-zA-Z_]\\w*" },
   { name := Kind.operator, pattern := "\\+|-|\\\\|\\*|=" },
   { name := Kind.number, pattern := "[0-9]+(?:\\.[0-9]+)?" },
   { name := Kind.literal, pattern := "\"[^\"\\n]*\"" },
   { name := Kind.separator, pattern := ";", action := fun _ _ => none }]

end QubitScript
