import QubitScript.Pattern.Reading

/-!
# The engine for written patterns

The engine that reads a pattern text and searches with the pattern that it has read. Lexers of the
command rules and the built-in challenges use it. It refuses what the reader does not read, so what
is said of all tables of rules or challenges is said of any engine.
-/

namespace QubitScript

/-- The piece of a text that was read between two numbers of characters left. -/
def Span.ofLeft (text : List Char) (atStart atStop : Nat) : Span :=
  ⟨text.length - atStart, text.length - atStop⟩

/-- The match that begins at `start` and ends at `stop`. -/
def Cursor.found (text : List Char) (start stop : Cursor) : Found where
  whole := .ofLeft text start.rest.length stop.rest.length
  groups := stop.groups.map fun capture =>
    (capture.name, .ofLeft text capture.atStart capture.atStop)

/-- What a pattern finds in texts, its groups having these names. -/
def Pattern.regex (pattern : Pattern) (names : List String) : Regex where
  names
  search? text place :=
    (pattern.search? ((Cursor.start text).skip place)).map fun (start, stop) =>
      start.found text stop

namespace Pattern

def Written.regex (written : Written) : Regex := written.form.pattern.regex written.names

/-- The engine for written patterns. -/
def engine : Engine where
  compile dialect text :=
    match Written.read? dialect text with
    | some written => .ok written.regex
    | none => .error "the text is no pattern that can be read"

end Pattern

end QubitScript
