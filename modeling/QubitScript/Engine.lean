/-!
# Pattern engines

Patterns are given as texts. An engine compiles such a text, or tells why it refuses it, and what it
has compiled can be searched for in other texts. Nothing here depends on which texts are patterns:
lexers and challenges work with any engine.

A place in a text is given by the number of characters before it.
-/

namespace QubitScript

/-- How a pattern text is read: whether `^` and `$` hold at every line, and whether letters stand
for both their cases. -/
structure Pattern.Dialect where
  multiline : Bool
  ignoreCase : Bool
deriving DecidableEq, Repr

/-- A piece of a text, from one place to another. -/
structure Span where
  start : Nat
  stop : Nat
deriving DecidableEq, Repr

namespace Span

def isEmpty (span : Span) : Bool := span.start == span.stop

/-- The characters of the piece. -/
def textIn (text : List Char) (span : Span) : List Char := (text.take span.stop).drop span.start

end Span

/-- What a search has found: the piece of the text that the whole pattern takes, and the pieces that
those of its groups take that have a name and a part in the match. -/
structure Found where
  whole : Span
  groups : List (String × Span)
deriving DecidableEq, Repr

namespace Found

/-- The piece that the group with this name takes. -/
def group? (found : Found) (name : String) : Option Span := found.groups.lookup name

/-- What the pattern would have found in a group with this name. -/
def named (name : String) (found : Found) : Found :=
  { found with groups := (name, found.whole) :: found.groups }

end Found

/-- A compiled pattern: the names of its groups, and the search for the first match in a text that
begins at a place or after it. -/
structure Regex where
  names : List String
  search? : (text : List Char) → (place : Nat) → Option Found

namespace Regex

/-- The match that begins at a place, if the search from there finds one. -/
def matchAt? (regex : Regex) (text : List Char) (place : Nat) : Option Found :=
  (regex.search? text place).filter (·.whole.start == place)

/-- Whether some piece of the text matches. -/
def occursIn (regex : Regex) (text : String) : Bool := (regex.search? text.toList 0).isSome

end Regex

/-- An engine compiles pattern texts, or describes what is wrong with them. -/
structure Engine where
  compile (dialect : Pattern.Dialect) (text : String) : Except String Regex

end QubitScript
