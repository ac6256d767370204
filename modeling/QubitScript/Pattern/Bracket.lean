import QubitScript.Pattern.Escape

/-!
# Sets in brackets

A set in brackets lists characters, ranges, named classes and further sets in brackets. Operators
between such lists are applied from left to right. A set in brackets counts as one level of nesting,
and so does an operator and a list of two or more entries.
-/

namespace QubitScript.Pattern

open QubitScript.Text

/-- Characters that were read in brackets, and how deeply their text is nested. -/
structure Entry where
  chars : CharSet
  nesting : Nat
deriving DecidableEq, Repr

/-- The entries on one side of an operator: their characters, their number, and how deeply the
deepest of them is nested. -/
structure Operand where
  chars : CharSet
  entries : Nat
  nesting : Nat
deriving DecidableEq, Repr

namespace Operand

def new : Operand := ⟨.empty, 0, 0⟩

def add (operand : Operand) (entry : Entry) : Operand :=
  ⟨operand.chars.union entry.chars, operand.entries + 1, max operand.nesting entry.nesting⟩

def addChar (operand : Operand) (c : Char) : Operand := operand.add ⟨.single c, 0⟩

def toEntry (operand : Operand) : Entry :=
  ⟨operand.chars, if operand.entries < 2 then operand.nesting else operand.nesting + 1⟩

end Operand

/-- A bracket that is still open: the left side of an operator that waits for its right side, and
the entries being read. -/
structure OpenBracket where
  complemented : Bool
  waiting : Option (Entry × SetOperator)
  operand : Operand
deriving DecidableEq, Repr

namespace OpenBracket

def add (bracket : OpenBracket) (entry : Entry) : OpenBracket :=
  { bracket with operand := bracket.operand.add entry }

/-- What stands in the bracket so far. -/
def content (ignoreCase : Bool) (bracket : OpenBracket) : Entry :=
  let right := bracket.operand.toEntry
  match bracket.waiting with
  | none => right
  | some (left, operator) =>
    ⟨operator.apply ignoreCase left.chars right.chars, max left.nesting right.nesting + 1⟩

def operate (ignoreCase : Bool) (operator : SetOperator) (bracket : OpenBracket) : OpenBracket :=
  { bracket with waiting := some (bracket.content ignoreCase, operator), operand := .new }

def close (ignoreCase : Bool) (bracket : OpenBracket) : Entry :=
  let content := bracket.content ignoreCase
  ⟨finished ignoreCase bracket.complemented content.chars, content.nesting + 1⟩

end OpenBracket

/-- Reads the beginning of a set after its opening bracket. Hyphens at the front, and a closing
bracket as the very first entry, stand for themselves. -/
def openBracket (text : List Char) : OpenBracket × List Char :=
  let (complemented, text) := match text with
    | '^' :: rest => (true, rest)
    | _ => (false, text)
  let hyphens := text.takeWhile (· == '-')
  let text := text.dropWhile (· == '-')
  let (front, text) := match hyphens, text with
    | [], ']' :: rest => ([']'], rest)
    | _, _ => (hyphens, text)
  (⟨complemented, none, front.foldl Operand.addChar .new⟩, text)

/-- Reads the name of a class between colons, and the closing bracket, after an opening bracket and
a colon. -/
def readAsciiClass? (ignoreCase : Bool) (text : List Char) : Option (CharSet × List Char) := do
  let (complemented, text) := match text with
    | '^' :: rest => (true, rest)
    | _ => (false, text)
  match text.dropWhile (· != ':') with
  | ':' :: ']' :: rest =>
    let chars ← asciiClass? (String.ofList (text.takeWhile (· != ':')))
    some (finished ignoreCase complemented chars, rest)
  | _ => none

/-- Reads one character or escape. -/
def readAtom? : List Char → Option (Escape × List Char)
  | [] => none
  | '\\' :: rest => Escape.read? rest
  | c :: rest => some (.literal c, rest)

def Escape.charSet? : Escape → Option CharSet
  | literal c => some (.single c)
  | oneOf chars => some chars
  | place _ => none

/-- The characters from one end to the other. -/
def charsBetween? : Escape → Escape → Option CharSet
  | .literal first, .literal last => if first ≤ last then some (.range first last) else none
  | _, _ => none

/-- Reads an atom, or a range when a hyphen and another end follow. A hyphen before the closing
bracket is an atom of its own, and two hyphens are an operator. -/
def readSpan? (text : List Char) : Option (CharSet × List Char) := do
  let (atom, rest) ← readAtom? text
  let alone := atom.charSet?.map fun chars => (chars, rest)
  match rest with
  | '-' :: ']' :: _ => alone
  | '-' :: '-' :: _ => alone
  | '-' :: rest =>
    let (last, rest) ← readAtom? rest
    (charsBetween? atom last).map fun chars => (chars, rest)
  | _ => alone

/-- Reads on inside the bracket `current`, which the brackets `outer` enclose, the innermost first,
up to the end of the outermost one. The fuel is the length of the text. -/
def readBracketsFrom? (ignoreCase : Bool) :
    Nat → (current : OpenBracket) → (outer : List OpenBracket) → List Char →
      Option (Entry × List Char)
  | 0, _, _, _ => none
  | fuel + 1, current, outer, text =>
    let deeper (rest : List Char) : Option (Entry × List Char) :=
      let (inner, rest) := openBracket rest
      readBracketsFrom? ignoreCase fuel inner (current :: outer) rest
    let operate (operator : SetOperator) (rest : List Char) : Option (Entry × List Char) :=
      readBracketsFrom? ignoreCase fuel (current.operate ignoreCase operator) outer rest
    match text with
    | ']' :: rest =>
      match outer with
      | [] => some (current.close ignoreCase, rest)
      | parent :: outer =>
        readBracketsFrom? ignoreCase fuel (parent.add (current.close ignoreCase)) outer rest
    | '[' :: ':' :: rest =>
      match readAsciiClass? ignoreCase rest with
      | some (chars, rest) =>
        readBracketsFrom? ignoreCase fuel (current.add ⟨chars, 0⟩) outer rest
      | none => deeper (':' :: rest)
    | '[' :: rest => deeper rest
    | '&' :: '&' :: rest => operate .inter rest
    | '-' :: '-' :: rest => operate .diff rest
    | '~' :: '~' :: rest => operate .symmDiff rest
    | text => do
      let (chars, rest) ← readSpan? text
      readBracketsFrom? ignoreCase fuel (current.add ⟨chars, 0⟩) outer rest

/-- Reads a set after its opening bracket. -/
def readBrackets? (ignoreCase : Bool) (text : List Char) : Option (Entry × List Char) :=
  let (bracket, rest) := openBracket text
  readBracketsFrom? ignoreCase (rest.length + 1) bracket [] rest

end QubitScript.Pattern
