import QubitScript.Engine
import QubitScript.Pattern.Bracket
import QubitScript.Pattern.Written
import QubitScript.Text.Letter
import QubitScript.Text.Numeral

/-!
# Reading patterns

The text form of patterns: literals, sets in brackets, the dot, anchors, escapes, groups, flags,
choices and repetitions. The reader takes a piece off the text at every step and changes the groups
that are open. A text that is no pattern, such as one with an open bracket, has no reading.

Not all of the notation is read. Classes named by a property of characters are refused, and so are
patterns on bytes. Where blanks are passed over, so are repetitions with bounds, and sets in
brackets with blanks or comments among their characters.
-/

namespace QubitScript.Pattern

open QubitScript.Text

/-! ## Flags -/

/-- What is in force where a pattern is read: whether letters stand for both their cases, whether
`^` and `$` hold at every line, whether the dot takes line breaks too, whether repetitions are lazy
unless they are marked, whether blanks and comments are passed over, and whether a return is part of
a line break. -/
structure Flags where
  ignoreCase : Bool := false
  multiline : Bool := false
  dotAll : Bool := false
  lazy : Bool := false
  verbose : Bool := false
  returns : Bool := false
deriving DecidableEq, Repr

/-- The flags at the beginning of a pattern. -/
def Dialect.flags (dialect : Dialect) : Flags :=
  { ignoreCase := dialect.ignoreCase, multiline := dialect.multiline }

namespace Flags

/-- Puts the flag with this letter in force, or out of force. -/
def set? (flags : Flags) (on : Bool) : Char → Option Flags
  | 'i' => some { flags with ignoreCase := on }
  | 'm' => some { flags with multiline := on }
  | 's' => some { flags with dotAll := on }
  | 'U' => some { flags with lazy := on }
  | 'x' => some { flags with verbose := on }
  | 'R' => some { flags with returns := on }
  | 'u' => if on then some flags else none
  | _ => none

/-- What the dot stands for. -/
def dot (flags : Flags) : CharSet :=
  if flags.dotAll then CharSet.empty.compl
  else if flags.returns then ((CharSet.single '\r').union (.single '\n')).compl
  else withinLine

/-- What `^` stands for. -/
def front (flags : Flags) : Assertion :=
  if flags.multiline then (if flags.returns then .breakBefore else .lineStart) else .textStart

/-- What `$` stands for. -/
def back (flags : Flags) : Assertion :=
  if flags.multiline then (if flags.returns then .breakAfter else .lineEnd) else .textEnd

end Flags

/-! ## Groups -/

/-- What a group does besides holding its parts together. -/
inductive GroupKind
  | keeping (name : Option String)
  | enclosing
deriving DecidableEq, Repr

def GroupKind.close (kind : GroupKind) (body : Written) : Written :=
  match kind with
  | keeping name => body.group name
  | enclosing => body.enclosed

def isGroupNameStart (c : Char) : Bool := c == '_' || isLetter c

def isGroupNamePart (c : Char) : Bool :=
  c == '_' || c == '.' || c == '[' || c == ']' || isLetter c || isNumeral c

/-- Reads the name of a group up to the closing angle bracket. -/
def readGroupName? (text : List Char) : Option (String × List Char) :=
  let name := text.takeWhile (· != '>')
  match text.dropWhile (· != '>') with
  | '>' :: rest =>
    if name.head?.any isGroupNameStart && name.all isGroupNamePart then
      some (String.ofList name, rest)
    else none
  | _ => none

/-- A group that is still open: the flags in force in it, the finished branches of its choice and
the parts of the branch being read, the latest first, and whether the latest part can be
repeated. -/
structure OpenGroup where
  kind : GroupKind
  flags : Flags
  branches : List Written
  parts : List Written
  repeatable : Bool

namespace OpenGroup

def new (kind : GroupKind) (flags : Flags) : OpenGroup := ⟨kind, flags, [], [], false⟩

def add (group : OpenGroup) (part : Written) : OpenGroup :=
  { group with parts := part :: group.parts, repeatable := true }

def branch (group : OpenGroup) : OpenGroup :=
  { group with
    branches := .concat group.parts.reverse :: group.branches, parts := [], repeatable := false }

/-- Flags count as a part that takes nothing, and hold up to the end of the group. -/
def setFlags (group : OpenGroup) (flags : Flags) : OpenGroup :=
  { group with flags, parts := .leaf .empty :: group.parts, repeatable := false }

/-- What the group holds. -/
def content (group : OpenGroup) : Written := .choice group.branch.branches.reverse

def close (group : OpenGroup) : Written := group.kind.close group.content

/-- Repeats the latest part. -/
def repeatLast? (bounds : Bounds) (greedy : Bool) (group : OpenGroup) : Option OpenGroup :=
  match group.parts with
  | [] => none
  | part :: parts =>
    if group.repeatable then some { group with parts := part.rounds bounds greedy :: parts }
    else none

end OpenGroup

/-- The open groups, the innermost first. -/
abbrev Groups := List OpenGroup

/-! ## Repetitions -/

/-- The bounds of a repetition are below this number. -/
def boundLimit : Nat := 2 ^ 32

/-- Reads a decimal number, which blanks may surround. -/
def readBound? (text : List Char) : Option (Nat × List Char) :=
  let text := text.dropWhile isBlank
  let digits := text.takeWhile Char.isDigit
  let value := natOfDigits digits
  if digits.isEmpty || decide (boundLimit ≤ value) then none
  else some (value, (text.dropWhile Char.isDigit).dropWhile isBlank)

/-- Reads the bounds after an opening brace, up to the closing one. -/
def readBounds? (text : List Char) : Option (Bounds × List Char) := do
  let (least, rest) ← readBound? text
  match rest with
  | '}' :: rest => some (⟨least, some least⟩, rest)
  | ',' :: '}' :: rest => some (⟨least, none⟩, rest)
  | ',' :: rest =>
    let (most, rest) ← readBound? rest
    match rest with
    | '}' :: rest => if least ≤ most then some (⟨least, some most⟩, rest) else none
    | _ => none
  | _ => none

/-- A repetition with a question mark after it has the other preference. -/
def splitLazy : List Char → Bool × List Char
  | '?' :: rest => (false, rest)
  | text => (true, text)

/-! ## Pieces -/

/-- A single character, or all its case variants where case is ignored. -/
def Written.char (ignoreCase : Bool) (c : Char) : Written :=
  leaf (.set (caseClosed ignoreCase (.single c)))

def Escape.written (ignoreCase : Bool) : Escape → Written
  | literal c => .char ignoreCase c
  | oneOf chars => .leaf (.set chars)
  | place condition => .leaf (.assert condition)

/-- A piece of a pattern text. -/
inductive Piece
  | gap
  | flags (flags : Flags)
  | opening (kind : GroupKind) (flags : Flags)
  | closing
  | bar
  | part (written : Written)
  | repetition (bounds : Bounds) (greedy : Bool)

/-- What a piece does to the open groups. The outermost group is never closed. -/
def Piece.act : Piece → Groups → Option Groups
  | gap, groups => some groups
  | flags now, current :: outer => some (current.setFlags now :: outer)
  | opening kind now, groups => some (.new kind now :: groups)
  | closing, current :: parent :: outer => some (parent.add current.close :: outer)
  | bar, current :: outer => some (current.branch :: outer)
  | part written, current :: outer => some (current.add written :: outer)
  | repetition bounds greedy, current :: outer =>
    (current.repeatLast? bounds greedy).map (· :: outer)
  | _, _ => none

/-- Reads flags, `seen` being the letters before, the latest first. A minus sign puts those after it
out of force. They end with a parenthesis, or with a colon that begins what they are in force
for. -/
def readFlags? (flags : Flags) (on : Bool) (seen : List Char) :
    List Char → Option (Piece × List Char)
  | [] => none
  | ':' :: rest => if seen.head? == some '-' then none else some (.opening .enclosing flags, rest)
  | ')' :: rest =>
    if seen.isEmpty || seen.head? == some '-' then none else some (.flags flags, rest)
  | '-' :: rest => if on then readFlags? flags false ('-' :: seen) rest else none
  | c :: rest =>
    if seen.contains c then none
    else (flags.set? on c).bind fun flags => readFlags? flags on (c :: seen) rest

/-- Reads what follows an opening parenthesis: the name of a group, or flags. -/
def readOpening? (flags : Flags) : List Char → Option (Piece × List Char)
  | '?' :: 'P' :: '<' :: rest =>
    (readGroupName? rest).map fun (name, rest) => (.opening (.keeping (some name)) flags, rest)
  | '?' :: '<' :: rest =>
    (readGroupName? rest).map fun (name, rest) => (.opening (.keeping (some name)) flags, rest)
  | '?' :: rest => readFlags? flags true [] rest
  | rest => some (.opening (.keeping none) flags, rest)

/-- Reads a set in brackets. Where blanks are passed over it may not hold any, nor a comment. -/
def readSet? (flags : Flags) (text : List Char) : Option (Piece × List Char) :=
  (readBrackets? flags.ignoreCase text).bind fun (entry, rest) =>
    if flags.verbose && (text.take (text.length - rest.length)).any fun c => isBlank c || c == '#'
    then none
    else some (.part ⟨.set entry.chars, entry.nesting, []⟩, rest)

/-- A repetition with what follows it, which may change its preference. -/
def repetitionPiece (flags : Flags) (bounds : Bounds) (text : List Char) : Piece × List Char :=
  (.repetition bounds ((splitLazy text).1 != flags.lazy), (splitLazy text).2)

/-- What comes after a comment, which goes on to the end of the line. -/
def afterComment (text : List Char) : List Char := (text.dropWhile (· != '\n')).drop 1

/-- Takes the first piece off a text. -/
def piece? (flags : Flags) : List Char → Option (Piece × List Char)
  | [] => none
  | c :: rest =>
    if flags.verbose && isBlank c then some (.gap, rest)
    else if flags.verbose && c == '#' then some (.gap, afterComment rest)
    else
      match c with
      | '(' => readOpening? flags rest
      | ')' => some (.closing, rest)
      | '|' => some (.bar, rest)
      | '[' => readSet? flags rest
      | '?' => some (repetitionPiece flags ⟨0, some 1⟩ rest)
      | '*' => some (repetitionPiece flags ⟨0, none⟩ rest)
      | '+' => some (repetitionPiece flags ⟨1, none⟩ rest)
      | '{' =>
        if flags.verbose then none
        else (readBounds? rest).map fun (bounds, rest) => repetitionPiece flags bounds rest
      | '\\' => (Escape.read? rest).map fun (escape, rest) =>
          (.part (escape.written flags.ignoreCase), rest)
      | '.' => some (.part (.leaf (.set flags.dot)), rest)
      | '^' => some (.part (.leaf (.assert flags.front)), rest)
      | '$' => some (.part (.leaf (.assert flags.back)), rest)
      | c => some (.part (.char flags.ignoreCase c), rest)

/-! ## Whole patterns -/

/-- Takes the first piece off a text and lets it act on the open groups. The flags are those of the
innermost group. -/
def readPiece? (groups : Groups) (text : List Char) : Option (Groups × List Char) := do
  let (piece, rest) ← piece? (← groups.head?).flags text
  return (← piece.act groups, rest)

/-- Reads on piece by piece, until only the outermost group is left open at the end of the text. The
fuel is the length of the text. -/
def readGroups? : (fuel : Nat) → Groups → List Char → Option Written
  | _, [current], [] => some current.content
  | _, _, [] => none
  | 0, _, _ => none
  | fuel + 1, groups, text => do
    let (groups, rest) ← readPiece? groups text
    readGroups? fuel groups rest

/-- Reads a pattern text. -/
def Written.read? (dialect : Dialect) (text : String) : Option Written :=
  let text := text.toList
  (readGroups? text.length [.new .enclosing dialect.flags] text).filter (·.isAccepted)

end QubitScript.Pattern
