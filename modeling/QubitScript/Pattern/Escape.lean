import QubitScript.Pattern.Basic
import QubitScript.Pattern.CharClass
import QubitScript.Text.Blank
import QubitScript.Text.Digit

/-!
# Escapes

What a backslash and the characters after it stand for: a character, a set of characters or a
condition on a place.
-/

namespace QubitScript.Pattern

open QubitScript.Text

inductive Escape
  | literal (c : Char)
  | oneOf (chars : CharSet)
  | place (condition : Assertion)
deriving DecidableEq, Repr

/-- The characters that stand for themselves after a backslash: ASCII other than letters, digits and
angle brackets. -/
def isEscapable (c : Char) : Bool :=
  decide (c.toNat < 0x80) && !c.isAlphanum && c != '<' && c != '>'

/-- What a backslash and one more character stand for. -/
def Escape.of? : Char → Option Escape
  | 'n' => some (.literal '\n')
  | 't' => some (.literal '\t')
  | 'r' => some (.literal '\r')
  | 'f' => some (.literal '\x0C')
  | 'v' => some (.literal '\x0B')
  | 'a' => some (.literal '\x07')
  | 'w' => some (.oneOf wordSet)
  | 'W' => some (.oneOf wordSet.compl)
  | 'd' => some (.oneOf digitSet)
  | 'D' => some (.oneOf digitSet.compl)
  | 's' => some (.oneOf blankSet)
  | 'S' => some (.oneOf blankSet.compl)
  | 'B' => some (.place (.wordBoundary false))
  | 'A' => some (.place .textStart)
  | 'z' => some (.place .textEnd)
  | '<' => some (.place .wordStart)
  | '>' => some (.place .wordEnd)
  | c => if isEscapable c then some (.literal c) else none

/-! ## Code points -/

def hexDigit? (c : Char) : Option Nat :=
  if c.isDigit then some (c.toNat - '0'.toNat)
  else if 'a' ≤ c ∧ c ≤ 'f' then some (c.toNat - 'a'.toNat + 10)
  else if 'A' ≤ c ∧ c ≤ 'F' then some (c.toNat - 'A'.toNat + 10)
  else none

/-- The character whose code point the hexadecimal digits write. -/
def charOfHex? (digits : List Char) : Option Char := do
  let digits ← digits.mapM hexDigit?
  let code := digits.foldl (fun code digit => 16 * code + digit) 0
  if !digits.isEmpty && decide code.isValidChar then some (Char.ofNat code) else none

/-- Reads a code point of `width` digits, or of any number of digits in braces. -/
def readCodePoint? (width : Nat) : List Char → Option (Char × List Char)
  | '{' :: rest =>
    match rest.dropWhile (· != '}') with
    | '}' :: after => (charOfHex? (rest.takeWhile (· != '}'))).map fun c => (c, after)
    | _ => none
  | text =>
    if text.length < width then none
    else (charOfHex? (text.take width)).map fun c => (c, text.drop width)

/-! ## Word boundaries -/

def isBoundaryLetter (c : Char) : Bool := c.isAlpha || c == '-'

/-- The sides of a word boundary that can be named in braces. -/
def boundarySide? : String → Option Assertion
  | "start" => some .wordStart
  | "end" => some .wordEnd
  | "start-half" => some .noWordBefore
  | "end-half" => some .noWordAfter
  | _ => none

/-- Reads the braces after a word boundary, unless they hold the bounds of a repetition. -/
def readBoundary? : List Char → Option (Assertion × List Char)
  | '{' :: rest =>
    if rest.head?.any isBoundaryLetter then
      match rest.dropWhile isBoundaryLetter with
      | '}' :: after =>
        (boundarySide? (String.ofList (rest.takeWhile isBoundaryLetter))).map fun condition =>
          (condition, after)
      | _ => none
    else some (.wordBoundary true, '{' :: rest)
  | text => some (.wordBoundary true, text)

/-- Reads what follows a backslash. -/
def Escape.read? : List Char → Option (Escape × List Char)
  | [] => none
  | 'x' :: rest => (readCodePoint? 2 rest).map fun (c, rest) => (literal c, rest)
  | 'u' :: rest => (readCodePoint? 4 rest).map fun (c, rest) => (literal c, rest)
  | 'U' :: rest => (readCodePoint? 8 rest).map fun (c, rest) => (literal c, rest)
  | 'b' :: rest => (readBoundary? rest).map fun (condition, rest) => (place condition, rest)
  | c :: rest => (Escape.of? c).map fun escape => (escape, rest)

end QubitScript.Pattern
