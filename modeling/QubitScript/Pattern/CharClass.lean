import QubitScript.Text.CaseFold

/-!
# Character classes

The sets of characters that patterns name, and the operators between the sets in brackets.
-/

namespace QubitScript.Pattern

open QubitScript.Text

/-- All characters but the newline. -/
def withinLine : CharSet := (CharSet.single '\n').compl

/-- The characters from each first to its last. -/
def classOf (ranges : List (Char × Char)) : CharSet :=
  ranges.foldl (fun chars range => chars.union (.range range.1 range.2)) .empty

/-- The classes of ASCII characters that can be named in brackets. -/
def asciiClass? : String → Option CharSet
  | "alnum" => some (classOf [('0', '9'), ('A', 'Z'), ('a', 'z')])
  | "alpha" => some (classOf [('A', 'Z'), ('a', 'z')])
  | "ascii" => some (classOf [('\x00', '\x7F')])
  | "blank" => some (classOf [('\t', '\t'), (' ', ' ')])
  | "cntrl" => some (classOf [('\x00', '\x1F'), ('\x7F', '\x7F')])
  | "digit" => some (classOf [('0', '9')])
  | "graph" => some (classOf [('!', '~')])
  | "lower" => some (classOf [('a', 'z')])
  | "print" => some (classOf [(' ', '~')])
  | "punct" => some (classOf [('!', '/'), (':', '@'), ('[', '\x60'), ('\x7B', '~')])
  | "space" => some (classOf [('\t', '\r'), (' ', ' ')])
  | "upper" => some (classOf [('A', 'Z')])
  | "word" => some (classOf [('0', '9'), ('A', 'Z'), ('_', '_'), ('a', 'z')])
  | "xdigit" => some (classOf [('0', '9'), ('A', 'F'), ('a', 'f')])
  | _ => none

/-- Where case is ignored, a set takes in the case variants of its characters. -/
def caseClosed (ignoreCase : Bool) (chars : CharSet) : CharSet :=
  if ignoreCase then chars.foldCase else chars

/-- A set as it stands for itself or, when it is complemented, for all other characters. Case
variants are taken in first. -/
def finished (ignoreCase complemented : Bool) (chars : CharSet) : CharSet :=
  let chars := caseClosed ignoreCase chars
  if complemented then chars.compl else chars

/-- The operators in brackets. -/
inductive SetOperator
  | inter
  | diff
  | symmDiff
deriving DecidableEq, Repr

def SetOperator.apply (ignoreCase : Bool) (operator : SetOperator) (left right : CharSet) :
    CharSet :=
  let left := caseClosed ignoreCase left
  let right := caseClosed ignoreCase right
  match operator with
  | inter => left.inter right
  | diff => left.diff right
  | symmDiff => left.symmDiff right

end QubitScript.Pattern
