import QubitScript.Text.Blank

/-!
# Calls

A call is a name and arguments in parentheses. Commas outside of inner parentheses separate the
arguments, and the blanks around the name and the arguments do not count.
-/

namespace QubitScript

/-- Why a text is no call. -/
inductive CallFault
  | missingOpening
  | missingName
  | missingClosing
  | unbalanced
  | emptyArgument
deriving DecidableEq, Repr

def CallFault.describe : CallFault → String
  | missingOpening => "missing '('"
  | missingName => "missing function name"
  | missingClosing => "missing closing ')'"
  | unbalanced => "unbalanced parentheses"
  | emptyArgument => "empty argument"

namespace Call

open Text (trim)

/-- The text of a call: `name(argument,argument,...)`. -/
def assemble (name : String) (arguments : List String) : String :=
  name ++ "(" ++ ",".intercalate arguments ++ ")"

/-- Cuts a text at the commas that are outside of parentheses. `piece` holds the characters since
the last cut, the latest first. -/
def cutAtCommas (depth : Nat) (piece : List Char) : List Char → Except CallFault (List (List Char))
  | [] => if depth = 0 then .ok [piece.reverse] else .error .unbalanced
  | '(' :: rest => cutAtCommas (depth + 1) ('(' :: piece) rest
  | ')' :: rest =>
    match depth with
    | 0 => .error .unbalanced
    | depth + 1 => cutAtCommas depth (')' :: piece) rest
  | c :: rest =>
    if c = ',' ∧ depth = 0 then (cutAtCommas 0 [] rest).map (piece.reverse :: ·)
    else cutAtCommas depth (c :: piece) rest

/-- The arguments between the outer parentheses. Blanks alone are no argument. -/
def splitArguments (inner : List Char) : Except CallFault (List (List Char)) :=
  if trim inner = [] then .ok []
  else do
    let pieces ← cutAtCommas 0 [] inner
    let arguments := pieces.map trim
    if arguments.any List.isEmpty then .error .emptyArgument else .ok arguments

/-- Splits the text of a call into its name and its arguments. -/
def split (text : List Char) : Except CallFault (List Char × List (List Char)) :=
  match text.dropWhile (· != '(') with
  | [] => .error .missingOpening
  | _ :: afterOpening =>
    let name := trim (text.takeWhile (· != '('))
    if name = [] then .error .missingName
    else if afterOpening.getLast? = some ')' then
      (splitArguments afterOpening.dropLast).map (name, ·)
    else .error .missingClosing

end Call

end QubitScript
