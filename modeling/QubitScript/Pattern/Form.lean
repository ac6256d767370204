import QubitScript.Pattern.Basic

/-!
# Forms of patterns

A form is what a pattern text says, with every repetition still written once. Forms are put together
by `concat`, `choice` and `rounds`, which keep them simple: parts of a part become parts of the
whole, a choice between characters is a set, and what all branches of a choice begin with stands
before it.
-/

namespace QubitScript.Pattern

open QubitScript.Text

/-- The bounds of a repetition: at least so many rounds, and at most so many. -/
structure Bounds where
  least : Nat
  most : Option Nat
deriving DecidableEq, Repr

/-- Two rounds that take nothing do no more than one. -/
def Bounds.atMostOnce (bounds : Bounds) : Bounds :=
  ⟨min bounds.least 1, some (min (bounds.most.getD 1) 1)⟩

/-- A part of a form, a sequence of parts or a choice between branches. The parts of a sequence are
nested to the right, and so are the branches of a choice. -/
inductive Form
  | empty
  | set (chars : CharSet)
  | assert (condition : Assertion)
  | seq (first rest : Form)
  | alt (left right : Form)
  | repeated (bounds : Bounds) (greedy : Bool) (body : Form)
  | group (name : Option String) (body : Form)
deriving DecidableEq, Repr

namespace Form

/-- Whether all matches are empty. -/
def takesNothing : Form → Bool
  | empty => true
  | set _ => false
  | assert _ => true
  | seq first rest => takesNothing first && takesNothing rest
  | alt left right => takesNothing left && takesNothing right
  | repeated _ _ body => takesNothing body
  | group _ body => takesNothing body

/-- Whether some matches may be empty. -/
def mayTakeNothing : Form → Bool
  | empty => true
  | set _ => false
  | assert _ => true
  | seq first rest => mayTakeNothing first && mayTakeNothing rest
  | alt left right => mayTakeNothing left || mayTakeNothing right
  | repeated bounds _ body => bounds.least == 0 || mayTakeNothing body
  | group _ body => mayTakeNothing body

/-- The parts of a sequence. -/
def parts : Form → List Form
  | empty => []
  | seq first rest => first :: parts rest
  | form => [form]

/-- The branches of a choice. -/
def branches : Form → List Form
  | alt left right => left :: branches right
  | form => [form]

def hasGroup : Form → Bool
  | empty => false
  | set _ => false
  | assert _ => false
  | seq first rest => hasGroup first || hasGroup rest
  | alt left right => hasGroup left || hasGroup right
  | repeated _ _ body => hasGroup body
  | group _ _ => true

/-- One form after the other. -/
def concat (forms : List Form) : Form :=
  (forms.flatMap parts).foldr (fun part rest => match rest with
    | empty => part
    | _ => seq part rest) empty

def charSet? : Form → Option CharSet
  | set chars => some chars
  | _ => none

/-- The set that a choice between single characters, or between larger sets, amounts to. -/
def union? (forms : List Form) : Option CharSet := do
  let sets ← forms.mapM charSet?
  if sets.all (·.single?.isSome) || sets.all (·.single?.isNone) then
    some (sets.foldl CharSet.union .empty)
  else none

/-- The choice between branches that have nothing in common, earlier ones preferred. -/
def choose (forms : List Form) : Form :=
  let rec nest : List Form → Form
    | [] => empty
    | [form] => form
    | form :: rest => alt form (nest rest)
  let branches := forms.flatMap branches
  match union? branches with
  | some chars => set chars
  | none => nest branches

/-- The parts that two sequences both begin with. A group is never the same as another group. -/
def commonParts : List Form → List Form → List Form
  | first :: rest, other :: others =>
    if first == other && !first.hasGroup then first :: commonParts rest others else []
  | _, _ => []

/-- The parts that all the forms begin with, if each of them is a sequence. -/
def sharedParts (forms : List Form) : List Form :=
  if forms.all fun form => decide (2 ≤ form.parts.length) then
    match forms with
    | [] => []
    | form :: rest => rest.foldl (fun shared form => commonParts shared form.parts) form.parts
  else []

/-- The choice between the forms, earlier ones preferred. What all branches begin with is taken
out. -/
def choice (forms : List Form) : Form :=
  let branches := forms.flatMap branches
  match branches with
  | [form] => form
  | _ =>
    match sharedParts branches with
    | [] => choose branches
    | shared =>
      concat (shared ++ [choose (branches.map fun form => concat (form.parts.drop shared.length))])

/-- The repetition of a form. -/
def rounds (bounds : Bounds) (greedy : Bool) (body : Form) : Form :=
  let bounds := if body.takesNothing then bounds.atMostOnce else bounds
  if bounds = ⟨0, some 0⟩ then empty
  else if bounds = ⟨1, some 1⟩ then body
  else repeated bounds greedy body

end Form

end QubitScript.Pattern
