import QubitScript.Pattern.Form

/-!
# Numbering forms

The pattern of a form has a number for every choice within a loop whose body may take nothing. The
rounds that a repetition must have and those that it may have become patterns of their own, with
numbers of their own.
-/

namespace QubitScript.Pattern

/-- A number that no choice has yet, where choices are numbered at all. -/
def newNumber (numbered : Bool) : StateM Nat (Option Nat) :=
  if numbered then modifyGet fun next => (some next, next + 1) else pure none

/-- Exactly so many rounds. -/
def exactly (count : Nat) (round : StateM Nat Pattern) : StateM Nat (List Pattern) :=
  match count with
  | 0 => pure []
  | 1 => return [← round]
  | count => return [times count (← round)]

/-- Whether the pattern is a loop with the same preference, which begins after its first round. -/
def isLoop (greedy : Bool) : Pattern → Bool
  | plus _ preference _ => preference == greedy
  | _ => false

/-- The loop that begins after its first round. A loop of such loops leads nowhere new, as long as
every round takes something. -/
def loopOf (number : Option Nat) (greedy mayTakeNothing : Bool) (round : Pattern) : Pattern :=
  if !mayTakeNothing && round.isLoop greedy then round else plus number greedy round

/-- A repetition of rounds, `mayTakeNothing` telling whether a round may be empty. A loop that
begins before the first round and has rounds that may be empty is an option of a loop that begins
after it. -/
def repetition (bounds : Bounds) (numbered greedy mayTakeNothing : Bool)
    (round : StateM Nat Pattern) : StateM Nat (List Pattern) :=
  match bounds.least, bounds.most with
  | 0, none => do
    let number ← newNumber numbered
    if mayTakeNothing then
      return [upTo number greedy 1 (plus (← newNumber numbered) greedy (← round))]
    else return [star number greedy (← round)]
  | least + 1, none => do
    let loop := loopOf (← newNumber numbered) greedy mayTakeNothing (← round)
    return (← exactly least round) ++ [loop]
  | least, some most => do
    let must ← exactly least round
    if most ≤ least then return must
    else return must ++ [upTo (← newNumber numbered) greedy (most - least) (← round)]

/-- Numbers the parts of a form, inside or outside a loop with numbered choices. -/
def Form.numberFrom (numbered : Bool) : Form → StateM Nat (List Pattern)
  | empty => pure []
  | set chars => pure [.oneOfEach [chars]]
  | assert condition => pure [.assert condition]
  | seq first rest => do
    return (← numberFrom numbered first) ++ (← numberFrom numbered rest)
  | alt left right => do
    let number ← newNumber numbered
    return [.alt number (.concat (← numberFrom numbered left))
      (.concat (← numberFrom numbered right))]
  | repeated bounds greedy body =>
    let loops := bounds.most.isNone && body.mayTakeNothing
    repetition bounds (numbered || loops) greedy body.mayTakeNothing
      (.concat <$> numberFrom (numbered || loops) body)
  | group none body => numberFrom numbered body
  | group (some name) body => do return [.group name (.concat (← numberFrom numbered body))]

/-- The pattern of a form. -/
def Form.pattern (form : Form) : Pattern := .concat ((form.numberFrom false).run 0).1

end QubitScript.Pattern
