import QubitScript.Pattern.Form
import QubitScript.Text.Utf8

/-!
# Sizes of patterns

A pattern is refused when an automaton for it would be too large. The automaton reads bytes, forward
or backward, and holds every round of a bounded repetition on its own, so its size is counted
without building it. A state counts 32 bytes, a way out of a choice of states 4, and a range of
bytes that leads on from a state with several of them 8.
-/

namespace QubitScript.Text.CharSet

/-- Whether all characters of the set are ASCII. -/
def isAscii (chars : CharSet) : Bool := chars.ranges.all fun (_, last) => decide (last < 0x80)

/-- An ASCII set takes one state with a range for each of its own, and a state to arrive at. -/
def asciiSize (chars : CharSet) : Nat := 64 + 8 * chars.ranges.length

/-- Read forward, a larger set takes a state for each list of sequences that may be left to read. -/
def forwardSize (chars : CharSet) : Nat :=
  if chars.isAscii then chars.asciiSize
  else
    let lists := (remainderLists 4 chars.byteSequences).eraseDups
    lists.foldl (fun size list => size + (32 + 8 * (splitByFirst list).length)) 32

/-- Read backward, a larger set takes a choice between its sequences, which share what comes last in
reading. -/
def backwardSize (chars : CharSet) : Nat :=
  if chars.isAscii then chars.asciiSize
  else 64 + 4 * chars.byteSequences.length + 32 * sharedRanges chars.byteSequences

/-- A bound for both sizes: a range of code points has at most 21 sequences, with at most 65 byte
ranges that they do not share. -/
def sizeBound (chars : CharSet) : Nat := 2200 * (chars.ranges.length + 1)

end QubitScript.Text.CharSet

namespace QubitScript.Pattern

open QubitScript.Text

namespace Form

/-- The size of an automaton for the form, where a set that is no single character counts `setSize`
and a group `groupSize`. -/
def size (setSize : CharSet → Nat) (groupSize : Nat) : Form → Nat
  | empty => 32
  | set chars =>
    match chars.single? with
    | some c => 32 * c.utf8Size
    | none => setSize chars
  | assert _ => 32
  | seq first rest => size setSize groupSize first + size setSize groupSize rest
  | alt left right =>
    let joint := match right with
      | alt _ _ => 4
      | _ => 72
    size setSize groupSize left + size setSize groupSize right + joint
  | repeated bounds _ body =>
    let round := size setSize groupSize body
    match bounds.least, bounds.most with
    | 0, none => if body.mayTakeNothing then round + 112 else round + 40
    | least, none => least * round + 40
    | least, some most =>
      if least < most then least * round + (most - least) * (round + 40) + 32 else least * round
  | group _ body => size setSize groupSize body + groupSize

/-- The size of an automaton that reads forward. It has a loop over all bytes in front and keeps the
bounds of the match and of its groups. -/
def forwardSize (form : Form) : Nat := form.size CharSet.forwardSize 64 + 208

/-- The size of an automaton that reads backward. It has the same loop in front and keeps no
bounds. -/
def backwardSize (form : Form) : Nat := form.size CharSet.backwardSize 0 + 144

/-- A bound for both sizes. -/
def sizeBound (form : Form) : Nat := form.size CharSet.sizeBound 64 + 208

end Form

/-- The size of the largest automaton that is built. -/
def sizeLimit : Nat := 10 * 2 ^ 20

/-- Whether the automata of a form are small enough. The bound settles this for most forms. -/
def Form.fits (form : Form) : Bool :=
  decide (form.sizeBound ≤ sizeLimit) ||
    (decide (form.forwardSize ≤ sizeLimit) && decide (form.backwardSize ≤ sizeLimit))

end QubitScript.Pattern
