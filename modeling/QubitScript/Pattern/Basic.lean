import QubitScript.Text.Word

/-!
# Patterns and their matches

A pattern describes pieces of a text. The matches of a pattern at a cursor are listed in order of
preference: the left branch of a choice before the right one, and one more repetition before
stopping, or after it when the repetition is lazy. The first match of the list is the match.

A loop whose body may take nothing could turn for ever at one place. The choices within such a loop
are numbered, and a match never comes back to a choice unless it has taken a character since. In
another round of a bounded repetition a choice counts as another one.
-/

namespace QubitScript

open QubitScript.Text

/-- A choice on the way of a match: its number in the pattern, and the rounds of the bounded
repetitions around it, the innermost first. -/
structure Choice where
  number : Nat
  rounds : List Nat
deriving DecidableEq, Repr

/-- What a group with a name has taken: the number of characters left where it begins, and the
number left where it ends. -/
structure Capture where
  name : String
  atStart : Nat
  atStop : Nat
deriving DecidableEq, Repr

/-- A place in a text: the character before it, the number of UTF-8 bytes before it, the characters
from it on, what groups with names have taken on the way, the latest first, and the choices passed
since the last character. -/
structure Cursor where
  before : Option Char
  offset : Nat
  rest : List Char
  groups : List Capture
  passed : List Choice
deriving DecidableEq, Repr

namespace Cursor

def start (text : List Char) : Cursor := ⟨none, 0, text, [], []⟩

/-- The place after the next character; the end of the text stays where it is. -/
def next (cursor : Cursor) : Cursor :=
  match cursor.rest with
  | [] => cursor
  | c :: rest =>
    { cursor with
      before := some c, offset := cursor.offset + c.utf8Size, rest := rest, passed := [] }

/-- The place after one character from each of the sets, if these characters come next. -/
def takeEach? : (sets : List CharSet) → Cursor → Option Cursor
  | [], cursor => some cursor
  | set :: sets, cursor =>
    if cursor.rest.head?.any set.contains then takeEach? sets cursor.next else none

/-- The place `count` characters further on. -/
def skip : Nat → Cursor → Cursor
  | 0, cursor => cursor
  | count + 1, cursor => skip count cursor.next

/-- The end of a group that begins at `start`. -/
def pass (name : String) (start stop : Cursor) : Cursor :=
  { stop with groups := ⟨name, start.rest.length, stop.rest.length⟩ :: stop.groups }

/-- The same place, with nothing kept of the way to it. -/
def forget (cursor : Cursor) : Cursor := { cursor with groups := [], passed := [] }

/-- Passes a choice, if it may be passed: one without a number always, and a numbered one only once
at a place. -/
def enter? (cursor : Cursor) (rounds : List Nat) : (number : Option Nat) → Option Cursor
  | none => some cursor
  | some number =>
    if cursor.passed.contains ⟨number, rounds⟩ then none
    else some { cursor with passed := ⟨number, rounds⟩ :: cursor.passed }

def afterWord (cursor : Cursor) : Bool := cursor.before.any isWord

def beforeWord (cursor : Cursor) : Bool := cursor.rest.head?.any isWord

end Cursor

namespace Pattern

/-- A condition on a place that takes no character. Line breaks may be single characters, or a
return and a newline may make up one break, which no line begins or ends within. -/
inductive Assertion
  | textStart
  | textEnd
  | lineStart
  | lineEnd
  | breakBefore
  | breakAfter
  | wordBoundary (holds : Bool)
  | wordStart
  | wordEnd
  | noWordBefore
  | noWordAfter
deriving DecidableEq, Repr

def Assertion.holds : Assertion → Cursor → Bool
  | .textStart, cursor => cursor.before.isNone
  | .textEnd, cursor => cursor.rest.isEmpty
  | .lineStart, cursor => cursor.before.all (· == '\n')
  | .lineEnd, cursor => cursor.rest.head?.all (· == '\n')
  | .breakBefore, cursor =>
    cursor.before.all (· == '\n') || (cursor.before == some '\r' && cursor.rest.head? != some '\n')
  | .breakAfter, cursor =>
    cursor.rest.head?.all (· == '\r') ||
      (cursor.rest.head? == some '\n' && cursor.before != some '\r')
  | .wordBoundary holds, cursor => (cursor.afterWord != cursor.beforeWord) == holds
  | .wordStart, cursor => !cursor.afterWord && cursor.beforeWord
  | .wordEnd, cursor => cursor.afterWord && !cursor.beforeWord
  | .noWordBefore, cursor => !cursor.afterWord
  | .noWordAfter, cursor => !cursor.beforeWord

end Pattern

/-- Patterns. Characters that follow each other are given by the sets that they are from. A
repetition is greedy or lazy. A choice may have a number, and so may a repetition, which chooses
between one more round and the end. -/
inductive Pattern
  | empty
  | oneOfEach (sets : List CharSet)
  | assert (condition : Pattern.Assertion)
  | seq (first second : Pattern)
  | alt (number : Option Nat) (left right : Pattern)
  | times (count : Nat) (body : Pattern)
  | upTo (number : Option Nat) (greedy : Bool) (most : Nat) (body : Pattern)
  | star (number : Option Nat) (greedy : Bool) (body : Pattern)
  | plus (number : Option Nat) (greedy : Bool) (body : Pattern)
  | group (name : String) (body : Pattern)
deriving DecidableEq, Repr

namespace Pattern

/-- Adds a place to those found so far, the latest first, unless it is among them. -/
def record (found : List Cursor) (cursor : Cursor) : List Cursor :=
  if found.any (·.offset == cursor.offset) then found else cursor :: found

/-- Keeps the first of the places with one offset. -/
def distinct (cursors : List Cursor) : List Cursor := (cursors.foldl record []).reverse

/-- The places that exactly so many rounds lead to. Every round has a body of its own. -/
def timesFrom (body : Nat → Cursor → List Cursor) : (count : Nat) → List Cursor → List Cursor
  | 0, cursors => cursors
  | count + 1, cursors => timesFrom body count (distinct (cursors.flatMap (body count)))

/-- The state of a search through a bounded repetition: how many rounds were left at which offset,
and the places found, the latest first. -/
structure Descent where
  seen : List (Nat × Nat)
  found : List Cursor

/-- Searches the places that at most `most` further rounds lead to. It may stop at `cursor` or take
the body of the next round. With the same number of rounds left, a place that was seen before leads
nowhere new. -/
def upToFrom (enter? : Nat → Cursor → Option Cursor) (greedy : Bool)
    (body : Nat → Cursor → List Cursor) : (most : Nat) → Cursor → Descent → Descent
  | 0, cursor, descent => { descent with found := record descent.found cursor }
  | most + 1, cursor, descent =>
    if descent.seen.contains (most, cursor.offset) then descent
    else
      let descent := { descent with seen := (most, cursor.offset) :: descent.seen }
      match enter? most cursor with
      | none => descent
      | some cursor =>
        let stop (descent : Descent) := { descent with found := record descent.found cursor }
        let onward (descent : Descent) :=
          (body most cursor).foldl
            (fun descent cursor => upToFrom enter? greedy body most cursor descent) descent
        if greedy then stop (onward descent) else onward (stop descent)

/-- Searches the places that a loop reaches when it has come to `cursor` after some round: it may
stop there or take the body once more. The body has to move on, since a round that takes nothing
comes back to a place where the loop is already. A place that was found before leads nowhere new.
The fuel is the number of characters left. -/
def loopFrom (enter? : Cursor → Option Cursor) (greedy : Bool) (body : Cursor → List Cursor) :
    Nat → Cursor → List Cursor → List Cursor
  | 0, cursor, found => (enter? cursor).elim found (record found)
  | fuel + 1, cursor, found =>
    if found.any (·.offset == cursor.offset) then found
    else
      match enter? cursor with
      | none => found
      | some cursor =>
        let onward (found : List Cursor) : List Cursor :=
          ((body cursor).filter (cursor.offset < ·.offset)).foldl
            (fun found stop => loopFrom enter? greedy body fuel stop found) found
        if greedy then cursor :: onward found else onward (cursor :: found)

/-- The places where a match that begins at the cursor can end, in order of preference, `rounds`
being the rounds of the bounded repetitions around the pattern. -/
def ends : Pattern → (rounds : List Nat) → Cursor → List Cursor
  | empty, _, cursor => [cursor]
  | oneOfEach sets, _, cursor => (cursor.takeEach? sets).toList
  | assert condition, _, cursor => if condition.holds cursor then [cursor] else []
  | seq first second, rounds, cursor =>
    distinct ((ends first rounds cursor).flatMap (ends second rounds))
  | alt number left right, rounds, cursor =>
    match cursor.enter? rounds number with
    | none => []
    | some cursor => ends left rounds cursor ++ ends right rounds cursor
  | times count body, rounds, cursor =>
    timesFrom (fun round => ends body (round :: rounds)) count [cursor]
  | upTo number greedy most body, rounds, cursor =>
    (upToFrom (fun round cursor => cursor.enter? (round :: rounds) number) greedy
      (fun round => ends body (round :: rounds)) most cursor ⟨[], []⟩).found.reverse
  | star number greedy body, rounds, cursor =>
    (loopFrom (·.enter? rounds number) greedy (ends body rounds) cursor.rest.length cursor
      []).reverse
  | plus number greedy body, rounds, cursor =>
    ((ends body rounds cursor).foldl (fun found stop =>
      loopFrom (·.enter? rounds number) greedy (ends body rounds) stop.rest.length stop found)
      []).reverse
  | group name body, rounds, cursor => (ends body rounds cursor).map (Cursor.pass name cursor)

/-- Where the preferred match at the cursor ends. -/
def matchAt? (pattern : Pattern) (cursor : Cursor) : Option Cursor := (pattern.ends [] cursor).head?

/-- The first match that begins at the cursor or at one of the `count` places after it: where it
begins, and where it ends. -/
def searchFrom? (pattern : Pattern) : (count : Nat) → Cursor → Option (Cursor × Cursor)
  | 0, cursor => (pattern.matchAt? cursor).map (cursor, ·)
  | count + 1, cursor =>
    match pattern.matchAt? cursor with
    | some stop => some (cursor, stop)
    | none => searchFrom? pattern count cursor.next

/-- The first match in the rest of the text. -/
def search? (pattern : Pattern) (cursor : Cursor) : Option (Cursor × Cursor) :=
  pattern.searchFrom? cursor.rest.length cursor

/-! ## Building patterns -/

/-- Puts characters that follow each other into one pattern. -/
def joinChars : List Pattern → List Pattern
  | [] => []
  | oneOfEach sets :: rest =>
    match joinChars rest with
    | oneOfEach others :: rest => oneOfEach (sets ++ others) :: rest
    | rest => oneOfEach sets :: rest
  | pattern :: rest => pattern :: joinChars rest

/-- One pattern after the other. -/
def concat (patterns : List Pattern) : Pattern :=
  match joinChars patterns with
  | [] => empty
  | pattern :: rest => rest.foldl seq pattern

/-- The choice between the patterns, earlier ones preferred. -/
def choice : List Pattern → Pattern
  | [] => empty
  | [pattern] => pattern
  | pattern :: rest => alt none pattern (choice rest)

end Pattern

end QubitScript
