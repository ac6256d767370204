import QubitScript.Text.CharSet

/-!
# Ranges of characters in UTF-8

The UTF-8 forms of a set of characters, as sequences of byte ranges. Each sequence stands for the
characters whose bytes lie in its ranges, one by one; the sequences of a set are in ascending order
and have no character in common. Sequences that begin alike share states in an automaton that reads
forward, and sequences that end alike share them when it reads backward.
-/

namespace QubitScript.Text

/-- An inclusive range of bytes. -/
abbrev ByteRange := Nat × Nat

/-- The sequences for the numbers from `first` to `last`, written in base 64 with `tails` digits
after the leading one. The leading digit is added to `lead`, each other digit to 0x80. -/
def digitSequences (lead : Nat) : (tails : Nat) → (first last : Nat) → List (List ByteRange)
  | 0, first, last => [[(lead + first, lead + last)]]
  | tails + 1, first, last =>
    let block := 64 ^ (tails + 1)
    let low := first / block
    let high := last / block
    let within (digit first last : Nat) : List (List ByteRange) :=
      (digitSequences 0x80 tails first last).map ((lead + digit, lead + digit) :: ·)
    let whole (low high : Nat) : List (List ByteRange) :=
      if low ≤ high then
        (digitSequences 0x80 tails 0 (block - 1)).map ((lead + low, lead + high) :: ·)
      else []
    if low = high then within low (first % block) (last % block)
    else
      let (front, low) :=
        if first % block = 0 then ([], low) else (within low (first % block) (block - 1), low + 1)
      let (back, above) :=
        if last % block = block - 1 then ([], high + 1)
        else (within high 0 (last % block), high)
      front ++ whole low (above - 1) ++ back

/-- The code points whose characters take equally many bytes: the first and the last of them, the
byte that leads them and the number of bytes after it. Surrogates are no characters. -/
def byteWidths : List (Nat × Nat × Nat × Nat) :=
  [(0x0, 0x7F, 0x0, 0), (0x80, 0x7FF, 0xC0, 1), (0x800, 0xD7FF, 0xE0, 2), (0xE000, 0xFFFF, 0xE0, 2),
   (0x10000, 0x10FFFF, 0xF0, 3)]

/-- The sequences for a range of code points. -/
def byteSequences (first last : Nat) : List (List ByteRange) :=
  byteWidths.flatMap fun (low, high, lead, tails) =>
    if max first low ≤ min last high then
      digitSequences lead tails (max first low) (min last high)
    else []

def CharSet.byteSequences (chars : CharSet) : List (List ByteRange) :=
  chars.ranges.flatMap fun (first, last) => Text.byteSequences first last

/-- The number of ranges that two sequences begin with alike. -/
def sharedLength : List ByteRange → List ByteRange → Nat
  | first :: rest, other :: others => if first = other then sharedLength rest others + 1 else 0
  | _, _ => 0

/-- The number of ranges that are left when sequences in ascending order share what they begin
with. -/
def sharedRanges (sequences : List (List ByteRange)) : Nat :=
  (sequences.foldl (fun (count, previous) sequence =>
    (count + (sequence.length - sharedLength previous sequence), sequence)) (0, [])).1

/-- Splits sequences in ascending order by their first ranges: one list of remainders for each. -/
def splitByFirst : List (List ByteRange) → List (ByteRange × List (List ByteRange))
  | [] => []
  | [] :: sequences => splitByFirst sequences
  | (first :: rest) :: sequences =>
    match splitByFirst sequences with
    | (next, remainders) :: others =>
      if first = next then (first, rest :: remainders) :: others
      else (first, [rest]) :: (next, remainders) :: others
    | [] => [(first, [rest])]

/-- The lists of sequences that may follow a byte or stand at the beginning, each with more than
nothing left to read. -/
def remainderLists : (width : Nat) → List (List ByteRange) → List (List (List ByteRange))
  | 0, _ => []
  | width + 1, sequences =>
    if sequences.all (·.isEmpty) then []
    else
      sequences :: (splitByFirst sequences).flatMap fun (_, remainders) =>
        remainderLists width remainders

end QubitScript.Text
