import QubitScript.Text.CharSet

/-!
# Blank characters

Blanks separate tokens, may surround the arguments of a call, and make up the lines that count
but hold no command.
-/

namespace QubitScript.Text

/-- The characters with the white space property. -/
def blankSet : CharSet where
  ranges :=
    [(0x9, 0xD), (0x20, 0x20), (0x85, 0x85), (0xA0, 0xA0), (0x1680, 0x1680), (0x2000, 0x200A),
     (0x2028, 0x2029), (0x202F, 0x202F), (0x205F, 0x205F), (0x3000, 0x3000)]
  ordered := by decide +kernel

def isBlank (c : Char) : Bool := blankSet.contains c

/-- Removes the blanks at both ends. -/
def trim (text : List Char) : List Char :=
  ((text.dropWhile isBlank).reverse.dropWhile isBlank).reverse

end QubitScript.Text
