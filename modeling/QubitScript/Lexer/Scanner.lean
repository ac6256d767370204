import QubitScript.Lexer.Basic
import QubitScript.Located

/-!
# Scanning

A scanner walks over one input and yields a token at every step. It stops at the end of the input or
at the first character that no rule accepts.
-/

namespace QubitScript

/-- A token of a lexer: the name of its rule, the text that it took, and its value, which the rule
may leave out. -/
structure Token where
  kind : String
  lexeme : String
  value : Option String
deriving DecidableEq, Repr

/-- A token whose value is its lexeme. -/
def Token.plain (kind lexeme : String) : Token := ⟨kind, lexeme, some lexeme⟩

/-- No rule accepts a character. -/
structure UnknownCharacter where
  char : Char
deriving DecidableEq, Repr

def UnknownCharacter.describe (fault : UnknownCharacter) : String :=
  "Found unknown token '" ++ fault.char.toString ++ "'."

abbrev LexFault := Located UnknownCharacter

def LexFault.message (fault : LexFault) : String := fault.report UnknownCharacter.describe

namespace Lexer

/-- The first rule whose group has a part in a match, and the piece that the group takes. -/
def ruleOf? (lexer : Lexer) (found : Found) : Option (Rule × Span) :=
  lexer.rules.findSome? fun rule => (found.group? rule.name).map (rule, ·)

/-- The rule that takes a piece of the input at the cursor, and that piece. The preferred match of
the joined pattern decides alone: when it is empty there is no token. -/
def match? (lexer : Lexer) (scanner : Scanner) : Option (Rule × Span) := do
  let found ← lexer.pattern.matchAt? scanner.input scanner.place
  if found.whole.isEmpty then none else lexer.ruleOf? found

/-- Moves on to where the next token is looked for. -/
def skipBlanks (lexer : Lexer) (scanner : Scanner) : Scanner :=
  if lexer.options.omitBlanks then
    match lexer.blanks.matchAt? scanner.input scanner.place with
    | some found => scanner.goTo found.whole.stop
    | none => scanner
  else scanner

/-- Yields the next token, or the fault that ends the scan, or nothing once the scan has ended. -/
def next (lexer : Lexer) (scanner : Scanner) : Option (Except LexFault Token) × Scanner :=
  if scanner.failed || scanner.done then (none, scanner)
  else
    let scanner := lexer.skipBlanks scanner
    match scanner.cursor.rest with
    | [] => (none, scanner)
    | c :: _ =>
      match lexer.match? scanner with
      | none => (some (.error ⟨scanner.line, ⟨c⟩⟩), { scanner with failed := true })
      | some (rule, span) =>
        let lexeme := String.ofList (span.textIn scanner.input)
        let after := scanner.goTo span.stop
        (some (.ok ⟨rule.name, lexeme, rule.action after lexeme⟩), after)

/-- A scan that has ended: its tokens, each with the state after it, the fault that ended it, if one
did, and the last state. -/
structure Scan where
  tokens : List (Token × Scanner)
  fault : Option LexFault
  last : Scanner

/-- Scans on to the end. The number of characters left is fuel enough where every token takes some.
A scan of tokens that take nothing does not end, and only its beginning is given. -/
def run (lexer : Lexer) : (fuel : Nat) → Scanner → Scan
  | 0, scanner => ⟨[], none, scanner⟩
  | fuel + 1, scanner =>
    match lexer.next scanner with
    | (none, scanner) => ⟨[], none, scanner⟩
    | (some (.error fault), scanner) => ⟨[], some fault, scanner⟩
    | (some (.ok token), scanner) =>
      let scan := run lexer fuel scanner
      { scan with tokens := (token, scanner) :: scan.tokens }

/-- Scans a whole input. -/
def scan (lexer : Lexer) (input : String) : Scan :=
  lexer.run (input.toList.length + 1) (.start input)

/-- The tokens of an input, or the first fault in it. -/
def tokenize (lexer : Lexer) (input : String) : Except LexFault (List Token) :=
  let scan := lexer.scan input
  match scan.fault with
  | some fault => .error fault
  | none => .ok (scan.tokens.map (·.1))

end Lexer

end QubitScript
