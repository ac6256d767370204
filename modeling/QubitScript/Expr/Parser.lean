import QubitScript.Expr.Basic
import QubitScript.Expr.Token

/-!
# Parsing expressions

```text
additive       := multiplicative (("+" | "-") multiplicative)*
multiplicative := unary (("*" | "\" | "/") unary)*
unary          := "-" unary | primary
primary        := number | text | NAME | NAME "(" [additive ("," additive)*] ")" | "(" additive ")"
assignment     := NAME "=" additive
```

A parser takes a list of tokens and returns a tree with the tokens that it has left over, which are
fewer. That is why parsing ends. The measure is nine times the number of tokens plus the rank of the
parser, from one to eight, so a parser may call one of lower rank on the same tokens and any parser
on fewer.
-/

namespace QubitScript.Expr

/-- Why a list of tokens is no expression or no assignment. -/
inductive ParseFault
  | token (fault : TokenFault)
  | unexpectedToken (found : Token)
  | expectedCommaOrParen (found : Token)
  | unexpectedEnd
  | expectedClosingParen
  | trailingToken (found : Token)
  | invalidTarget
  | expectedAssignment
deriving Repr

def ParseFault.describe : ParseFault → String
  | token (.unexpected text) => "Unexpected token: " ++ text ++ "."
  | token (.tooLarge digits) => "Integer literal '" ++ digits ++ "' is too large."
  | unexpectedToken found => "Unexpected token: " ++ found.write ++ "."
  | expectedCommaOrParen found =>
    "Unexpected token: Expected ',' or ')', found '" ++ found.write ++ "'."
  | unexpectedEnd => "Unexpected end of input."
  | expectedClosingParen => "Expected closing parenthesis ')' but none found."
  | trailingToken found => "Extra tokens after expression. Check your input: " ++ found.write
  | invalidTarget => "Only a name can be assigned to. Example: x = 1 + 2"
  | expectedAssignment => "Expected an assignment."

abbrev ParseError := Located ParseFault

def ParseError.message (error : ParseError) : String := error.report ParseFault.describe

/-- What a parser has read, and the tokens after it, fewer than `bound`. -/
structure Parsed (α : Type) (bound : Nat) where
  value : α
  rest : List (Located Token)
  shorter : rest.length < bound

namespace Parsed

def widen {α : Type} {small large : Nat} (h : small ≤ large) (parsed : Parsed α small) :
    Parsed α large :=
  ⟨parsed.value, parsed.rest, Nat.lt_of_lt_of_le parsed.shorter h⟩

def map {α β : Type} {bound : Nat} (f : α → β) (parsed : Parsed α bound) : Parsed β bound :=
  ⟨f parsed.value, parsed.rest, parsed.shorter⟩

end Parsed

def additiveOp? : Token → Option BinaryOp
  | .plus => some .add
  | .minus => some .sub
  | _ => none

def multiplicativeOp? : Token → Option BinaryOp
  | .star => some .mul
  | .backslash => some .div
  | .slash => some .div
  | _ => none

/-- The fault of a list of tokens that ends where more is needed. A tokenized text has a line break
at its end, so parsing one meets that first. -/
def unexpectedEnd : ParseError := ⟨0, .unexpectedEnd⟩

mutual

def parseAdditive (tokens : List (Located Token)) :
    Except ParseError (Parsed Expr tokens.length) := do
  let left ← parseMultiplicative tokens
  let all ← parseAdditiveTail left.value left.rest
  return all.widen left.shorter
termination_by 9 * tokens.length + 5
decreasing_by
  · omega
  · have := left.shorter; omega

/-- Continues a sum after its first terms. -/
def parseAdditiveTail (left : Expr) (tokens : List (Located Token)) :
    Except ParseError (Parsed Expr (tokens.length + 1)) :=
  match tokens with
  | [] => .ok ⟨left, [], by simp⟩
  | ⟨line, token⟩ :: rest =>
    match additiveOp? token with
    | none => .ok ⟨left, ⟨line, token⟩ :: rest, by simp⟩
    | some op => do
      let right ← parseMultiplicative rest
      let all ← parseAdditiveTail (.binary op left right.value line) right.rest
      return all.widen (by have := right.shorter; simp only [List.length_cons]; omega)
termination_by 9 * tokens.length + 6
decreasing_by
  · simp only [List.length_cons]; omega
  · have := right.shorter; simp only [List.length_cons]; omega

def parseMultiplicative (tokens : List (Located Token)) :
    Except ParseError (Parsed Expr tokens.length) := do
  let left ← parseUnary tokens
  let all ← parseMultiplicativeTail left.value left.rest
  return all.widen left.shorter
termination_by 9 * tokens.length + 3
decreasing_by
  · omega
  · have := left.shorter; omega

/-- Continues a product after its first factors. -/
def parseMultiplicativeTail (left : Expr) (tokens : List (Located Token)) :
    Except ParseError (Parsed Expr (tokens.length + 1)) :=
  match tokens with
  | [] => .ok ⟨left, [], by simp⟩
  | ⟨line, token⟩ :: rest =>
    match multiplicativeOp? token with
    | none => .ok ⟨left, ⟨line, token⟩ :: rest, by simp⟩
    | some op => do
      let right ← parseUnary rest
      let all ← parseMultiplicativeTail (.binary op left right.value line) right.rest
      return all.widen (by have := right.shorter; simp only [List.length_cons]; omega)
termination_by 9 * tokens.length + 4
decreasing_by
  · simp only [List.length_cons]; omega
  · have := right.shorter; simp only [List.length_cons]; omega

def parseUnary (tokens : List (Located Token)) :
    Except ParseError (Parsed Expr tokens.length) :=
  match tokens with
  | ⟨line, .minus⟩ :: rest => do
    let operand ← parseUnary rest
    return (operand.map (.negate · line)).widen (by simp)
  | tokens => parsePrimary tokens
termination_by 9 * tokens.length + 2
decreasing_by
  · simp only [List.length_cons]; omega
  · omega

def parsePrimary (tokens : List (Located Token)) :
    Except ParseError (Parsed Expr tokens.length) :=
  match tokens with
  | [] => .error unexpectedEnd
  | ⟨line, .integer value⟩ :: rest => .ok ⟨.literal (.integer value) line, rest, by simp⟩
  | ⟨line, .real value⟩ :: rest => .ok ⟨.literal (.real value) line, rest, by simp⟩
  | ⟨line, .text value⟩ :: rest => .ok ⟨.literal (.text value) line, rest, by simp⟩
  | ⟨line, .identifier name⟩ :: ⟨_, .openParen⟩ :: rest => do
    let arguments ← parseArguments rest
    return (arguments.map (.call name · line)).widen (by simp only [List.length_cons]; omega)
  | ⟨line, .identifier name⟩ :: rest => .ok ⟨.variable name line, rest, by simp⟩
  | ⟨line, .openParen⟩ :: rest => do
    let inner ← parseAdditive rest
    match _found : inner.rest with
    | ⟨_, .closeParen⟩ :: after =>
      return ⟨inner.value, after, by
        have := inner.shorter
        simp_all only [List.length_cons]
        omega⟩
    | _ => throw ⟨line, .expectedClosingParen⟩
  | ⟨line, .lineEnd⟩ :: _ => .error ⟨line, .unexpectedEnd⟩
  | ⟨line, token⟩ :: _ => .error ⟨line, .unexpectedToken token⟩
termination_by 9 * tokens.length + 1
decreasing_by all_goals simp only [List.length_cons]; omega

/-- Parses the arguments of a call after its opening parenthesis, up to the closing one. -/
def parseArguments (tokens : List (Located Token)) :
    Except ParseError (Parsed (List Expr) tokens.length) :=
  match tokens with
  | ⟨_, .closeParen⟩ :: rest => .ok ⟨[], rest, by simp⟩
  | tokens => parseArgumentList tokens
termination_by 9 * tokens.length + 8
decreasing_by omega

/-- Parses one argument and those after it. -/
def parseArgumentList (tokens : List (Located Token)) :
    Except ParseError (Parsed (List Expr) tokens.length) := do
  let first ← parseAdditive tokens
  match _found : first.rest with
  | ⟨_, .comma⟩ :: after =>
    let others ← parseArgumentList after
    return (others.map (first.value :: ·)).widen (by
      have := first.shorter
      simp_all only [List.length_cons]
      omega)
  | ⟨_, .closeParen⟩ :: after =>
    return ⟨[first.value], after, by
      have := first.shorter
      simp_all only [List.length_cons]
      omega⟩
  | ⟨line, .lineEnd⟩ :: _ => throw ⟨line, .unexpectedEnd⟩
  | ⟨line, token⟩ :: _ => throw ⟨line, .expectedCommaOrParen token⟩
  | [] => throw unexpectedEnd
termination_by 9 * tokens.length + 7
decreasing_by
  · omega
  · have := first.shorter
    simp_all only [List.length_cons]
    omega

end

/-- Requires that only line breaks are left. -/
def expectEnd : List (Located Token) → Except ParseError Unit
  | [] => .ok ()
  | ⟨_, .lineEnd⟩ :: rest => expectEnd rest
  | ⟨line, token⟩ :: _ => .error ⟨line, .trailingToken token⟩

/-- Parses an expression that takes up all tokens. -/
def parseWhole (tokens : List (Located Token)) : Except ParseError Expr := do
  let parsed ← parseAdditive tokens
  expectEnd parsed.rest
  return parsed.value

def isEquals : Token → Bool
  | .equals => true
  | _ => false

/-- Parses an assignment that takes up all tokens. -/
def parseAssignment (tokens : List (Located Token)) : Except ParseError Assignment :=
  match tokens with
  | ⟨line, .identifier name⟩ :: ⟨_, .equals⟩ :: rest => do
    let value ← parseWhole rest
    return { name, value, line }
  | tokens =>
    let line := tokens.head?.elim 0 (·.line)
    if tokens.any fun token => isEquals token.item then .error ⟨line, .invalidTarget⟩
    else .error ⟨line, .expectedAssignment⟩

/-! ## Parsing texts -/

/-- The tokens of a text that begins on `line`. -/
def tokensOf (source : String) (line : Nat) : Except ParseError (List (Located Token)) :=
  (tokenize source.toList line).mapError fun fault => ⟨fault.line, .token fault.item⟩

/-- Reads a text as an expression. -/
def read (source : String) (line : Nat) : Except ParseError Expr :=
  tokensOf source line >>= parseWhole

end Expr

/-- Reads a text as an assignment. -/
def Assignment.read (source : String) (line : Nat) : Except Expr.ParseError Assignment :=
  Expr.tokensOf source line >>= Expr.parseAssignment

end QubitScript
