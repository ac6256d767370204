import QubitScript.Located
import QubitScript.Number.Notation

/-!
# Tokens of expressions

The tokens of assembled expressions, and the tokenizer that cuts a text into them. At every place
the longest token is taken. A line break is a token too, and one more is added after the last token.
-/

namespace QubitScript.Expr

/-- The tokens. Blanks between tokens are skipped, so they never become an `ignored` one. -/
inductive Token
  | real (value : Float)
  | integer (value : Int64)
  | text (value : String)
  | identifier (name : String)
  | plus
  | minus
  | star
  | backslash
  | slash
  | equals
  | openParen
  | closeParen
  | comma
  | lineEnd
  | ignored
deriving Repr

/-- How a token is written in a text or in a message. -/
def Token.write : Token → String
  | real value => Number.write value
  | integer value => toString value.toInt
  | text value => "\"" ++ value ++ "\""
  | identifier name => name
  | plus => "+"
  | minus => "-"
  | star => "*"
  | backslash => "\\"
  | slash => "/"
  | equals => "="
  | openParen => "("
  | closeParen => ")"
  | comma => ","
  | lineEnd => "end of line"
  | ignored => ""

/-- Why a text cannot be cut into tokens. -/
inductive TokenFault
  | unexpected (text : String)
  | tooLarge (literal : String)
deriving DecidableEq, Repr

/-! ## Cutting a text -/

def isNameStart (c : Char) : Bool := c.isAlpha || c == '_'

def isNamePart (c : Char) : Bool := c.isAlphanum || c == '_'

/-- The blanks between tokens; line breaks are not among them. -/
def isGap (c : Char) : Bool := c == ' ' || c == '\t' || c == '\x0C' || c == '\r'

/-- A piece at the front of a text: a token, a blank, or what no token accepts. -/
inductive Piece
  | token (token : Token)
  | gap
  | fault (fault : TokenFault)

/-- The token of a run of digits, with a fraction when digits follow the point after it. -/
def numberPiece (text : List Char) : Piece × List Char :=
  let digits := text.takeWhile Char.isDigit
  let rest := text.dropWhile Char.isDigit
  let integer : Piece × List Char :=
    let value := Text.natOfDigits digits
    if value < 2 ^ 63 then (.token (.integer (.ofNat value)), rest)
    else (.fault (.tooLarge (String.ofList digits)), rest)
  match rest with
  | '.' :: after =>
    let fraction := after.takeWhile Char.isDigit
    if fraction.isEmpty then integer
    else (.token (.real (Number.realOfDigits digits fraction 0)), after.dropWhile Char.isDigit)
  | _ => integer

/-- The token of a text in quotes, given what follows the opening quote. Without a closing quote on
the line the whole rest of the line is refused. -/
def quotedPiece (text : List Char) : Piece × List Char :=
  let within (c : Char) : Bool := c != '"' && c != '\n'
  let body := String.ofList (text.takeWhile within)
  match text.dropWhile within with
  | '"' :: rest => (.token (.text body), rest)
  | rest => (.fault (.unexpected ("\"" ++ body)), rest)

/-- The token that a character is by itself. -/
def Token.single? : Char → Option Token
  | '+' => some .plus
  | '-' => some .minus
  | '*' => some .star
  | '\\' => some .backslash
  | '/' => some .slash
  | '=' => some .equals
  | '(' => some .openParen
  | ')' => some .closeParen
  | ',' => some .comma
  | '\n' => some .lineEnd
  | _ => none

/-- Cuts the piece off that begins with `c`. -/
def cut (c : Char) (rest : List Char) : Piece × List Char :=
  if isGap c then (.gap, rest)
  else if c == '"' then quotedPiece rest
  else if isNameStart c then
    (.token (.identifier (String.ofList (c :: rest.takeWhile isNamePart))),
      rest.dropWhile isNamePart)
  else if c.isDigit then numberPiece (c :: rest)
  else
    match Token.single? c with
    | some token => (.token token, rest)
    | none => (.fault (.unexpected c.toString), rest)

/-! Every piece takes at least one character. -/

theorem length_dropWhile_le (p : Char → Bool) (text : List Char) :
    (text.dropWhile p).length ≤ text.length :=
  (List.dropWhile_suffix p).length_le

theorem length_dropWhile_cons_lt {p : Char → Bool} {c : Char} (h : p c = true)
    (rest : List Char) : ((c :: rest).dropWhile p).length < (c :: rest).length := by
  have := length_dropWhile_le p rest
  simp only [List.dropWhile_cons, h, if_true, List.length_cons]
  omega

theorem length_quotedPiece_le (text : List Char) : (quotedPiece text).2.length ≤ text.length := by
  have := length_dropWhile_le (fun c => c != '"' && c != '\n') text
  unfold quotedPiece
  simp only
  split
  · simp_all
    omega
  · simp_all

theorem length_numberPiece_lt {c : Char} (h : c.isDigit = true) (rest : List Char) :
    (numberPiece (c :: rest)).2.length < (c :: rest).length := by
  have cut_lt := length_dropWhile_cons_lt h rest
  unfold numberPiece
  simp only
  split
  · rename_i after heq
    have := length_dropWhile_le Char.isDigit after
    rw [heq, List.length_cons] at cut_lt
    split
    · split <;> simp_all
    · simp only [List.length_cons] at *; omega
  · split <;> simpa using cut_lt

theorem length_cut_le (c : Char) (rest : List Char) : (cut c rest).2.length ≤ rest.length := by
  unfold cut
  split
  · exact Nat.le_refl _
  · split
    · exact length_quotedPiece_le rest
    · split
      · exact length_dropWhile_le isNamePart rest
      · split
        · rename_i h
          exact Nat.le_of_lt_succ (length_numberPiece_lt h rest)
        · split <;> exact Nat.le_refl _

/-- Cuts a text into tokens. A token carries the line that it ends on, so a line break carries the
line that it begins. -/
def tokenize (text : List Char) (line : Nat) :
    Except (Located TokenFault) (List (Located Token)) :=
  match text with
  | [] => .ok [⟨line, .lineEnd⟩]
  | c :: after =>
    match found : cut c after with
    | (.gap, rest) => tokenize rest line
    | (.fault fault, _) => .error ⟨line, fault⟩
    | (.token token, rest) =>
      let line := if c == '\n' then line + 1 else line
      (tokenize rest line).map (⟨line, token⟩ :: ·)
termination_by text.length
decreasing_by
  all_goals
    have := length_cut_le c after
    simp only [found, List.length_cons] at this ⊢
    omega

end QubitScript.Expr
