import Mathlib.Data.List.Chain
import QubitScript.Expr.Parser

/-!
# The grammar of expressions

Which lists of tokens are expressions, and of which trees. The two levels of binary operators are
left recursive, which is what grouping to the left means: the last operator of a level is the
outermost. Nothing is said here about how a list is read.
-/

namespace QubitScript.Expr.Grammar

inductive AdditiveSign : Token → BinaryOp → Prop
  | plus : AdditiveSign .plus .add
  | minus : AdditiveSign .minus .sub

inductive MultiplicativeSign : Token → BinaryOp → Prop
  | star : MultiplicativeSign .star .mul
  | backslash : MultiplicativeSign .backslash .div
  | slash : MultiplicativeSign .slash .div

mutual

/-- `additive := multiplicative (("+" | "-") multiplicative)*` -/
inductive Additive : List (Located Token) → Expr → Prop
  | one {tokens : List (Located Token)} {expr : Expr} :
      Multiplicative tokens expr → Additive tokens expr
  | more {first second : List (Located Token)} {left right : Expr} {line : Nat} {sign : Token}
      {op : BinaryOp} :
      Additive first left → AdditiveSign sign op → Multiplicative second right →
      Additive (first ++ ⟨line, sign⟩ :: second) (.binary op left right line)

/-- `multiplicative := unary (("*" | "\" | "/") unary)*` -/
inductive Multiplicative : List (Located Token) → Expr → Prop
  | one {tokens : List (Located Token)} {expr : Expr} :
      Unary tokens expr → Multiplicative tokens expr
  | more {first second : List (Located Token)} {left right : Expr} {line : Nat} {sign : Token}
      {op : BinaryOp} :
      Multiplicative first left → MultiplicativeSign sign op → Unary second right →
      Multiplicative (first ++ ⟨line, sign⟩ :: second) (.binary op left right line)

/-- `unary := "-" unary | primary` -/
inductive Unary : List (Located Token) → Expr → Prop
  | negate {tokens : List (Located Token)} {operand : Expr} {line : Nat} :
      Unary tokens operand → Unary (⟨line, .minus⟩ :: tokens) (.negate operand line)
  | primary {tokens : List (Located Token)} {expr : Expr} :
      Primary tokens expr → Unary tokens expr

/-- `primary := number | text | NAME | NAME "(" arguments ")" | "(" additive ")"` -/
inductive Primary : List (Located Token) → Expr → Prop
  | integer {value : Int64} {line : Nat} :
      Primary [⟨line, .integer value⟩] (.literal (.integer value) line)
  | real {value : Float} {line : Nat} :
      Primary [⟨line, .real value⟩] (.literal (.real value) line)
  | text {value : String} {line : Nat} :
      Primary [⟨line, .text value⟩] (.literal (.text value) line)
  | name {name : String} {line : Nat} :
      Primary [⟨line, .identifier name⟩] (.variable name line)
  | call {tokens : List (Located Token)} {arguments : List Expr} {name : String}
      {line opening closing : Nat} :
      Arguments tokens arguments →
      Primary (⟨line, .identifier name⟩ :: ⟨opening, .openParen⟩ :: (tokens ++
        [⟨closing, .closeParen⟩])) (.call name arguments line)
  | group {tokens : List (Located Token)} {expr : Expr} {opening closing : Nat} :
      Additive tokens expr →
      Primary (⟨opening, .openParen⟩ :: (tokens ++ [⟨closing, .closeParen⟩])) expr

/-- `arguments := [additive ("," additive)*]` -/
inductive Arguments : List (Located Token) → List Expr → Prop
  | none : Arguments [] []
  | some {tokens : List (Located Token)} {exprs : List Expr} :
      ArgumentList tokens exprs → Arguments tokens exprs

inductive ArgumentList : List (Located Token) → List Expr → Prop
  | last {tokens : List (Located Token)} {expr : Expr} :
      Additive tokens expr → ArgumentList tokens [expr]
  | more {tokens others : List (Located Token)} {expr : Expr} {exprs : List Expr} {line : Nat} :
      Additive tokens expr → ArgumentList others exprs →
      ArgumentList (tokens ++ ⟨line, .comma⟩ :: others) (expr :: exprs)

end

/-- Line breaks and nothing else, at least one. -/
def Breaks (tokens : List (Located Token)) : Prop :=
  tokens ≠ [] ∧ ∀ token ∈ tokens, token.item = .lineEnd

/-- `additive NewLine+` -/
def Sentence (tokens : List (Located Token)) (expr : Expr) : Prop :=
  ∃ body breaks, tokens = body ++ breaks ∧ Additive body expr ∧ Breaks breaks

/-- `NAME "=" additive NewLine+` -/
def AssignmentSentence (tokens : List (Located Token)) (assignment : Assignment) : Prop :=
  ∃ line rest, tokens = ⟨assignment.line, .identifier assignment.name⟩ :: ⟨line, .equals⟩ :: rest ∧
    Sentence rest assignment.value

/-! ## The shape of sentences -/

/-- Tokens that an expression can begin with. -/
def begins : Token → Bool
  | .integer _ | .real _ | .text _ | .identifier _ | .openParen | .minus => true
  | _ => false

/-- Tokens that an expression can end with. -/
def ends : Token → Bool
  | .integer _ | .real _ | .text _ | .identifier _ | .closeParen => true
  | _ => false

/-- Tokens that stand within expressions. -/
def within : Token → Bool
  | .lineEnd | .equals => false
  | _ => true

/-- A comma has the end of an expression before it and the beginning of one after it. -/
def Adjacent (left right : Located Token) : Prop :=
  (right.item = .comma → ends left.item) ∧ (left.item = .comma → begins right.item)

theorem Adjacent.of_no_comma {left right : Located Token} (hleft : left.item ≠ .comma)
    (hright : right.item ≠ .comma) : Adjacent left right :=
  ⟨fun h => absurd h hright, fun h => absurd h hleft⟩

theorem ne_comma_of_begins {token : Token} (h : begins token) : token ≠ .comma := by
  rintro rfl
  cases h

theorem ne_comma_of_ends {token : Token} (h : ends token) : token ≠ .comma := by
  rintro rfl
  cases h

/-- What can be told of the tokens of an expression one by one and in pairs. -/
structure Shape (tokens : List (Located Token)) : Prop where
  begins : ∃ first, tokens.head? = some first ∧ begins first.item
  ends : ∃ last, tokens.getLast? = some last ∧ ends last.item
  within : ∀ token ∈ tokens, within token.item
  adjacent : tokens.IsChain Adjacent

namespace Shape

variable {tokens first second : List (Located Token)} {sign : Located Token}

theorem singleton {token : Located Token} (hbegins : Grammar.begins token.item)
    (hends : Grammar.ends token.item) (hwithin : Grammar.within token.item) : Shape [token] :=
  ⟨⟨token, rfl, hbegins⟩, ⟨token, rfl, hends⟩, by simpa using hwithin, .singleton _⟩

/-- Two expressions with a sign or a comma between them. -/
theorem append (left : Shape first) (right : Shape second) (hsign : Grammar.within sign.item) :
    Shape (first ++ sign :: second) := by
  obtain ⟨a, hfirst, ha⟩ := left.begins
  obtain ⟨b, hb, bends⟩ := left.ends
  obtain ⟨c, hc, cbegins⟩ := right.begins
  obtain ⟨d, hsecond, hd⟩ := right.ends
  refine ⟨⟨a, ?_, ha⟩, ⟨d, ?_, hd⟩, fun token htoken => ?_, ?_⟩
  · rw [List.head?_append, hfirst]
    rfl
  · rw [List.getLast?_append, List.getLast?_cons, hsecond]
    rfl
  · rcases List.mem_append.mp htoken with h | h
    · exact left.within token h
    · rcases List.mem_cons.mp h with rfl | h
      · exact hsign
      · exact right.within token h
  · refine List.isChain_append.mpr ⟨left.adjacent, List.isChain_cons.mpr ⟨?_, right.adjacent⟩, ?_⟩
    · intro y hy
      rw [hc, Option.mem_some_iff] at hy
      subst hy
      exact ⟨fun h => absurd h (ne_comma_of_begins cbegins), fun _ => cbegins⟩
    · intro x hx y hy
      rw [hb, Option.mem_some_iff] at hx
      subst hx
      exact ⟨fun _ => bends, fun h => absurd h (ne_comma_of_ends bends)⟩

/-- An expression with a sign before it. -/
theorem cons (right : Shape tokens) (hsign : Grammar.begins sign.item)
    (hwithin : Grammar.within sign.item) : Shape (sign :: tokens) := by
  obtain ⟨c, hc, cbegins⟩ := right.begins
  obtain ⟨d, hd, dends⟩ := right.ends
  refine ⟨⟨sign, rfl, hsign⟩, ⟨d, ?_, dends⟩, ?_, List.isChain_cons.mpr ⟨?_, right.adjacent⟩⟩
  · rw [List.getLast?_cons, hd]
    rfl
  · exact List.forall_mem_cons.mpr ⟨hwithin, right.within⟩
  · intro y hy
    rw [hc, Option.mem_some_iff] at hy
    subst hy
    exact .of_no_comma (ne_comma_of_begins hsign) (ne_comma_of_begins cbegins)

/-- An expression with a closing parenthesis after it. -/
theorem snoc (left : Shape tokens) {line : Nat} : Shape (tokens ++ [⟨line, .closeParen⟩]) := by
  obtain ⟨a, ha, abegins⟩ := left.begins
  obtain ⟨b, hb, bends⟩ := left.ends
  refine ⟨⟨a, ?_, abegins⟩, ⟨⟨line, .closeParen⟩, by simp, rfl⟩, ?_, List.isChain_append.mpr
    ⟨left.adjacent, .singleton _, ?_⟩⟩
  · rw [List.head?_append, ha]
    rfl
  · simpa [or_imp, forall_and] using ⟨left.within, rfl⟩
  · intro x hx y hy
    rw [hb, Option.mem_some_iff] at hx
    rw [List.head?_cons, Option.mem_some_iff] at hy
    subst hx hy
    exact .of_no_comma (ne_comma_of_ends bends) nofun

/-- A call without arguments. -/
theorem emptyCall {name : String} {line opening closing : Nat} :
    Shape [⟨line, .identifier name⟩, ⟨opening, .openParen⟩, ⟨closing, .closeParen⟩] := by
  refine ⟨⟨_, rfl, rfl⟩, ⟨_, rfl, rfl⟩, by simp [Grammar.within], ?_⟩
  simp [Adjacent]

end Shape

theorem within_of_additiveSign {sign : Token} {op : BinaryOp} (h : AdditiveSign sign op) :
    within sign := by
  cases h <;> rfl

theorem within_of_multiplicativeSign {sign : Token} {op : BinaryOp}
    (h : MultiplicativeSign sign op) : within sign := by
  cases h <;> rfl

mutual

theorem Additive.shape {tokens : List (Located Token)} {expr : Expr} :
    Additive tokens expr → Shape tokens
  | .one term => term.shape
  | .more first sign second => first.shape.append second.shape (within_of_additiveSign sign)

theorem Multiplicative.shape {tokens : List (Located Token)} {expr : Expr} :
    Multiplicative tokens expr → Shape tokens
  | .one factor => factor.shape
  | .more first sign second => first.shape.append second.shape (within_of_multiplicativeSign sign)

theorem Unary.shape {tokens : List (Located Token)} {expr : Expr} :
    Unary tokens expr → Shape tokens
  | .negate operand => operand.shape.cons rfl rfl
  | .primary primary => primary.shape

theorem Primary.shape {tokens : List (Located Token)} {expr : Expr} :
    Primary tokens expr → Shape tokens
  | .integer => .singleton rfl rfl rfl
  | .real => .singleton rfl rfl rfl
  | .text => .singleton rfl rfl rfl
  | .name => .singleton rfl rfl rfl
  | .call .none => .emptyCall
  | .call (.some list) => (list.shape.snoc.cons rfl rfl).cons rfl rfl
  | .group inner => inner.shape.snoc.cons rfl rfl

theorem ArgumentList.shape {tokens : List (Located Token)} {exprs : List Expr} :
    ArgumentList tokens exprs → Shape tokens
  | .last expr => expr.shape
  | .more expr others => expr.shape.append others.shape rfl

end

end QubitScript.Expr.Grammar
