import QubitScript.Expr.Token
import QubitScript.Proofs.Lexer.Calls
import QubitScript.Proofs.Line.Itemizing

/-!
# The texts of names, operators, numbers and literals

What the rules for single terms take. Letters and digits are those of ASCII, but a name goes on with
word characters of any script.
-/

namespace QubitScript

open QubitScript.Text

/-- A name: word characters, and no digit at the front. -/
structure IsName (text : List Char) : Prop where
  nonempty : text ≠ []
  word : ∀ c ∈ text, isWord c = true
  head : ∀ c ∈ text.head?, c.isDigit = false

/-- A run of digits. -/
def IsDigits (text : List Char) : Prop := text ≠ [] ∧ ∀ c ∈ text, c.isDigit = true

/-- A number: digits, and possibly a point with more digits. -/
inductive IsNumber : List Char → Prop
  | integer {digits : List Char} : IsDigits digits → IsNumber digits
  | decimal {digits fraction : List Char} :
      IsDigits digits → IsDigits fraction → IsNumber (digits ++ '.' :: fraction)

/-- A literal: a text without quotes and line breaks, in quotes. -/
def IsLiteral (text : List Char) : Prop :=
  ∃ body, text = '"' :: (body ++ ['"']) ∧ ∀ c ∈ body, c ≠ '"' ∧ c ≠ '\n'

/-- An operator is one sign. -/
def IsOperator (text : List Char) : Prop := ∃ c ∈ ['+', '-', '\\', '*', '='], text = [c]

theorem IsDigits.exists_head {digits : List Char} (h : IsDigits digits) :
    ∃ c others, digits = c :: others ∧ c.isDigit = true := by
  cases digits with
  | nil => exact absurd rfl h.1
  | cons c others => exact ⟨c, others, rfl, h.2 c List.mem_cons_self⟩

theorem IsNumber.exists_head {text : List Char} (h : IsNumber text) :
    ∃ c others, text = c :: others ∧ c.isDigit = true := by
  cases h with
  | integer hdigits => exact hdigits.exists_head
  | decimal hdigits _ =>
      obtain ⟨c, others, rfl, hc⟩ := hdigits.exists_head
      exact ⟨c, _, rfl, hc⟩

/-! ## Characters of the rules -/

theorem contains_digitSet {c : Char} : digitSet.contains c = true ↔ c.isDigit = true := by
  rw [digitSet, contains_range, Char.isDigit_iff_toNat]

theorem isWord_of_isDigit {c : Char} (h : c.isDigit = true) : isWord c = true :=
  contains_of_diff (by decide +kernel : digitSet.diff wordSet = .empty) (contains_digitSet.mpr h)

theorem isDigit_of_callStart {caseSensitive : Bool} {c : Char}
    (h : (callStart caseSensitive).contains c = true) : c.isDigit = false := by
  have hnone : digitSet.contains c = false :=
    contains_eq_false_of_inter (by cases caseSensitive <;> decide) h
  rw [← Bool.not_eq_true] at hnone ⊢
  exact mt contains_digitSet.mpr hnone

theorem contains_quotableSet {c : Char} (h : quotableSet.contains c = true) :
    c ≠ '"' ∧ c ≠ '\n' := by
  rw [quotableSet, CharSet.contains_compl, CharSet.contains_union] at h
  constructor <;> rintro rfl <;> simp [contains_single.mpr] at h

theorem contains_operatorSet {c : Char} (h : operatorSet.contains c = true) :
    c ∈ ['+', '-', '\\', '*', '='] := by
  simp only [operatorSet, CharSet.contains_union, Bool.or_eq_true, contains_single] at h
  simpa [or_assoc] using h

/-! ## The rules -/

namespace Pattern

theorem Takes.isName {caseSensitive : Bool} {text : List Char}
    (h : (namePattern caseSensitive).Takes text) : IsName text := by
  cases h with
  | seq hstart hothers =>
      obtain ⟨first, rfl, hfirst⟩ := hstart.eq_singleton
      refine ⟨nofun, fun c hc => ?_, ?_⟩
      · rcases List.mem_cons.mp hc with rfl | hc
        · exact isWord_of_callStart hfirst
        · exact hothers.forall_contains c hc
      · rintro _ ⟨⟩
        exact isDigit_of_callStart hfirst

theorem Takes.isDigits {text : List Char} (h : digitsPattern.Takes text) : IsDigits text := by
  cases h with
  | plus hfirst hothers =>
      obtain ⟨first, rfl, hdigit⟩ := hfirst.eq_singleton
      refine ⟨nofun, fun c hc => ?_⟩
      rcases List.mem_cons.mp hc with rfl | hc
      · exact contains_digitSet.mp hdigit
      · exact contains_digitSet.mp (hothers.forall_contains c hc)

theorem Takes.isNumber {text : List Char} (h : numberPattern.Takes text) : IsNumber text := by
  cases h with
  | seq hdigits hrest =>
      cases hrest with
      | upToDone =>
          rw [List.append_nil]
          exact .integer hdigits.isDigits
      | upToRound hround hdone =>
          cases hdone
          cases hround with
          | seq hpoint hfraction =>
              rw [hpoint.eq_of_single, List.append_nil]
              exact .decimal hdigits.isDigits hfraction.isDigits

theorem Takes.isLiteral {text : List Char} (h : literalPattern.Takes text) : IsLiteral text := by
  cases h with
  | seq hfront hclosing =>
      cases hfront with
      | @seq _ _ _ body hopening hbody =>
          refine ⟨body, ?_, fun c hc => contains_quotableSet (hbody.forall_contains c hc)⟩
          rw [hopening.eq_of_single, hclosing.eq_of_single]
          rfl

theorem Takes.isOperator {text : List Char} (h : (Pattern.oneOfEach [operatorSet]).Takes text) :
    IsOperator text := by
  obtain ⟨c, rfl, hc⟩ := h.eq_singleton
  exact ⟨c, contains_operatorSet hc, rfl⟩

end Pattern

/-! ## Terms of a line -/

/-- The lexeme of a term is what the kind of the term says. -/
inductive Token.IsTermText (token : Token) : Prop
  | name : token.kind = Kind.name → IsName token.lexeme.toList → IsTermText token
  | operator : token.kind = Kind.operator → IsOperator token.lexeme.toList → IsTermText token
  | number : token.kind = Kind.number → IsNumber token.lexeme.toList → IsTermText token
  | literal : token.kind = Kind.literal → IsLiteral token.lexeme.toList → IsTermText token

theorem isTermText_of_tokenize {options : LexerOptions} {lexer : Lexer}
    (hlexer : Lexer.build commandRules options = .ok lexer) {text : String} {tokens : List Token}
    (htokens : lexer.tokenize text = .ok tokens) {token : Token} (htoken : token ∈ tokens)
    (hterm : token.isTerm) : token.IsTermText := by
  have htakes : ∀ kind pattern, token.kind = kind →
      (commandPatterns options.caseSensitive).lookup kind = some pattern →
      pattern.Takes token.lexeme.toList := by
    rintro _ pattern rfl hpattern
    exact takes_of_commandToken hlexer htokens htoken hpattern
  simp only [Token.isTerm, Bool.or_eq_true, beq_iff_eq] at hterm
  rcases hterm with ((kind | kind) | kind) | kind
  · exact .name kind (htakes _ (namePattern options.caseSensitive) kind rfl).isName
  · exact .operator kind (htakes _ (.oneOfEach [operatorSet]) kind rfl).isOperator
  · exact .literal kind (htakes _ literalPattern kind rfl).isLiteral
  · exact .number kind (htakes _ numberPattern kind rfl).isNumber

end QubitScript
