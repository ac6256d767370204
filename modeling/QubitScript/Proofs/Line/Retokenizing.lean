import QubitScript.Proofs.Expr.Spaced
import QubitScript.Proofs.Line.Assembling

/-!
# Assembled lines cut into tokens of expressions

The text that a line without calls is put together to is cut anew. Term by term it gives the tokens
that the terms stand for, up to the first term that is refused. A number is refused when it is too
large, and a name when it has a character outside of ASCII, for names of expressions have none.
-/

namespace QubitScript

open QubitScript.Text

/-! ## What terms stand for -/

/-- The token of expressions that a term stands for. -/
inductive Token.ReadsAs (token : Token) : Expr.Token → Prop
  | name :
      token.kind = Kind.name → IsName token.lexeme.toList →
      (∀ c ∈ token.lexeme.toList, Expr.isNamePart c = true) →
      ReadsAs token (.identifier token.lexeme)
  | operator {c : Char} {sign : Expr.Token} :
      token.kind = Kind.operator → token.lexeme.toList = [c] → c ∈ ['+', '-', '\\', '*', '='] →
      Expr.Token.single? c = some sign → ReadsAs token sign
  | literal {body : List Char} :
      token.kind = Kind.literal → token.lexeme.toList = '"' :: (body ++ ['"']) →
      Expr.Quotable body → ReadsAs token (.text (String.ofList body))
  | integer :
      token.kind = Kind.number → IsDigits token.lexeme.toList →
      natOfDigits token.lexeme.toList < 2 ^ 63 →
      ReadsAs token (.integer (.ofNat (natOfDigits token.lexeme.toList)))
  | real {digits fraction : List Char} :
      token.kind = Kind.number → token.lexeme.toList = digits ++ '.' :: fraction →
      IsDigits digits → IsDigits fraction →
      ReadsAs token (.real (Number.realOfDigits digits fraction 0))

/-- Why a term stands for no token of expressions. -/
inductive Token.Refused (token : Token) : Expr.TokenFault → Prop
  | foreign {before after : List Char} {c : Char} :
      token.kind = Kind.name → IsName token.lexeme.toList →
      token.lexeme.toList = before ++ c :: after → (∀ d ∈ before, Expr.isNamePart d = true) →
      Expr.isNamePart c = false → Refused token (.unexpected c.toString)
  | tooLarge :
      token.kind = Kind.number → IsDigits token.lexeme.toList →
      2 ^ 63 ≤ natOfDigits token.lexeme.toList → Refused token (.tooLarge token.lexeme)

/-- The first character that fails a test, if not all of them pass. -/
theorem exists_first_not {p : Char → Bool} {text : List Char} (h : ¬ ∀ c ∈ text, p c = true) :
    ∃ before c after, text = before ++ c :: after ∧ (∀ d ∈ before, p d = true) ∧ p c = false := by
  match hfound : text.find? (!p ·) with
  | none => exact absurd (by simpa using hfound) h
  | some c =>
      obtain ⟨hc, before, after, rfl, hbefore⟩ := List.find?_eq_some_iff_append.mp hfound
      exact ⟨before, c, after, rfl, by simpa using hbefore, by simpa using hc⟩

/-- A term stands for a token or is refused. -/
theorem Token.IsTermText.readsAs_or_refused {token : Token} (h : token.IsTermText) :
    (∃ read, token.ReadsAs read) ∨ ∃ fault, token.Refused fault := by
  cases h with
  | name kind hname =>
      by_cases hall : ∀ c ∈ token.lexeme.toList, Expr.isNamePart c = true
      · exact .inl ⟨_, .name kind hname hall⟩
      · obtain ⟨before, c, after, htext, hbefore, hforeign⟩ := exists_first_not hall
        exact .inr ⟨_, .foreign kind hname htext hbefore hforeign⟩
  | operator kind hoperator =>
      obtain ⟨c, hc, htext⟩ := hoperator
      have hsigns : (['+', '-', '\\', '*', '='].all fun d => (Expr.Token.single? d).isSome) := by
        decide
      obtain ⟨sign, hsign⟩ := Option.isSome_iff_exists.mp (List.all_eq_true.mp hsigns c hc)
      exact .inl ⟨sign, .operator kind htext hc hsign⟩
  | number kind hnumber =>
      generalize htext : token.lexeme.toList = text at hnumber
      cases hnumber with
      | integer hdigits =>
          subst htext
          by_cases hsmall : natOfDigits token.lexeme.toList < 2 ^ 63
          · exact .inl ⟨_, .integer kind hdigits hsmall⟩
          · exact .inr ⟨_, .tooLarge kind hdigits (Nat.le_of_not_lt hsmall)⟩
      | decimal hdigits hfraction => exact .inl ⟨_, .real kind htext hdigits hfraction⟩
  | literal kind hliteral =>
      obtain ⟨body, htext, hbody⟩ := hliteral
      exact .inl ⟨_, .literal kind htext hbody⟩

/-! ## Terms cut off a text -/

namespace Expr

/-- A word character that goes into no name of an expression is refused alone. -/
theorem cut_foreign {c : Char} (hword : isWord c = true) (hforeign : isNamePart c = false)
    (rest : List Char) : cut c rest = (.fault (.unexpected c.toString), rest) := by
  have hgap : isGap c = false := by
    rw [← Bool.not_eq_true, isGap]
    simp only [Bool.or_eq_true, beq_iff_eq]
    rintro (((rfl | rfl) | rfl) | rfl) <;> exact absurd hword (by decide)
  have hquote : (c == '"') = false := by
    rw [beq_eq_false_iff_ne]
    rintro rfl
    exact absurd hword (by decide)
  have hstart : isNameStart c = false := by
    simp only [isNamePart, Char.isAlphanum, Bool.or_eq_false_iff] at hforeign
    simp [isNameStart, hforeign]
  have hsingle : Token.single? c = none := by
    unfold Token.single?
    split <;> first | rfl | exact absurd hword (by decide)
  simp only [cut, hgap, hquote, hstart, isDigit_of_isNamePart hforeign, hsingle, Bool.false_eq_true,
    if_false]

end Expr

/-! ## Terms one after another -/

namespace Token

open QubitScript.Expr

variable {token : Token} {after : List Char}

/-- A term is cut off as the token that it stands for. -/
theorem ReadsAs.cutOff {read : Expr.Token} (h : token.ReadsAs read) :
    CutOff token.lexeme.toList read := by
  cases h with
  | name _ hname hpart =>
      rw [← String.ofList_toList (s := token.lexeme)]
      generalize token.lexeme.toList = text at hname hpart
      cases text with
      | nil => exact absurd rfl hname.nonempty
      | cons c others =>
          obtain ⟨hc, hothers⟩ := List.forall_mem_cons.mp hpart
          rw [String.toList_ofList]
          exact .name (isNameStart_of_isNamePart hc (hname.head c rfl)) hothers
  | operator _ htext hc hsign =>
      rw [htext]
      exact .sign hsign fun hline => absurd hc (by rw [hline]; decide)
  | literal _ htext hbody =>
      rw [htext]
      exact .quoted hbody
  | integer _ hdigits hsmall => exact .integer hdigits hsmall
  | real _ htext hdigits hfraction =>
      rw [htext]
      exact .decimal hdigits hfraction

/-- A term that is refused ends the cutting. -/
theorem Refused.tokenize_append {fault : TokenFault} (h : token.Refused fault) (line : Nat)
    (hafter : ∀ d ∈ after.head?, isBreak d = true) :
    tokenize (token.lexeme.toList ++ after) line = .error ⟨line, fault⟩ := by
  cases h with
  | @foreign before rest c _ hname htext hbefore hforeign =>
      have hcword : isWord c = true := hname.word c (by simp [htext])
      have hfault : tokenize (c :: (rest ++ after)) line =
          .error ⟨line, .unexpected c.toString⟩ :=
        tokenize_fault (cut_foreign hcword hforeign _)
      rw [htext] at hname ⊢
      rw [List.append_assoc, List.cons_append]
      cases before with
      | nil => exact hfault
      | cons d before =>
          -- The part of the name before the character is a name for itself.
          obtain ⟨hd, hbefore⟩ := List.forall_mem_cons.mp hbefore
          have hhead : ∀ e ∈ (c :: (rest ++ after)).head?, isNamePart e = false := by
            rintro _ ⟨⟩
            exact hforeign
          have hpiece := cut_name (isNameStart_of_isNamePart hd (hname.head d rfl)) hbefore hhead
          rw [List.cons_append, tokenize_token hpiece (ne_newline_of_isNamePart hd), hfault]
          rfl
  | tooLarge _ hdigits hlarge =>
      have hpiece := numberPiece_digits hdigits
      rw [integerPiece, if_neg (Nat.not_lt.mpr hlarge), String.ofList_toList] at hpiece
      obtain ⟨c, others, htext, hline, hcut⟩ := cut_number (.integer hdigits) hpiece hafter
      rw [htext]
      exact tokenize_fault hcut

end Token

/-- The lexemes of terms with single spaces between them. -/
def joined (terms : List Token) : String := " ".intercalate (terms.map Token.lexeme)

/-- The first of the terms that is refused, and why it is. -/
inductive FirstRefused : (terms : List Token) → (refused : Token) → Expr.TokenFault → Prop
  | here {refused : Token} {terms : List Token} {fault : Expr.TokenFault} :
      refused.Refused fault → FirstRefused (refused :: terms) refused fault
  | later {term refused : Token} {terms : List Token} {read : Expr.Token}
      {fault : Expr.TokenFault} :
      term.ReadsAs read → FirstRefused terms refused fault →
      FirstRefused (term :: terms) refused fault

section Terms

variable {terms : List Token} {refused : Token} {fault : Expr.TokenFault}

theorem FirstRefused.mem (h : FirstRefused terms refused fault) : refused ∈ terms := by
  induction h with
  | here _ => exact List.mem_cons_self
  | later _ _ ih => exact List.mem_cons_of_mem _ ih

theorem FirstRefused.refusal (h : FirstRefused terms refused fault) : refused.Refused fault := by
  induction h with
  | here hrefused => exact hrefused
  | later _ _ ih => exact ih

theorem reads_or_firstRefused (h : ∀ term ∈ terms, term.IsTermText) :
    (∃ reads, List.Forall₂ Token.ReadsAs terms reads) ∨
      ∃ refused fault, FirstRefused terms refused fault := by
  induction terms with
  | nil => exact .inl ⟨[], .nil⟩
  | cons term terms ih =>
      obtain ⟨hterm, hterms⟩ := List.forall_mem_cons.mp h
      rcases hterm.readsAs_or_refused with ⟨read, hread⟩ | ⟨fault, hfault⟩
      · rcases ih hterms with ⟨reads, hreads⟩ | ⟨refused, fault, hfirst⟩
        · exact .inl ⟨read :: reads, .cons hread hreads⟩
        · exact .inr ⟨refused, fault, .later hread hfirst⟩
      · exact .inr ⟨term, fault, .here hfault⟩

theorem tokenize_of_reads {reads : List Expr.Token} (line : Nat)
    (h : List.Forall₂ Token.ReadsAs terms reads) :
    Expr.tokenize (joined terms).toList line = .ok (Expr.onLine line reads) := by
  refine Expr.tokenize_spaced line ?_
  rw [List.forall₂_map_left_iff]
  exact h.imp fun _ _ hread => hread.cutOff

theorem tokenize_of_firstRefused (line : Nat) (h : FirstRefused terms refused fault) :
    Expr.tokenize (joined terms).toList line = .error ⟨line, fault⟩ := by
  induction h with
  | @here refused terms _ hrefused =>
      obtain ⟨after, htext, hafter, -⟩ :=
        Expr.exists_after_spaced refused.lexeme (terms.map Token.lexeme) line
      rw [joined, List.map_cons, htext, hrefused.tokenize_append line hafter]
  | @later term _ terms _ _ hread _ ih =>
      obtain ⟨after, htext, hafter, hrest⟩ :=
        Expr.exists_after_spaced term.lexeme (terms.map Token.lexeme) line
      rw [joined, List.map_cons, htext, hread.cutOff line after hafter, hrest, ← joined, ih]
      rfl

end Terms

/-! ## Lines -/

/-- Each term stands for one token of what the text is cut into, unless a number is too large. -/
def ReadTermwise (terms : List Token) (line : Nat)
    (outcome : Except (Located Expr.TokenFault) (List (Located Expr.Token))) : Prop :=
  (∃ reads, List.Forall₂ Token.ReadsAs terms reads ∧ outcome = .ok (Expr.onLine line reads)) ∨
    ∃ term ∈ terms, term.kind = Kind.number ∧ outcome = .error ⟨line, .tooLarge term.lexeme⟩

/-- The text that a line without calls is put together to is cut into one token for every item of
the line, unless a number is too large or the first term that is refused is a name with a character
outside of ASCII. Then the text is refused at that character. -/
theorem tokenize_source_iff {options : LexerOptions} {lexer : Lexer} {text source : String}
    {tokens : List Token} {itemized : ItemizedLine}
    (hlexer : Lexer.build commandRules options = .ok lexer)
    (htokens : lexer.tokenize text = .ok tokens) (hcalls : ∀ token ∈ tokens, token.isCall = false)
    (hitems : ItemizedLine.ofTokens tokens = .ok itemized)
    (hsource : (Chain.build itemized.items).resolve itemized.handles = .ok source) (line : Nat) :
    let terms := tokens.filter Token.isKept
    let outcome := Expr.tokenize source.toList line
    (ReadTermwise terms line outcome ↔
      ∀ refused fault, FirstRefused terms refused fault → refused.kind ≠ Kind.name) ∧
    ∀ refused fault, FirstRefused terms refused fault → outcome = .error ⟨line, fault⟩ := by
  intro terms outcome
  have hterms : tokens.filter Token.isTerm = terms := filter_isTerm hcalls hitems
  have hsource : source = joined terms := by
    rw [joined, ← hterms]
    exact source_eq_intercalate hlexer htokens hcalls hitems hsource
  have htexts : ∀ term ∈ terms, term.IsTermText := by
    intro term hterm
    rw [← hterms] at hterm
    obtain ⟨htoken, hterm⟩ := List.mem_filter.mp hterm
    exact isTermText_of_tokenize hlexer htokens htoken hterm
  have hfirst : ∀ refused fault, FirstRefused terms refused fault →
      outcome = .error ⟨line, fault⟩ := by
    intro refused fault h
    rw [← tokenize_of_firstRefused line h, ← hsource]
  refine ⟨⟨fun hread refused fault h hname => ?_, fun hnone => ?_⟩, hfirst⟩
  -- The outcome for a name is a foreign character, which is none of those for terms that are read.
  · have houtcome := hfirst refused fault h
    cases h.refusal with
    | foreign _ _ _ _ _ =>
        rcases hread with ⟨_, _, hok⟩ | ⟨_, _, _, hlarge⟩
        · cases hok.symm.trans houtcome
        · cases hlarge.symm.trans houtcome
    | tooLarge hnumber _ _ =>
        rw [hname] at hnumber
        exact absurd hnumber (by decide)
  · rcases reads_or_firstRefused htexts with ⟨reads, hreads⟩ | ⟨refused, fault, h⟩
    · refine .inl ⟨reads, hreads, ?_⟩
      rw [← tokenize_of_reads line hreads, ← hsource]
    · refine .inr ⟨refused, h.mem, ?_⟩
      have hname := hnone refused fault h
      have houtcome := hfirst refused fault h
      cases h.refusal with
      | foreign kind _ _ _ _ => exact absurd kind hname
      | tooLarge hnumber _ _ => exact ⟨hnumber, houtcome⟩

/-- The letter `é` goes into names of the notation, but not into names of expressions. -/
theorem unexpected_of_accented_name : ∃ lexer, Lexer.build commandRules {} = .ok lexer ∧
    let text := "aé = 1"
    let tokens := [Token.plain Kind.name "aé", .plain Kind.operator "=", .plain Kind.number "1"]
    let itemized : ItemizedLine := ⟨[.name "aé", .operator "=", .value ⟨0⟩], ⟨["1"]⟩⟩
    lexer.tokenize text = .ok tokens ∧ (∀ token ∈ tokens, token.isCall = false) ∧
    ItemizedLine.ofTokens tokens = .ok itemized ∧
    (Chain.build itemized.items).resolve itemized.handles = .ok text ∧
    let terms := tokens.filter Token.isKept
    let outcome := Expr.tokenize text.toList 1
    (ReadTermwise terms 1 outcome ↔
      ∀ refused fault, FirstRefused terms refused fault → refused.kind ≠ Kind.name) ∧
    (∀ refused fault, FirstRefused terms refused fault → outcome = .error ⟨1, fault⟩) ∧
    outcome = .error ⟨1, .unexpected "é"⟩ := by
  obtain ⟨lexer, hlexer, htokens⟩ := exists_lexer_of_tokens {} "aé = 1"
    [Token.plain Kind.name "aé", .plain Kind.operator "=", .plain Kind.number "1"]
    (by decide +kernel)
  have hcalls : ∀ token ∈ [Token.plain Kind.name "aé", .plain Kind.operator "=",
      .plain Kind.number "1"], token.isCall = false := by decide
  have hread := tokenize_source_iff hlexer htokens hcalls rfl rfl 1
  have hname : IsName "aé".toList := by
    refine ⟨by decide, List.all_eq_true.mp (by decide), ?_⟩
    rintro _ ⟨⟩
    decide
  have hfirst : FirstRefused [Token.plain Kind.name "aé", .plain Kind.operator "=",
      .plain Kind.number "1"] (Token.plain Kind.name "aé") (.unexpected "é") :=
    .here (@Token.Refused.foreign _ ['a'] [] 'é' rfl hname rfl
      (List.forall_mem_singleton.mpr (by decide)) (by decide))
  exact ⟨lexer, hlexer, htokens, hcalls, rfl, rfl, hread.1, hread.2, hread.2 _ _ hfirst⟩

end QubitScript
