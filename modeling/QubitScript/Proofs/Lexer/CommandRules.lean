import QubitScript.Proofs.Lexer.Building
import QubitScript.Proofs.Lexer.Lexemes

/-!
# The command rules as they are read

The patterns that the reader makes of the command rules, and the sets of characters in them. A lexer
of the command notation chooses between these patterns, so what its tokens look like is told from
them.
-/

namespace QubitScript

open QubitScript.Text

/-! ## Sets of characters -/

theorem contains_range {low high c : Char} :
    (CharSet.range low high).contains c = true ↔ low.toNat ≤ c.toNat ∧ c.toNat ≤ high.toNat := by
  rw [CharSet.range, CharSet.contains_addRange]
  simp only [CharSet.contains, CharSet.empty, meets, Bool.or_false, decide_eq_true_eq]

theorem contains_single {c d : Char} : (CharSet.single c).contains d = true ↔ d = c := by
  rw [CharSet.single, contains_range]
  constructor
  · rintro ⟨hlow, hhigh⟩
    exact Char.toNat_inj.mp (by omega)
  · rintro rfl
    exact ⟨Nat.le_refl _, Nat.le_refl _⟩

/-- The letters of annotations. Two signs outside of ASCII are letters of it in another case. -/
def letterSet (caseSensitive : Bool) : CharSet :=
  let letters := (CharSet.range 'A' 'Z').union (.range 'a' 'z')
  if caseSensitive then letters
  else (letters.union (.single '\u017F')).union (.single '\u212A')

/-- The characters that a name can begin with. -/
def callStart (caseSensitive : Bool) : CharSet :=
  let letters := ((CharSet.range 'A' 'Z').union (.single '_')).union (.range 'a' 'z')
  if caseSensitive then letters
  else (letters.union (.single '\u017F')).union (.single '\u212A')

/-- What the parentheses of a call can hold besides parentheses. -/
def plainSet : CharSet := (((CharSet.single '(').union (.single ')')).union (.single '\n')).compl

def operatorSet : CharSet :=
  ((((CharSet.single '+').union (.single '-')).union (.single '\\')).union (.single '*')).union
    (.single '=')

def digitSet : CharSet := .range '0' '9'

/-- What a literal can hold. -/
def quotableSet : CharSet := ((CharSet.single '"').union (.single '\n')).compl

/-- Sets are compared by their ranges, not by going through the characters. -/
theorem contains_of_diff {set larger : CharSet} (h : set.diff larger = .empty) {c : Char}
    (hc : set.contains c = true) : larger.contains c = true := by
  have hnone : (set.diff larger).contains c = false := by
    rw [h]
    rfl
  rw [CharSet.contains_diff, hc, Bool.true_and, Bool.not_eq_false'] at hnone
  exact hnone

theorem contains_eq_false_of_inter {set other : CharSet} (h : set.inter other = .empty) {c : Char}
    (hc : set.contains c = true) : other.contains c = false := by
  have hnone : (set.inter other).contains c = false := by
    rw [h]
    rfl
  rwa [CharSet.contains_inter, hc, Bool.true_and] at hnone

/-- Without regard to case there are more characters, so these alone are compared with the words. -/
theorem isWord_of_callStart {caseSensitive : Bool} {c : Char}
    (h : (callStart caseSensitive).contains c = true) : isWord c = true := by
  have hall : (callStart false).contains c = true :=
    contains_of_diff (by cases caseSensitive <;> decide) h
  exact contains_of_diff (by decide +kernel : (callStart false).diff wordSet = .empty) hall

theorem callStart_of_letterSet {caseSensitive : Bool} {c : Char}
    (h : (letterSet caseSensitive).contains c = true) :
    (callStart caseSensitive).contains c = true :=
  contains_of_diff (by cases caseSensitive <;> decide) h

theorem isWord_of_letterSet {caseSensitive : Bool} {c : Char}
    (h : (letterSet caseSensitive).contains c = true) : isWord c = true :=
  isWord_of_callStart (callStart_of_letterSet h)

theorem isBlank_of_isWord {c : Char} (h : isWord c = true) : isBlank c = false :=
  contains_eq_false_of_inter (by decide +kernel : wordSet.inter blankSet = .empty) h

/-! ## Patterns -/

def annotationPattern (caseSensitive : Bool) : Pattern :=
  .alt none
    (.seq (.seq (.assert .lineStart) (.plus none true (.oneOfEach [letterSet caseSensitive])))
      (.oneOfEach [.single ':']))
    (.seq (.seq (.oneOfEach [.single ':']) (.plus none true (.oneOfEach [letterSet caseSensitive])))
      (.oneOfEach [.single ':']))

def callPattern (caseSensitive : Bool) : Pattern :=
  .seq (.seq (.seq (.seq (.oneOfEach [callStart caseSensitive])
      (.star none true (.oneOfEach [wordSet]))) (.oneOfEach [.single '(']))
    (.star none true (.alt none (.oneOfEach [plainSet])
      (.seq (.seq (.oneOfEach [.single '(']) (.star none true (.oneOfEach [plainSet])))
        (.oneOfEach [.single ')'])))))
    (.oneOfEach [.single ')'])

def namePattern (caseSensitive : Bool) : Pattern :=
  .seq (.oneOfEach [callStart caseSensitive]) (.star none true (.oneOfEach [wordSet]))

def digitsPattern : Pattern := .plus none true (.oneOfEach [digitSet])

def numberPattern : Pattern :=
  .seq digitsPattern (.upTo none true 1 (.seq (.oneOfEach [.single '.']) digitsPattern))

def literalPattern : Pattern :=
  .seq (.seq (.oneOfEach [.single '"']) (.star none true (.oneOfEach [quotableSet])))
    (.oneOfEach [.single '"'])

/-- The kinds of the command rules with their patterns. None of the patterns has groups. -/
def commandPatterns (caseSensitive : Bool) : List (String × Pattern) :=
  [(Kind.annotation, annotationPattern caseSensitive), (Kind.call, callPattern caseSensitive),
   (Kind.name, namePattern caseSensitive), (Kind.operator, .oneOfEach [operatorSet]),
   (Kind.number, numberPattern), (Kind.literal, literalPattern),
   (Kind.separator, .oneOfEach [.single ';'])]

theorem names_of_commandPatterns {caseSensitive : Bool} {kind : String} {pattern : Pattern}
    (h : (kind, pattern) ∈ commandPatterns caseSensitive) : pattern.names = [] := by
  simp only [commandPatterns, List.mem_cons, Prod.mk.injEq, List.not_mem_nil, or_false] at h
  rcases h with ⟨-, rfl⟩ | ⟨-, rfl⟩ | ⟨-, rfl⟩ | ⟨-, rfl⟩ | ⟨-, rfl⟩ | ⟨-, rfl⟩ | ⟨-, rfl⟩ <;> rfl

/-- No two rules have the same kind. -/
theorem lookup_commandPatterns {caseSensitive : Bool} {kind : String} {pattern : Pattern}
    (h : (kind, pattern) ∈ commandPatterns caseSensitive) :
    (commandPatterns caseSensitive).lookup kind = some pattern := by
  simp only [commandPatterns, List.mem_cons, Prod.mk.injEq, List.not_mem_nil, or_false] at h
  rcases h with ⟨rfl, rfl⟩ | ⟨rfl, rfl⟩ | ⟨rfl, rfl⟩ | ⟨rfl, rfl⟩ | ⟨rfl, rfl⟩ | ⟨rfl, rfl⟩ |
    ⟨rfl, rfl⟩ <;> rfl

/-! ## The reader -/

/-- The text of all command rules is read as the choice between their patterns. -/
theorem compile_commandRules (options : LexerOptions) :
    Pattern.engine.compile options.dialect (Lexer.source commandRules) =
      .ok ((Lexer.choiceOf (commandPatterns options.caseSensitive)).regex
        (commandRules.map (·.name))) := by
  have hread : ∀ caseSensitive : Bool,
      (Pattern.Written.read? ⟨true, !caseSensitive⟩ (Lexer.source commandRules)).map
        (fun written => (written.form.pattern, written.names)) =
          some (Lexer.choiceOf (commandPatterns caseSensitive), commandRules.map (·.name)) := by
    intro caseSensitive
    cases caseSensitive <;> decide +kernel
  exact Pattern.compile_of_read? (hread options.caseSensitive)

/-- None of the command rules has a fault. -/
theorem faultless_commandRules (options : LexerOptions) :
    Lexer.Faultless Pattern.engine options commandRules := by
  apply Lexer.faultless_of_isSome
  obtain ⟨caseSensitive, omitBlanks⟩ := options
  have hdialect : LexerOptions.dialect ⟨caseSensitive, omitBlanks⟩ =
      LexerOptions.dialect ⟨caseSensitive, true⟩ := rfl
  rw [Lexer.checkRules_congr hdialect]
  cases caseSensitive <;> decide +kernel

/-- What a lexer is built from, when it is built. -/
theorem Lexer.build_eq_ok {rules : List Rule} {options : LexerOptions} {lexer : Lexer}
    (h : build rules options = .ok lexer) :
    lexer.rules = rules ∧ lexer.options = options ∧
      Pattern.engine.compile options.dialect (source rules) = .ok lexer.pattern ∧
      Pattern.engine.compile options.dialect blankPattern = .ok lexer.blanks :=
  (buildWith_eq_ok.mp h).2.2

/-- The lexer of the command rules, with its patterns as they are read. -/
def commandLexer (options : LexerOptions) : Lexer where
  rules := commandRules
  pattern := (Lexer.choiceOf (commandPatterns options.caseSensitive)).regex
    (commandRules.map (·.name))
  blanks := (Pattern.star none true (.oneOfEach [blankSet])).regex []
  options

/-- The command rules make a lexer whatever the options, and this is the lexer. So what it does to a
text can be evaluated without reading the patterns again. -/
theorem build_commandRules (options : LexerOptions) :
    Lexer.build commandRules options = .ok (commandLexer options) :=
  Lexer.buildWith_eq_ok.mpr ⟨List.cons_ne_nil _ _, faultless_commandRules options, rfl, rfl,
    compile_commandRules options, Pattern.compile_blankPattern options.dialect⟩

/-- A lexer of the command rules chooses between their patterns. -/
theorem commandLexer_chooses {options : LexerOptions} {lexer : Lexer}
    (h : Lexer.build commandRules options = .ok lexer) :
    lexer.Chooses (commandPatterns options.caseSensitive) := by
  cases (build_commandRules options).symm.trans h
  exact ⟨⟨_, rfl⟩, List.cons_ne_nil _ _, fun entry hentry => names_of_commandPatterns hentry⟩

/-- The tokens that a text evaluates to, as a fact about any lexer that is built. -/
theorem exists_lexer_of_tokens (options : LexerOptions) (text : String) (tokens : List Token)
    (h : ((commandLexer options).tokenize text).toOption = some tokens) :
    ∃ lexer, Lexer.build commandRules options = .ok lexer ∧ lexer.tokenize text = .ok tokens := by
  refine ⟨commandLexer options, build_commandRules options, ?_⟩
  cases htokens : (commandLexer options).tokenize text with
  | error fault => simp [htokens, Except.toOption] at h
  | ok found => simpa [htokens, Except.toOption] using h

/-- The lexeme of a command token is taken by the pattern of its kind. -/
theorem takes_of_commandToken {options : LexerOptions} {lexer : Lexer}
    (hlexer : Lexer.build commandRules options = .ok lexer) {text : String} {tokens : List Token}
    (htokens : lexer.tokenize text = .ok tokens) {token : Token} (htoken : token ∈ tokens)
    {pattern : Pattern}
    (hpattern : (commandPatterns options.caseSensitive).lookup token.kind = some pattern) :
    pattern.Takes token.lexeme.toList := by
  obtain ⟨⟨kind, found⟩, hmem, hkind, htakes⟩ :=
    Lexer.takes_of_tokenize (commandLexer_chooses hlexer) htokens token htoken
  rw [hkind] at hpattern
  cases (lookup_commandPatterns hmem).symm.trans hpattern
  exact htakes

/-- The value of a command token is its lexeme, unless the token is a separator. -/
theorem value_of_commandToken {options : LexerOptions} {lexer : Lexer}
    (hlexer : Lexer.build commandRules options = .ok lexer) {text : String} {tokens : List Token}
    (htokens : lexer.tokenize text = .ok tokens) {token : Token} (htoken : token ∈ tokens)
    (hkind : token.kind ≠ Kind.separator) : token.value = some token.lexeme := by
  obtain ⟨hrules, -⟩ := Lexer.build_eq_ok hlexer
  obtain ⟨rule, hrule, after, hname, hvalue⟩ := Lexer.value_of_tokenize htokens token htoken
  rw [hvalue]
  rw [hname] at hkind
  rw [hrules] at hrule
  simp only [commandRules, List.mem_cons, List.not_mem_nil, or_false] at hrule
  rcases hrule with rfl | rfl | rfl | rfl | rfl | rfl | rfl
  case inr.inr.inr.inr.inr.inr => exact absurd rfl hkind
  all_goals rfl

end QubitScript
