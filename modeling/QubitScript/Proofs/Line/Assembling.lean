import QubitScript.Proofs.Lexer.Terms
import QubitScript.Proofs.Line.Requests

/-!
# Lines assembled from terms

A line without calls is put together from the lexemes of its terms. Whether it is an assignment is
told from the text that comes out, in which an equals sign may stand as an operator or within a
literal.
-/

namespace QubitScript

open QubitScript.Text

/-! ## Operators of a line -/

namespace ItemizedLine

variable {text : String}

theorem operator_mem_add {line line' : ItemizedLine} {token : Token}
    (added : line.add token = .ok line') : .operator text ∈ line'.items ↔
      .operator text ∈ line.items ∨ token.kind = Kind.operator ∧ token.value = some text := by
  -- Only the last kind adds an operator, and a token has one kind.
  unfold add at added
  split at added
  · rename_i kind
    cases added
    rcases kind with kind | kind <;> simp [kind, Kind.annotation, Kind.separator, Kind.operator]
  split at added
  · rename_i kind
    obtain ⟨_, -, added⟩ := bind_eq_ok.mp added
    obtain ⟨_, -, added⟩ := bind_eq_ok.mp added
    cases pure_eq_ok.mp added
    simp [kind, Kind.call, Kind.operator]
  split at added
  · rename_i kind
    obtain ⟨_, -, added⟩ := bind_eq_ok.mp added
    cases pure_eq_ok.mp added
    rcases kind with kind | kind <;> simp [kind, Kind.literal, Kind.number, Kind.operator]
  split at added
  · rename_i kind
    obtain ⟨_, -, added⟩ := bind_eq_ok.mp added
    cases pure_eq_ok.mp added
    simp [kind, Kind.name, Kind.operator]
  split at added
  · rename_i kind
    obtain ⟨value, hvalue, added⟩ := bind_eq_ok.mp added
    cases pure_eq_ok.mp added
    simp [kind, Token.requireValue_eq_ok.mp hvalue, eq_comm]
  · cases added

theorem operator_mem_foldlM (tokens : List Token) : ∀ {line line' : ItemizedLine},
    tokens.foldlM add line = .ok line' → (.operator text ∈ line'.items ↔
      .operator text ∈ line.items ∨
        ∃ token ∈ tokens, token.kind = Kind.operator ∧ token.value = some text) := by
  induction tokens with
  | nil =>
      intro line line' added
      cases pure_eq_ok.mp added
      simp
  | cons token tokens ih =>
      intro line line' added
      rw [List.foldlM_cons] at added
      obtain ⟨next, first, added⟩ := bind_eq_ok.mp added
      rw [ih added, operator_mem_add first, or_assoc, List.exists_mem_cons_iff]

/-- The operators of a line are those of its operator tokens. -/
theorem operator_mem_ofTokens {tokens : List Token} {line : ItemizedLine}
    (h : ofTokens tokens = .ok line) : .operator text ∈ line.items ↔
      ∃ token ∈ tokens, token.kind = Kind.operator ∧ token.value = some text := by
  rw [operator_mem_foldlM tokens h]
  simp [empty]

end ItemizedLine

/-! ## The text of a line -/

theorem not_separator_of_isTerm {token : Token} (h : token.isTerm) :
    token.kind ≠ Kind.separator := by
  intro kind
  rw [Token.isTerm, kind] at h
  revert h
  decide

theorem terms_of_no_calls {table : HandleTable} {tokens : List Token} {items : List Item}
    (gives : List.Forall₂ (Token.Gives table) (tokens.filter Token.isKept) items)
    (hcalls : ∀ token ∈ tokens, token.isCall = false) : items.filterMap Item.call? = [] := by
  obtain ⟨sites, asks, resolve⟩ := calls_of_renders 0 gives
  rw [filter_kept (p := Token.isCall) fun _ => Token.isKept_of_isCall,
    List.filter_eq_nil_iff.mpr fun token htoken => by simp [hcalls token htoken]] at asks
  cases asks
  exact List.forall₂_nil_right_iff.mp resolve

section Assembled

variable {options : LexerOptions} {lexer : Lexer} {text source : String} {tokens : List Token}
  {itemized : ItemizedLine}

/-- The items of a line without calls are its terms. -/
theorem filter_isTerm (hcalls : ∀ token ∈ tokens, token.isCall = false)
    (hitems : ItemizedLine.ofTokens tokens = .ok itemized) :
    tokens.filter Token.isTerm = tokens.filter Token.isKept := by
  have gives : List.Forall₂ (Token.Gives itemized.handles) (tokens.filter Token.isKept)
      itemized.items := ItemizedLine.renders_ofTokens hitems
  obtain ⟨terms, -⟩ := sources_of_renders gives (terms_of_no_calls gives hcalls)
  rw [← filter_kept (fun _ => Token.isKept_of_isTerm), List.filter_eq_self]
  exact terms

/-- A line without calls that can be put together is the lexemes of its terms with single spaces
between them. -/
theorem source_eq_intercalate (hlexer : Lexer.build commandRules options = .ok lexer)
    (htokens : lexer.tokenize text = .ok tokens) (hcalls : ∀ token ∈ tokens, token.isCall = false)
    (hitems : ItemizedLine.ofTokens tokens = .ok itemized)
    (hsource : (Chain.build itemized.items).resolve itemized.handles = .ok source) :
    source = " ".intercalate ((tokens.filter Token.isTerm).map Token.lexeme) := by
  have gives : List.Forall₂ (Token.Gives itemized.handles) (tokens.filter Token.isKept)
      itemized.items := ItemizedLine.renders_ofTokens hitems
  obtain ⟨-, texts, values, sources⟩ :=
    sources_of_renders gives (terms_of_no_calls gives hcalls)
  rcases Chain.resolve_build itemized.items itemized.handles with ⟨index, detached⟩ | resolved
  · rw [detached] at hsource
    cases hsource
  · rw [sources] at resolved
    cases resolved.symm.trans hsource
    have hvalues : (tokens.filter Token.isTerm).map Token.value = texts.map some := by
      rw [← List.forall₂_eq_eq_eq, List.forall₂_map_left_iff, List.forall₂_map_right_iff,
        filter_isTerm hcalls hitems]
      exact values
    have hlexemes : (tokens.filter Token.isTerm).map Token.value =
        ((tokens.filter Token.isTerm).map Token.lexeme).map some := by
      rw [List.map_map]
      refine List.map_congr_left fun token htoken => ?_
      obtain ⟨htoken, hterm⟩ := List.mem_filter.mp htoken
      exact value_of_commandToken hlexer htokens htoken (not_separator_of_isTerm hterm)
    have hinjective : Function.Injective (some : String → Option String) :=
      fun _ _ h => Option.some.inj h
    rw [List.map_injective_iff.mpr hinjective (hlexemes.symm.trans hvalues)]

/-! ## Assignments -/

/-- An equals sign of a line: the operator, or one within a literal. -/
def HasEquals (items : List Item) (tokens : List Token) : Prop :=
  .operator "=" ∈ items ∨ ∃ token ∈ tokens, token.kind = Kind.literal ∧ '=' ∈ token.lexeme.toList

theorem mem_intercalate_blank {c : Char} (hc : c ≠ ' ') (texts : List String) :
    c ∈ (" ".intercalate texts).toList ↔ ∃ text ∈ texts, c ∈ text.toList := by
  rw [String.toList_intercalate]
  change c ∈ [' '].intercalate _ ↔ _
  induction texts with
  | nil => simp
  | cons text texts ih =>
      cases texts with
      | nil => simp
      | cons other others =>
          rw [List.map_cons, List.intercalate_cons_of_ne_nil (by simp), List.mem_append,
            List.mem_append, ih, List.mem_singleton, or_iff_left hc]
          simp only [List.mem_cons, exists_eq_or_imp]

theorem IsNumber.not_mem_equals {text : List Char} (h : IsNumber text) : '=' ∉ text := by
  have hdigits : ∀ {digits : List Char}, IsDigits digits → '=' ∉ digits := by
    intro digits hdigits hmem
    exact absurd (hdigits.2 _ hmem) (by decide)
  cases h with
  | integer digits => exact hdigits digits
  | decimal digits fraction =>
      simp only [List.mem_append, List.mem_cons, not_or]
      exact ⟨hdigits digits, by decide, hdigits fraction⟩

/-- Of the terms only operators and literals can have an equals sign. -/
theorem Token.IsTermText.mem_equals_iff {token : Token} (h : token.IsTermText) :
    '=' ∈ token.lexeme.toList ↔ token.kind = Kind.operator ∧ token.lexeme = "=" ∨
      token.kind = Kind.literal ∧ '=' ∈ token.lexeme.toList := by
  cases h with
  | name kind hname =>
      have hnot : '=' ∉ token.lexeme.toList := fun hmem =>
        absurd (hname.word _ hmem) (by decide)
      simp [kind, hnot, Kind.name, Kind.operator, Kind.literal]
  | operator kind hoperator =>
      obtain ⟨c, -, htext⟩ := hoperator
      have hlexeme : token.lexeme = "=" ↔ c = '=' := by
        rw [← String.toList_inj, htext]
        simp
      simp [kind, htext, hlexeme, Kind.operator, Kind.literal, eq_comm]
  | number kind hnumber =>
      simp [kind, hnumber.not_mem_equals, Kind.number, Kind.operator, Kind.literal]
  | literal kind _ => simp [kind, Kind.operator, Kind.literal]

theorem mem_source_iff (hlexer : Lexer.build commandRules options = .ok lexer)
    (htokens : lexer.tokenize text = .ok tokens) (hcalls : ∀ token ∈ tokens, token.isCall = false)
    (hitems : ItemizedLine.ofTokens tokens = .ok itemized)
    (hsource : (Chain.build itemized.items).resolve itemized.handles = .ok source) :
    '=' ∈ source.toList ↔ HasEquals itemized.items tokens := by
  rw [source_eq_intercalate hlexer htokens hcalls hitems hsource,
    mem_intercalate_blank (by decide), HasEquals, ItemizedLine.operator_mem_ofTokens hitems]
  constructor
  · rintro ⟨lexeme, hlexeme, hmem⟩
    obtain ⟨token, hterm, rfl⟩ := List.mem_map.mp hlexeme
    obtain ⟨htoken, hterm⟩ := List.mem_filter.mp hterm
    have hvalue := value_of_commandToken hlexer htokens htoken (not_separator_of_isTerm hterm)
    rcases (isTermText_of_tokenize hlexer htokens htoken hterm).mem_equals_iff.mp hmem with
      ⟨kind, hequals⟩ | ⟨kind, hequals⟩
    · exact .inl ⟨token, htoken, kind, hequals ▸ hvalue⟩
    · exact .inr ⟨token, htoken, kind, hequals⟩
  · have hterm : ∀ token ∈ tokens, token.isTerm → '=' ∈ token.lexeme.toList →
        ∃ lexeme ∈ (tokens.filter Token.isTerm).map Token.lexeme, '=' ∈ lexeme.toList :=
      fun token htoken hterm hmem =>
        ⟨_, List.mem_map_of_mem (List.mem_filter.mpr ⟨htoken, hterm⟩), hmem⟩
    rintro (⟨token, htoken, kind, hvalue⟩ | ⟨token, htoken, kind, hmem⟩)
    · have hlexeme := value_of_commandToken hlexer htokens htoken
        (by rw [kind]; decide)
      have hequals : token.lexeme = "=" := Option.some.inj (hlexeme.symm.trans hvalue)
      refine hterm token htoken (by simp [Token.isTerm, kind]) ?_
      rw [hequals]
      decide
    · exact hterm token htoken (by simp [Token.isTerm, kind]) hmem

/-- A line without calls asks for the assignment of what it is put together to when that has an
equals sign, as an operator or within a literal, and for its value otherwise. -/
theorem request_iff_hasEquals {σ : Type} (executor : Executor σ) {command : Command}
    (hlexer : Lexer.build commandRules options = .ok lexer)
    (htokens : lexer.tokenize text = .ok tokens) (hcalls : ∀ token ∈ tokens, token.isCall = false)
    (hitems : ItemizedLine.ofTokens tokens = .ok itemized)
    (hcommand : Command.classify itemized.items = some command)
    (hsource : (Chain.build itemized.items).resolve itemized.handles = .ok source) (line : Nat)
    (state : σ) :
    let log := ((command.run executor.traced itemized.handles line).run.run (state, [])).2.2
    (log = [.assign source line] ↔ HasEquals itemized.items tokens) ∧
      (log = [.evaluate source line] ↔ ¬ HasEquals itemized.items tokens) := by
  intro log
  have hplain : itemized.items.filterMap Item.call? = [] :=
    terms_of_no_calls (ItemizedLine.renders_ofTokens hitems) hcalls
  have hnonempty : itemized.items ≠ [] := by
    intro hempty
    rw [hempty] at hcommand
    cases hcommand
  cases (Command.classify_of_plain hnonempty hplain).symm.trans hcommand
  have hrun := Command.run_expression executor.traced hsource line (state, [])
  rw [← mem_source_iff hlexer htokens hcalls hitems hsource]
  by_cases hmem : '=' ∈ source.toList
  · rw [if_pos hmem] at hrun
    have hlog : log = [.assign source line] := congrArg (·.2.2) hrun
    simp [hlog, hmem]
  · rw [if_neg hmem] at hrun
    have hlog : log = [.evaluate source line] := congrArg (·.2.2) hrun
    simp [hlog, hmem]

end Assembled

/-- A name and a literal with an equals sign in it. The line is an assignment because of the
literal, while its only operator is a plus sign. -/
theorem request_of_literal_sum : ∃ lexer, Lexer.build commandRules {} = .ok lexer ∧
    let text := "s + \"a=b\""
    let tokens :=
      [Token.plain Kind.name "s", .plain Kind.operator "+", .plain Kind.literal "\"a=b\""]
    let itemized : ItemizedLine :=
      ⟨[.name "s", .operator "+", .value ⟨0⟩], ⟨["\"a=b\""]⟩⟩
    let command := Command.expression itemized.items
    lexer.tokenize text = .ok tokens ∧ (∀ token ∈ tokens, token.isCall = false) ∧
    ItemizedLine.ofTokens tokens = .ok itemized ∧
    Command.classify itemized.items = some command ∧
    (Chain.build itemized.items).resolve itemized.handles = .ok text ∧
    let log := ((command.run Machine.executor.traced itemized.handles 1).run.run
      (Machine.new, [])).2.2
    (log = [.assign text 1] ↔ HasEquals itemized.items tokens) ∧
      (log = [.evaluate text 1] ↔ ¬ HasEquals itemized.items tokens) := by
  obtain ⟨lexer, hlexer, htokens⟩ := exists_lexer_of_tokens {} "s + \"a=b\""
    [Token.plain Kind.name "s", .plain Kind.operator "+", .plain Kind.literal "\"a=b\""]
    (by decide +kernel)
  have hcalls : ∀ token ∈ [Token.plain Kind.name "s", .plain Kind.operator "+",
      .plain Kind.literal "\"a=b\""], token.isCall = false := by decide
  exact ⟨lexer, hlexer, htokens, hcalls, rfl, rfl, rfl,
    request_iff_hasEquals Machine.executor hlexer htokens hcalls rfl rfl rfl 1 Machine.new⟩

/-- A literal alone is taken for an assignment when it has an equals sign, though no operator
does. -/
theorem assignment_of_literal : ∃ lexer, Lexer.build commandRules {} = .ok lexer ∧
    let text := "\"a=b\""
    let itemized : ItemizedLine := ⟨[.value ⟨0⟩], ⟨[text]⟩⟩
    let command := Command.expression itemized.items
    lexer.tokenize text = .ok [Token.plain Kind.literal text] ∧
    ItemizedLine.ofTokens [Token.plain Kind.literal text] = .ok itemized ∧
    Command.classify itemized.items = some command ∧
    (Chain.build itemized.items).resolve itemized.handles = .ok text ∧
    .operator "=" ∉ itemized.items ∧
    ((command.run Machine.executor.traced itemized.handles 1).run.run (Machine.new, [])).2.2 =
      [.assign text 1] := by
  obtain ⟨lexer, hlexer, htokens⟩ := exists_lexer_of_tokens {} "\"a=b\""
    [Token.plain Kind.literal "\"a=b\""] (by decide +kernel)
  have hresolved : (Chain.build [.value ⟨0⟩]).resolve ⟨["\"a=b\""]⟩ = .ok "\"a=b\"" := rfl
  have hrun := Command.run_expression Machine.executor.traced hresolved 1 (Machine.new, [])
  rw [if_pos (by decide)] at hrun
  exact ⟨lexer, hlexer, htokens, rfl, rfl, hresolved, by decide, congrArg (·.2.2) hrun⟩

end QubitScript
