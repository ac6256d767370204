import QubitScript.Proofs.Line.Splitting
import QubitScript.Proofs.Session.Interpreting

/-!
# Lines that cannot become items

The tokens of the command notation have known kinds and all the values that items need, and what the
rule for calls takes has a name and balanced parentheses. So only one thing can be wrong with the
tokens of a line: an argument of a call that is nothing but blanks, while the parentheses hold more
than that.
-/

namespace QubitScript

open QubitScript.Text

/-- A call with several arguments, one of which is blank. -/
def HasBlankArgument (text : List Char) : Prop :=
  ∃ name inner pieces, CallText text name inner ∧ trim inner ≠ [] ∧ Parted inner pieces ∧
    ∃ piece ∈ pieces, trim piece = []

theorem splitCall_of_hasBlankArgument {text : String} (h : HasBlankArgument text.toList) :
    splitCall text = .error (.malformedCall text .emptyArgument) := by
  obtain ⟨name, inner, pieces, hcall, hinner, hpieces, hblank⟩ := h
  rw [splitCall, hcall.split, Call.splitArguments_parted hpieces hinner, if_pos hblank]
  rfl

theorem splitCall_of_callText {text : String} {name inner : List Char}
    (hcall : CallText text.toList name inner) (hblank : ¬ HasBlankArgument text.toList) :
    ∃ name arguments, splitCall text = .ok (name, arguments) := by
  obtain ⟨pieces, hpieces⟩ := parted_of_enclosed hcall.enclosed
  rw [splitCall, hcall.split]
  by_cases hinner : trim inner = []
  · rw [Call.splitArguments_blank hinner]
    exact ⟨_, _, rfl⟩
  · have hnone : ¬ ∃ piece ∈ pieces, trim piece = [] := fun h =>
      hblank ⟨name, inner, pieces, hcall, hinner, hpieces, h⟩
    rw [Call.splitArguments_parted hpieces hinner, if_neg hnone]
    exact ⟨_, _, rfl⟩

/-! ## Tokens of the command notation -/

namespace Token

/-- What the tokens of the command notation have in common. Those that are kept are calls or terms
and have their lexemes as values. -/
structure IsCommand (token : Token) : Prop where
  kind : token.isKept → token.isCall ∨ token.isTerm
  value : token.isKept → token.value = some token.lexeme
  call : token.isCall → ∃ name inner, CallText token.lexeme.toList name inner

/-- The token is a call that cannot be split, because an argument of it is blank. -/
def IsRefused (token : Token) : Prop := token.isCall ∧ HasBlankArgument token.lexeme.toList

end Token

theorem isCommand_of_tokenize {options : LexerOptions} {lexer : Lexer}
    (hlexer : Lexer.build commandRules options = .ok lexer) {text : String} {tokens : List Token}
    (htokens : lexer.tokenize text = .ok tokens) {token : Token} (htoken : token ∈ tokens) :
    token.IsCommand := by
  obtain ⟨rule, hrule, -, hkind, -⟩ := Lexer.value_of_tokenize htokens token htoken
  rw [(Lexer.build_eq_ok hlexer).1] at hrule
  refine ⟨fun hkept => ?_, fun hkept => ?_, fun hcall => ?_⟩
  · rw [Token.isKept, hkind] at hkept
    rw [Token.isCall, Token.isTerm, hkind]
    simp only [commandRules, List.mem_cons, List.not_mem_nil, or_false] at hrule
    rcases hrule with rfl | rfl | rfl | rfl | rfl | rfl | rfl <;> revert hkept <;> decide
  · refine value_of_commandToken hlexer htokens htoken fun hseparator => ?_
    rw [Token.isKept, hseparator] at hkept
    revert hkept
    decide
  · exact callText_of_tokenize hlexer htokens htoken (beq_iff_eq.mp hcall)

namespace ItemizedLine

variable {token : Token}

theorem add_of_isRefused (h : token.IsCommand) (hrefused : token.IsRefused) (line : ItemizedLine) :
    line.add token = .error (.malformedCall token.lexeme .emptyArgument) := by
  obtain ⟨hcall, hblank⟩ := hrefused
  have hkind : token.kind = Kind.call := beq_iff_eq.mp hcall
  have hkept : ¬ (Kind.call = Kind.annotation ∨ Kind.call = Kind.separator) := by decide
  rw [add, hkind, if_neg hkept, if_pos rfl,
    Token.requireValue_eq_ok.mpr (h.value (Token.isKept_of_isCall hcall))]
  change splitCall token.lexeme >>= _ = _
  rw [splitCall_of_hasBlankArgument hblank]
  rfl

theorem add_of_isCommand (h : token.IsCommand) (hrefused : ¬ token.IsRefused)
    (line : ItemizedLine) : ∃ line', line.add token = .ok line' := by
  by_cases hkept : token.isKept
  · have hvalue := Token.requireValue_eq_ok.mpr (h.value hkept)
    have hdropped : ¬ (token.kind = Kind.annotation ∨ token.kind = Kind.separator) := by
      simpa [Token.isKept, not_or] using hkept
    rw [add, if_neg hdropped, hvalue]
    rcases h.kind hkept with hcall | hterm
    · obtain ⟨name, inner, htext⟩ := h.call hcall
      obtain ⟨front, arguments, hsplit⟩ :=
        splitCall_of_callText htext fun hblank => hrefused ⟨hcall, hblank⟩
      rw [if_pos (beq_iff_eq.mp hcall)]
      change ∃ line', (splitCall token.lexeme >>= _) = _
      rw [hsplit]
      exact ⟨_, rfl⟩
    · rw [Token.isTerm, Bool.or_eq_true, Bool.or_eq_true, Bool.or_eq_true] at hterm
      simp only [beq_iff_eq] at hterm
      rcases hterm with ((hkind | hkind) | hkind) | hkind <;> rw [hkind] <;> exact ⟨_, rfl⟩
  · have hdropped : token.kind = Kind.annotation ∨ token.kind = Kind.separator := by
      simpa [Token.isKept, imp_iff_not_or] using hkept
    rw [add, if_pos hdropped]
    exact ⟨line, rfl⟩

/-- The items of a line are found unless a token is refused, and then the first such token is what
is wrong with the line. -/
theorem foldlM_add_cases {tokens : List Token} : ∀ line : ItemizedLine,
    (∀ token ∈ tokens, token.IsCommand) →
    ((∀ token ∈ tokens, ¬ token.IsRefused) ∧ ∃ line', tokens.foldlM add line = .ok line') ∨
    ∃ before token after, tokens = before ++ token :: after ∧
      (∀ earlier ∈ before, ¬ earlier.IsRefused) ∧ token.IsRefused ∧
      tokens.foldlM add line = .error (.malformedCall token.lexeme .emptyArgument) := by
  induction tokens with
  | nil => exact fun line _ => .inl ⟨nofun, line, rfl⟩
  | cons token tokens ih =>
      intro line hcommands
      obtain ⟨hcommand, hothers⟩ := List.forall_mem_cons.mp hcommands
      rw [List.foldlM_cons]
      -- What is refused depends on the token alone, not on the items before it.
      by_cases hrefused : token.IsRefused
      · rw [add_of_isRefused hcommand hrefused]
        exact .inr ⟨[], token, tokens, rfl, nofun, hrefused, rfl⟩
      · obtain ⟨next, hnext⟩ := add_of_isCommand hcommand hrefused line
        rw [hnext]
        rcases ih next hothers with ⟨hnone, hline⟩ | ⟨before, found, after, rfl, hnone, hfound,
          hline⟩
        · exact .inl ⟨List.forall_mem_cons.mpr ⟨hrefused, hnone⟩, hline⟩
        · exact .inr ⟨token :: before, found, after, rfl,
            List.forall_mem_cons.mpr ⟨hrefused, hnone⟩, hfound, hline⟩

end ItemizedLine

/-! ## Later stages -/

/-- The requests that the tokens of a line can lead to: the call of a token, and what the values of
tokens make when they are put together. -/
inductive Request.AskedBy (line : Nat) (tokens : List Token) : Request → Prop
  | assign {texts : List String} :
      (∀ text ∈ texts, ∃ token ∈ tokens, token.value = some text) →
      AskedBy line tokens (.assign (" ".intercalate texts) line)
  | evaluate {texts : List String} :
      (∀ text ∈ texts, ∃ token ∈ tokens, token.value = some text) →
      AskedBy line tokens (.evaluate (" ".intercalate texts) line)
  | call {token : Token} {site : CallSite} :
      token ∈ tokens → token.AsksFor line site → AskedBy line tokens (.call site)

/-- In some state the executor fails to do what it is asked for. -/
inductive Executor.FailsOn {σ : Type} (executor : Executor σ) (cause : ExecutionError) :
    Request → Prop
  | assign {source : String} {line : Nat} {state : σ} :
      ((executor.assign source line).run.run state).1 = .error cause →
      FailsOn executor cause (.assign source line)
  | evaluate {source : String} {line : Nat} {state : σ} :
      ((executor.evaluate source line).run.run state).1 = .error cause →
      FailsOn executor cause (.evaluate source line)
  | call {site : CallSite} {state : σ} :
      ((executor.call site).run.run state).1 = .error cause → FailsOn executor cause (.call site)

section Running

variable {σ : Type} {executor : Executor σ} {handles : HandleTable} {line : Nat} {error : LineError}

/-- Calls whose handles are known fail for reasons of the executor only. -/
theorem Command.error_of_runCalls {calls : List LineCall} {sites : List CallSite}
    (resolve : List.Forall₂ (LineCall.ResolvesTo handles line) calls sites) :
    ∀ state : σ, ((runCalls executor handles line calls).run.run state).1 = .error error →
    ∃ site ∈ sites, ∃ cause, error = .execution cause ∧ executor.FailsOn cause (.call site) := by
  induction resolve with
  | nil => exact fun _ => nofun
  | @cons call site calls sites resolves _ ih =>
      intro state h
      have first := run_runCall executor resolves state
      rcases hran : (executor.call site).run.run state with ⟨cause | value, between⟩
      · rw [hran] at first
        rw [runCalls, run_bind_of_error first] at h
        exact ⟨site, .head _, cause, (Except.error.inj h).symm, .call (congrArg Prod.fst hran)⟩
      · rw [hran] at first
        rw [runCalls, run_bind_of_ok first, run_bind_pure] at h
        obtain ⟨other, hother, hcause⟩ := ih between (map_eq_error.mp h)
        exact ⟨other, .tail _ hother, hcause⟩

/-- Items either are not connected with each other, or fail for reasons of the executor. -/
theorem Command.error_of_expression {items : List Item} {texts : List String}
    (sources : items.mapM (Item.source handles) = .ok texts) {state : σ}
    (h : (((expression items).run executor handles line).run.run state).1 = .error error) :
    (∃ index, error = .detachedItem index) ∨ ∃ cause, error = .execution cause ∧
      (executor.FailsOn cause (.assign (" ".intercalate texts) line) ∨
        executor.FailsOn cause (.evaluate (" ".intercalate texts) line)) := by
  rcases Chain.resolve_build items handles with ⟨index, detached⟩ | resolved
  · rw [run_expression_of_detached executor detached] at h
    exact .inl ⟨index, (Except.error.inj h).symm⟩
  · rw [sources] at resolved
    rw [run_expression executor resolved] at h
    refine .inr ?_
    split at h
    · rcases hran : (executor.assign _ line).run.run state with ⟨cause | binding, after⟩ <;>
        rw [hran] at h
      · exact ⟨cause, (Except.error.inj h).symm, .inl (.assign (congrArg Prod.fst hran))⟩
      · cases h
    · rcases hran : (executor.evaluate _ line).run.run state with ⟨cause | value, after⟩ <;>
        rw [hran] at h
      · exact ⟨cause, (Except.error.inj h).symm, .inr (.evaluate (congrArg Prod.fst hran))⟩
      · cases h

/-- The handles of a line are known whenever they are read, so its items fail for reasons of the
executor unless they are not connected. -/
theorem ItemizedLine.error_of_run {tokens : List Token} {itemized : ItemizedLine}
    (hitems : ofTokens tokens = .ok itemized) {state : σ}
    (h : ((itemized.run executor line).run.run state).1 = .error error) :
    (∃ index, error = .detachedItem index) ∨ ∃ cause request, error = .execution cause ∧
      request.AskedBy line tokens ∧ executor.FailsOn cause request := by
  have gives : List.Forall₂ (Token.Gives itemized.handles) (tokens.filter Token.isKept)
      itemized.items := renders_ofTokens hitems
  rw [run] at h
  by_cases hempty : itemized.items = []
  · rw [hempty] at h
    cases h
  cases found : itemized.items.filterMap Item.call? with
  | nil =>
      obtain ⟨-, texts, values, sources⟩ := sources_of_renders gives found
      have hvalues : ∀ text ∈ texts, ∃ token ∈ tokens, token.value = some text := by
        intro text htext
        obtain ⟨token, htoken, hvalue⟩ := exists_of_forall₂ values htext
        exact ⟨token, (List.mem_filter.mp htoken).1, hvalue⟩
      rw [Command.classify_of_plain hempty found] at h
      refine (Command.error_of_expression sources h).imp_right ?_
      rintro ⟨cause, hcause, hfails | hfails⟩
      · exact ⟨cause, _, hcause, .assign hvalues, hfails⟩
      · exact ⟨cause, _, hcause, .evaluate hvalues, hfails⟩
  | cons call calls =>
      obtain ⟨sites, asks, resolve⟩ := calls_of_renders line gives
      rw [found] at resolve
      rw [Command.classify_of_call found] at h
      dsimp only at h
      rw [Command.run_calls] at h
      obtain ⟨site, hsite, cause, hcause, hfails⟩ :=
        Command.error_of_runCalls resolve state (map_eq_error.mp h)
      obtain ⟨token, htoken, hasks⟩ := exists_of_forall₂ asks hsite
      have hmem := (List.mem_filter.mp (List.mem_filter.mp htoken).1).1
      exact .inr ⟨cause, _, hcause, .call hmem hasks, hfails⟩

/-- A line of the command notation that has been cut into tokens becomes items, unless an argument
of a call is blank while there are others; then the first such call is named. Once there are items,
all handles are known, whatever executor the session has. -/
theorem refusals_of_commandLine {options : LexerOptions} {session : Session σ}
    (hlexer : Lexer.build commandRules options = .ok session.lexer) {text : String}
    {tokens : List Token} (htokens : session.lexer.tokenize text = .ok tokens) :
    (((∀ token ∈ tokens, ¬ token.IsRefused) ∧
        ∃ itemized, ItemizedLine.ofTokens tokens = .ok itemized) ∨
      ∃ before token after, tokens = before ++ token :: after ∧
        (∀ earlier ∈ before, ¬ earlier.IsRefused) ∧ token.IsRefused ∧
        ItemizedLine.ofTokens tokens = .error (.malformedCall token.lexeme .emptyArgument)) ∧
    ∀ handle, (session.interpret text).1 ≠ .error (.unresolvedHandle handle) := by
  have hcommands : ∀ token ∈ tokens, token.IsCommand := fun token htoken =>
    isCommand_of_tokenize hlexer htokens htoken
  have hcases := ItemizedLine.foldlM_add_cases .empty hcommands
  refine ⟨hcases, fun handle hresult => ?_⟩
  -- Once there are items, a line fails where they are not connected, or in the executor.
  rcases hcases with ⟨-, itemized, hitems⟩ | ⟨-, token, -, -, -, -, herror⟩
  · rw [Session.interpret_of_items htokens hitems] at hresult
    have hran : ((itemized.run session.executor (session.lines + 1)).run.run session.state).1 =
      .error (.unresolvedHandle handle) := hresult
    rcases ItemizedLine.error_of_run hitems hran with ⟨_, h⟩ | ⟨_, _, h, -⟩ <;> cases h
  · rw [Session.interpret_of_itemFault htokens herror] at hresult
    cases hresult

/-- Of two calls with a blank argument the first one is named, and a call without arguments is none
of them. -/
theorem refusal_of_blank_argument : ∃ lexer,
    Lexer.build commandRules { caseSensitive := false } = .ok lexer ∧
    let session := Session.new lexer Machine.executor .new .default
    let text := "x() f((a, b), ) g(1,,2)"
    let tokens := ["x()", "f((a, b), )", "g(1,,2)"].map (Token.plain Kind.call)
    lexer.tokenize text = .ok tokens ∧
    ItemizedLine.ofTokens tokens = .error (.malformedCall "f((a, b), )" .emptyArgument) ∧
    (((∀ token ∈ tokens, ¬ token.IsRefused) ∧
        ∃ itemized, ItemizedLine.ofTokens tokens = .ok itemized) ∨
      ∃ before token after, tokens = before ++ token :: after ∧
        (∀ earlier ∈ before, ¬ earlier.IsRefused) ∧ token.IsRefused ∧
        ItemizedLine.ofTokens tokens = .error (.malformedCall token.lexeme .emptyArgument)) ∧
    ∀ handle, (session.interpret text).1 ≠ .error (.unresolvedHandle handle) := by
  obtain ⟨lexer, hlexer, htokens⟩ := exists_lexer_of_tokens { caseSensitive := false }
    "x() f((a, b), ) g(1,,2)" (["x()", "f((a, b), )", "g(1,,2)"].map (Token.plain Kind.call))
    (by decide +kernel)
  exact ⟨lexer, hlexer, htokens, rfl, @refusals_of_commandLine Machine _
    (.new lexer Machine.executor .new .default) hlexer _ _ htokens⟩

end Running

end QubitScript
