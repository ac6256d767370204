import QubitScript.Proofs.Line.Refusals

/-!
# Texts without line breaks

The lexemes of a line have no line breaks in them. Neither have the values of its tokens, unless the
rules bring some in, nor the texts that are put together from them for the executor.
-/

namespace QubitScript

/-- The value of the token is on one line. -/
def Token.IsUnbroken (token : Token) : Prop := ∀ text, token.value = some text → '\n' ∉ text.toList

theorem not_mem_intercalate {c : Char} {separator : List Char} (hseparator : c ∉ separator)
    {texts : List (List Char)} : (∀ text ∈ texts, c ∉ text) → c ∉ separator.intercalate texts := by
  induction texts with
  | nil => exact fun _ => List.not_mem_nil
  | cons text texts ih =>
      intro h
      obtain ⟨htext, htexts⟩ := List.forall_mem_cons.mp h
      cases texts with
      | nil => rwa [List.intercalate_singleton]
      | cons other others =>
          rw [List.intercalate_cons_of_ne_nil (List.cons_ne_nil other others)]
          simp only [List.mem_append, not_or]
          exact ⟨⟨htext, hseparator⟩, ih htexts⟩

theorem Token.AsksFor.not_mem_newline {token : Token} {line : Nat} {site : CallSite}
    (h : token.AsksFor line site) (htoken : token.IsUnbroken) : '\n' ∉ site.source.toList := by
  obtain ⟨text, hvalue, hsplit, hsource, -⟩ := h
  have htext := htoken text hvalue
  obtain ⟨name, pieces, hcall, hname, hpieces⟩ := splitCall_eq_ok.mp hsplit
  have hparts := @Call.mem_of_split _ '\n' _ _ hcall
  have harguments : '\n' ∉ [','].intercalate pieces :=
    not_mem_intercalate (by decide) fun piece hpiece hc => htext (hparts.2 piece hpiece hc)
  have hassembled := Call.toList_assemble name pieces
  rw [hname, hpieces, Call.assemble, ← hsource] at hassembled
  rw [hassembled]
  simp only [List.mem_append, List.mem_cons, List.not_mem_nil, or_false, not_or]
  exact ⟨fun hc => htext (hparts.1 hc), by decide, harguments, by decide⟩

/-- The text that a request is about. -/
def Request.source : Request → String
  | assign source _ => source
  | evaluate source _ => source
  | call site => site.source

/-- The line that a request comes from. -/
def Request.line : Request → Nat
  | assign _ line => line
  | evaluate _ line => line
  | call site => site.line

theorem Request.AskedBy.line_eq {line : Nat} {tokens : List Token} {request : Request}
    (h : request.AskedBy line tokens) : request.line = line := by
  cases h with
  | assign | evaluate => rfl
  | call _ hasks =>
      obtain ⟨_, -, -, -, hline⟩ := hasks
      exact hline

theorem Request.AskedBy.not_mem_newline {line : Nat} {tokens : List Token} {request : Request}
    (h : request.AskedBy line tokens) (htokens : ∀ token ∈ tokens, token.IsUnbroken) :
    '\n' ∉ request.source.toList := by
  have joined : ∀ {texts : List String},
      (∀ text ∈ texts, ∃ token ∈ tokens, token.value = some text) →
      '\n' ∉ (" ".intercalate texts).toList := by
    intro texts htexts
    rw [String.toList_intercalate]
    refine not_mem_intercalate (by decide) fun text htext => ?_
    obtain ⟨source, hsource, rfl⟩ := List.mem_map.mp htext
    obtain ⟨token, htoken, hvalue⟩ := htexts source hsource
    exact htokens token htoken source hvalue
  cases h with
  | assign htexts => exact joined htexts
  | evaluate htexts => exact joined htexts
  | call htoken hasks => exact hasks.not_mem_newline (htokens _ htoken)

/-! ## Tokens of one line -/

/-- The values that the rule makes on a line have no line breaks of their own. -/
def Rule.KeepsLine (rule : Rule) : Prop := ∀ (after : Scanner) (lexeme text : String),
  rule.action after lexeme = some text → '\n' ∉ lexeme.toList → '\n' ∉ after.input →
    '\n' ∉ text.toList

theorem keepsLine_of_mem_commandRules {rule : Rule} (h : rule ∈ commandRules) : rule.KeepsLine := by
  intro after lexeme text haction hlexeme _
  simp only [commandRules, List.mem_cons, List.not_mem_nil, or_false] at h
  rcases h with rfl | rfl | rfl | rfl | rfl | rfl | rfl <;> cases haction <;> exact hlexeme

namespace Lexer

variable {lexer : Lexer} {text : String}

theorem keepsLine_of_build {options : LexerOptions} (h : build commandRules options = .ok lexer) :
    ∀ rule ∈ lexer.rules, rule.KeepsLine := by
  rw [(build_eq_ok h).1]
  exact fun rule hrule => keepsLine_of_mem_commandRules hrule

theorem not_mem_textIn {c : Char} {text : List Char} (h : c ∉ text) (span : Span) :
    c ∉ span.textIn text :=
  fun hc => h (List.mem_of_mem_take (List.mem_of_mem_drop hc))

theorem isUnbroken_of_tokenize (hrules : ∀ rule ∈ lexer.rules, rule.KeepsLine)
    (hline : '\n' ∉ text.toList) {tokens : List Token} (h : lexer.tokenize text = .ok tokens) :
    ∀ token ∈ tokens, token.IsUnbroken := by
  refine tokenize_induction h (R := fun scanner => scanner.input = text.toList) rfl ?_
  intro scanner token after hinput hnext
  obtain ⟨rule, span, hmatch, hafter, -, hlexeme, hvalue⟩ := next_eq_ok hnext
  have hkept : after.input = text.toList := by
    have hsame := lexer.input_next scanner
    rwa [hnext, hinput] at hsame
  refine ⟨fun value htext => ?_, hkept⟩
  refine hrules rule (mem_rules_of_match? hmatch) after token.lexeme value (hvalue.symm.trans htext)
    ?_ (hkept ▸ hline)
  rw [hlexeme, String.toList_ofList, lexer.input_skipBlanks, hinput]
  exact not_mem_textIn hline span

/-- On one line there is only the first line. -/
theorem line_of_run {fuel : Nat} {fault : LexFault} : ∀ {scanner : Scanner},
    '\n' ∉ scanner.input → (lexer.run fuel scanner).fault = some fault → fault.line = 1 := by
  induction fuel with
  | zero => exact fun _ => nofun
  | succ fuel ih =>
      intro scanner hline hfault
      have hsame := lexer.input_next scanner
      rw [run] at hfault
      rcases hnext : lexer.next scanner with ⟨_ | found | token, after⟩ <;>
        rw [hnext] at hfault hsame
      · cases hfault
      · cases hfault
        rw [next_eq_error hnext, Scanner.line, lexer.input_skipBlanks]
        exact congrArg (· + 1) (List.count_eq_zero.mpr fun hc => hline (List.mem_of_mem_take hc))
      · exact ih (hsame ▸ hline) hfault

theorem line_of_tokenize (hline : '\n' ∉ text.toList) {fault : LexFault}
    (h : lexer.tokenize text = .error fault) : fault.line = 1 := by
  rw [tokenize] at h
  split at h
  next found hfound =>
    cases h
    exact line_of_run hline hfound
  next => cases h

end Lexer

end QubitScript
