import QubitScript.Lexer.Scanner
import QubitScript.Proofs.Engine.Written
import QubitScript.Proofs.Running

/-!
# Lexemes belong to their rules

Where a lexer chooses between the groups of its rules, a match has passed the group of one rule, and
what it takes is taken by the pattern of that rule. So every lexeme of a scan is a text that the
pattern of its rule takes.
-/

namespace QubitScript

namespace Lexer

open Pattern

variable {lexer : Lexer}

/-! ## Steps and runs -/

/-- What a step does when it yields a token. -/
theorem next_eq_ok {scanner after : Scanner} {token : Token}
    (h : lexer.next scanner = (some (.ok token), after)) : ∃ rule span,
      lexer.match? (lexer.skipBlanks scanner) = some (rule, span) ∧
      after = (lexer.skipBlanks scanner).goTo span.stop ∧ token.kind = rule.name ∧
      token.lexeme = String.ofList (span.textIn (lexer.skipBlanks scanner).input) ∧
      token.value = rule.action after token.lexeme := by
  rw [next] at h
  split at h
  · cases h
  · simp only at h
    split at h
    · cases h
    · split at h
      · cases h
      next rule span hmatch =>
        cases h
        exact ⟨rule, span, hmatch, rfl, rfl, rfl, rfl⟩

theorem input_skipBlanks (lexer : Lexer) (scanner : Scanner) :
    (lexer.skipBlanks scanner).input = scanner.input := by
  rw [skipBlanks]
  split
  · split <;> rfl
  · rfl

/-- The input stays the same. -/
theorem input_next (lexer : Lexer) (scanner : Scanner) :
    (lexer.next scanner).2.input = scanner.input := by
  rw [next]
  split
  · rfl
  · rw [← lexer.input_skipBlanks scanner]
    dsimp only
    split
    · rfl
    · split <;> rfl

/-- What a step does when it yields a fault. -/
theorem next_eq_error {scanner after : Scanner} {fault : LexFault}
    (h : lexer.next scanner = (some (.error fault), after)) :
    fault.line = (lexer.skipBlanks scanner).line := by
  rw [next] at h
  split at h
  · cases h
  · simp only at h
    split at h
    · cases h
    · split at h
      · cases h
        rfl
      · cases h

theorem mem_rules_of_match? {scanner : Scanner} {rule : Rule} {span : Span}
    (h : lexer.match? scanner = some (rule, span)) : rule ∈ lexer.rules := by
  obtain ⟨found, -, h⟩ := Option.bind_eq_some_iff.mp h
  split at h
  · cases h
  · obtain ⟨other, hother, hspan⟩ := List.exists_of_findSome?_eq_some h
    obtain ⟨_, -, ⟨⟩⟩ := Option.map_eq_some_iff.mp hspan
    exact hother

/-- The action of its rule has made the value of a token from its lexeme. -/
theorem value_of_next {scanner after : Scanner} {token : Token}
    (h : lexer.next scanner = (some (.ok token), after)) : ∃ rule ∈ lexer.rules,
    token.kind = rule.name ∧ token.value = rule.action after token.lexeme := by
  obtain ⟨rule, span, hmatch, -, hkind, -, hvalue⟩ := next_eq_ok h
  exact ⟨rule, mem_rules_of_match? hmatch, hkind, hvalue⟩

/-- What holds of every token that a step yields holds of all tokens of a run, if the steps preserve
what they need of the scanner. -/
theorem run_induction {R : Scanner → Prop} {P : Token → Prop}
    (step : ∀ scanner token after, R scanner →
      lexer.next scanner = (some (.ok token), after) → P token ∧ R after) {fuel : Nat} :
    ∀ {scanner : Scanner}, R scanner →
    ∀ entry ∈ (lexer.run fuel scanner).tokens, P entry.1 := by
  induction fuel with
  | zero => exact fun _ _ => nofun
  | succ fuel ih =>
      intro scanner hready entry hentry
      rw [run] at hentry
      split at hentry
      · cases hentry
      · cases hentry
      next token after hnext =>
        obtain ⟨htoken, hafter⟩ := step scanner token after hready hnext
        rcases List.mem_cons.mp hentry with rfl | hentry
        · exact htoken
        · exact ih hafter entry hentry

theorem tokenize_induction {R : Scanner → Prop} {P : Token → Prop} {text : String}
    {tokens : List Token} (h : lexer.tokenize text = .ok tokens) (start : R (.start text))
    (step : ∀ scanner token after, R scanner →
      lexer.next scanner = (some (.ok token), after) → P token ∧ R after) :
    ∀ token ∈ tokens, P token := by
  intro token htoken
  rw [tokenize] at h
  split at h
  · cases h
  · cases h
    obtain ⟨entry, hentry, rfl⟩ := List.mem_map.mp htoken
    exact run_induction step start entry hentry

theorem value_of_tokenize {text : String} {tokens : List Token}
    (h : lexer.tokenize text = .ok tokens) : ∀ token ∈ tokens,
    ∃ rule ∈ lexer.rules, ∃ after,
      token.kind = rule.name ∧ token.value = rule.action after token.lexeme :=
  tokenize_induction h (R := fun _ => True) trivial fun _ _ after _ hnext =>
    have ⟨rule, hrule, hvalue⟩ := value_of_next hnext
    ⟨⟨rule, hrule, after, hvalue⟩, trivial⟩

/-! ## Choices between groups -/

/-- A choice between patterns, each in a group with a name. -/
def choiceOf (patterns : List (String × Pattern)) : Pattern :=
  .choice (patterns.map fun (name, pattern) => .group name pattern)

/-- A lexer that chooses between patterns without groups of their own, each in the group of a
rule. -/
structure Chooses (lexer : Lexer) (patterns : List (String × Pattern)) : Prop where
  pattern : ∃ names, lexer.pattern = (choiceOf patterns).regex names
  nonempty : patterns ≠ []
  plain : ∀ entry ∈ patterns, entry.2.names = []

theorem mem_ends_choiceOf {cursor stop : Cursor} {patterns : List (String × Pattern)} :
    patterns ≠ [] → stop ∈ (choiceOf patterns).ends [] cursor →
    ∃ entry ∈ patterns, stop ∈ (group entry.1 entry.2).ends [] cursor := by
  induction patterns with
  | nil => exact fun h => absurd rfl h
  | cons entry patterns ih =>
      intro _ h
      cases patterns with
      | nil => exact ⟨entry, .head _, h⟩
      | cons other others =>
          rcases List.mem_append.mp h with h | h
          · exact ⟨entry, .head _, h⟩
          · obtain ⟨found, hfound, h⟩ := ih nofun h
            exact ⟨found, .tail _ hfound, h⟩

variable {patterns : List (String × Pattern)} {text : List Char} {place : Nat}

/-- A match of a choice between patterns without groups takes a text of one of them, and that is
what its only group takes. -/
theorem parts_of_choiceOf {cursor stop : Cursor} (hpatterns : patterns ≠ [])
    (hplain : ∀ entry ∈ patterns, entry.2.names = []) (hcursor : cursor.groups = [])
    (h : (choiceOf patterns).matchAt? cursor = some stop) :
    ∃ entry ∈ patterns, ∃ taken, entry.2.Takes taken ∧ cursor.rest = taken ++ stop.rest ∧
      stop.groups = [⟨entry.1, cursor.rest.length, stop.rest.length⟩] := by
  obtain ⟨entry, hentry, hends⟩ := mem_ends_choiceOf hpatterns (List.mem_of_head? h)
  rw [ends] at hends
  obtain ⟨inner, hinner, rfl⟩ := List.mem_map.mp hends
  obtain ⟨taken, htakes, hmoves⟩ := reaches_of_mem_ends hinner
  have hgroups : inner.groups = [] := by
    refine List.eq_nil_iff_forall_not_mem.mpr fun capture hcapture => ?_
    rcases hmoves.groups capture hcapture with hpassed | hname
    · rw [hcursor] at hpassed
      cases hpassed
    · rw [hplain entry hentry] at hname
      cases hname
  exact ⟨entry, hentry, taken, htakes, hmoves.text, by rw [Cursor.pass, hgroups]⟩

/-- A match takes a text of one of the patterns, and that is what the group of its rule takes. -/
theorem found_of_chooses (chooses : lexer.Chooses patterns) (hplace : place ≤ text.length)
    {found : Found} (h : lexer.pattern.matchAt? text place = some found) :
    ∃ entry ∈ patterns, ∃ taken after, entry.2.Takes taken ∧ text.drop place = taken ++ after ∧
      found.whole = ⟨place, place + taken.length⟩ ∧ found.groups = [(entry.1, found.whole)] := by
  obtain ⟨names, hpattern⟩ := chooses.pattern
  rw [hpattern, regex_matchAt? hplace] at h
  obtain ⟨stop, hstop, rfl⟩ := Option.map_eq_some_iff.mp h
  obtain ⟨entry, hentry, taken, htakes, htext, hgroups⟩ :=
    parts_of_choiceOf chooses.nonempty chooses.plain groups_skip hstop
  have hrest : text.drop place = taken ++ stop.rest := by
    rw [← htext, Cursor.rest_skip]
    rfl
  have hlength := congrArg List.length hrest
  rw [List.length_drop, List.length_append] at hlength
  refine ⟨entry, hentry, taken, stop.rest, htakes, hrest, ?_, ?_⟩
  · simp only [Cursor.found, Span.ofLeft, Span.mk.injEq, Cursor.length_rest_start_skip]
    omega
  · simp only [Cursor.found, hgroups, List.map_cons, List.map_nil]

/-- The rule of a match is the one with the name of its only group. -/
theorem ruleOf?_eq_some {found : Found} {name : String} {rule : Rule} {span : Span}
    (hgroups : found.groups = [(name, found.whole)]) (h : lexer.ruleOf? found = some (rule, span)) :
    rule.name = name ∧ span = found.whole := by
  obtain ⟨other, -, hother⟩ := List.exists_of_findSome?_eq_some h
  obtain ⟨_, hgroup, ⟨⟩⟩ := Option.map_eq_some_iff.mp hother
  rw [Found.group?, hgroups, List.lookup_cons] at hgroup
  split at hgroup
  next hname =>
    cases hgroup
    exact ⟨beq_iff_eq.mp hname, rfl⟩
  next => cases hgroup

/-- What a rule takes begins at the cursor, is not empty, and is taken by its pattern. -/
theorem takes_of_match? (chooses : lexer.Chooses patterns) {scanner : Scanner} {rule : Rule}
    {span : Span} (h : lexer.match? scanner = some (rule, span)) :
    ∃ entry ∈ patterns, ∃ taken after, rule.name = entry.1 ∧ entry.2.Takes taken ∧ taken ≠ [] ∧
      scanner.input.drop scanner.place = taken ++ after ∧
      span = ⟨scanner.place, scanner.place + taken.length⟩ := by
  obtain ⟨found, hfound, h⟩ := Option.bind_eq_some_iff.mp h
  obtain ⟨entry, hentry, taken, after, htakes, hrest, hwhole, hgroups⟩ :=
    found_of_chooses chooses (Nat.sub_le _ _) hfound
  split at h
  · cases h
  next hempty =>
    obtain ⟨hname, rfl⟩ := ruleOf?_eq_some hgroups h
    refine ⟨entry, hentry, taken, after, hname, htakes, ?_, hrest, hwhole⟩
    rintro rfl
    rw [hwhole] at hempty
    exact hempty (beq_self_eq_true _)

theorem textIn_of_drop {taken after : List Char} (h : text.drop place = taken ++ after) :
    Span.textIn text ⟨place, place + taken.length⟩ = taken := by
  rw [Span.textIn, List.drop_take, Nat.add_sub_cancel_left, h, List.take_left]

/-- Every lexeme of a tokenized text is taken by the pattern of its rule. -/
theorem takes_of_tokenize (chooses : lexer.Chooses patterns) {text : String} {tokens : List Token}
    (h : lexer.tokenize text = .ok tokens) : ∀ token ∈ tokens,
    ∃ entry ∈ patterns, token.kind = entry.1 ∧ entry.2.Takes token.lexeme.toList := by
  refine tokenize_induction h (R := fun _ => True) trivial ?_
  intro scanner token after _ hnext
  obtain ⟨rule, span, hmatch, -, hkind, hlexeme, -⟩ := next_eq_ok hnext
  obtain ⟨entry, hentry, taken, after, hname, htakes, -, hrest, rfl⟩ :=
    takes_of_match? chooses hmatch
  refine ⟨⟨entry, hentry, hkind.trans hname, ?_⟩, trivial⟩
  rw [hlexeme, textIn_of_drop hrest, String.toList_ofList]
  exact htakes

end Lexer

end QubitScript
