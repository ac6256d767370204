import Mathlib.Data.List.TakeWhile
import QubitScript.Proofs.Lexer.CommandRules
import QubitScript.Proofs.Lexer.FirstRule
import QubitScript.Proofs.Session.Interpreting

/-!
# Scans leave nothing out

What a scanner has passed is the lexemes of its tokens with gaps of blanks between them. Every
lexeme has a character at least, so a scan comes to the end of its input or to a character that no
rule accepts, and it stays there. All this asks of a lexer is that it skips blanks as many as there
are, and that a rule takes a piece of the text that begins at the cursor and is not empty.
-/

namespace QubitScript

/-- A scanner that has passed the first characters of its input. -/
structure Scanner.Passed (text passed : List Char) (scanner : Scanner) : Prop where
  input : scanner.input = text
  split : text = passed ++ scanner.cursor.rest
  cursor : scanner.cursor = (Cursor.start text).skip passed.length

/-- Going on by some characters skips them. -/
theorem Scanner.goTo_add (scanner : Scanner) (count : Nat) :
    scanner.goTo (scanner.place + count) = scanner.moveTo (scanner.cursor.skip count) := by
  rw [goTo, Nat.add_sub_cancel_left]

namespace Scanner.Passed

variable {text passed : List Char} {scanner : Scanner}

theorem start (text : String) : (Scanner.start text).Passed text.toList [] := ⟨rfl, rfl, rfl⟩

theorem position_eq (h : scanner.Passed text passed) : scanner.position = byteLength passed := by
  have hrest : (Cursor.start text).rest = passed ++ scanner.cursor.rest := h.split
  rw [position, h.cursor, Cursor.offset_skip hrest, Cursor.start, Nat.zero_add]

theorem place_eq (h : scanner.Passed text passed) : scanner.place = passed.length := by
  rw [place, h.input, h.split, List.length_append, Nat.add_sub_cancel]

theorem line_eq (h : scanner.Passed text passed) : scanner.line = passed.count '\n' + 1 := by
  rw [line, h.place_eq, h.input, h.split, List.take_left]

theorem drop_place (h : scanner.Passed text passed) :
    scanner.input.drop scanner.place = scanner.cursor.rest := by
  rw [h.place_eq, h.input, h.split, List.drop_left]

theorem goTo (h : scanner.Passed text passed) {taken after : List Char}
    (hrest : scanner.cursor.rest = taken ++ after) :
    (scanner.goTo (scanner.place + taken.length)).Passed text (passed ++ taken) := by
  rw [goTo_add]
  refine ⟨h.input, ?_, ?_⟩
  · rw [moveTo, Cursor.rest_skip_append hrest, List.append_assoc, ← hrest]
    exact h.split
  · rw [moveTo, h.cursor, Cursor.skip_add, List.length_append]

end Scanner.Passed

namespace Lexer

/-- A piece of text that a lexer skips. -/
structure IsGap (lexer : Lexer) (gap : List Char) : Prop where
  blank : ∀ c ∈ gap, Text.isBlank c = true
  omitted : lexer.options.omitBlanks = false → gap = []

/-- A text that the lexemes of tokens make up, with a gap before each of them and one after the
last. No lexeme is empty. -/
inductive Covers (lexer : Lexer) : List Token → List Char → Prop
  | gap {gap : List Char} : lexer.IsGap gap → Covers lexer [] gap
  | token {gap text : List Char} {token : Token} {tokens : List Token} :
      lexer.IsGap gap → token.lexeme.toList ≠ [] → Covers lexer tokens text →
      Covers lexer (token :: tokens) (gap ++ token.lexeme.toList ++ text)

/-- A lexer that skips the blanks that come next, and whose rules take something at the cursor. -/
structure MovesOn (lexer : Lexer) : Prop where
  blanks : ∀ {text : List Char} {place : Nat}, place ≤ text.length →
    (lexer.blanks.matchAt? text place).map (·.whole) = some (blanksAt text place)
  lexeme : ∀ {scanner : Scanner} {rule : Rule} {span : Span},
    lexer.match? scanner = some (rule, span) →
    span.start = scanner.place ∧ span.start < span.stop ∧ span.stop ≤ scanner.input.length

variable {lexer : Lexer}

theorem IsGap.nil : lexer.IsGap [] := ⟨fun _ => nofun, fun _ => rfl⟩

/-! ## Lexers that move on -/

/-- A lexer moves on when every pattern of its table stands for itself. -/
theorem movesOn_of_build {engine : Engine} (laws : engine.LeftmostFirst) {rules : List Rule}
    {options : LexerOptions} (h : buildWith engine rules options = .ok lexer)
    (hclosed : ∀ rule ∈ rules, engine.SelfContained options.dialect rule.pattern) :
    lexer.MovesOn where
  blanks := laws.blanks (buildWith_eq_ok.mp h).2.2.2.2.2
  lexeme {scanner rule span} hmatch := by
    have hplace := scanner.place_le
    rw [match?_eq_tryRules? laws h hclosed] at hmatch
    obtain ⟨⟨first, found⟩, hfirst, htaken⟩ := Option.bind_eq_some_iff.mp hmatch
    obtain ⟨-, hfound⟩ := mem_of_firstMatch? hfirst
    obtain ⟨regex, hregex, hfound⟩ := Option.bind_eq_some_iff.mp hfound
    obtain ⟨hsearch, hstart⟩ := Regex.matchAt?_eq_some.mp hfound
    obtain ⟨-, hle, hstop⟩ := (laws.wellFormed (Rule.regex?_eq_some.mp hregex)).span hplace hsearch
    dsimp only at htaken
    split at htaken
    · cases htaken
    next hempty =>
      cases htaken
      rw [Span.isEmpty, beq_iff_eq] at hempty
      exact ⟨hstart, by omega, hstop⟩

/-- So does a lexer of the command rules. -/
theorem movesOn_of_commandLexer {options : LexerOptions}
    (h : build commandRules options = .ok lexer) :
    lexer.MovesOn where
  blanks := Pattern.engine_leftmostFirst.blanks (build_eq_ok h).2.2.2
  lexeme {scanner rule span} hmatch := by
    obtain ⟨_, -, taken, after, -, -, htaken, hrest, rfl⟩ :=
      takes_of_match? (commandLexer_chooses h) hmatch
    have hlength := congrArg List.length hrest
    have := List.length_pos_iff.mpr htaken
    rw [List.length_drop, List.length_append] at hlength
    refine ⟨rfl, ?_, ?_⟩
    · dsimp only
      omega
    · dsimp only
      omega

/-! ## One step -/

section Steps

variable {text passed : List Char} {scanner : Scanner}

/-- The blanks before the next token are a gap. -/
theorem gap_of_skipBlanks (moves : lexer.MovesOn) (h : scanner.Passed text passed) : ∃ gap after,
    lexer.IsGap gap ∧ scanner.cursor.rest = gap ++ after ∧
      lexer.skipBlanks scanner = scanner.goTo (scanner.place + gap.length) := by
  rw [skipBlanks]
  split
  next homit =>
    refine ⟨scanner.cursor.rest.takeWhile Text.isBlank, scanner.cursor.rest.dropWhile Text.isBlank,
      ⟨?_, ?_⟩, List.takeWhile_append_dropWhile.symm, ?_⟩
    · exact fun c hc => List.mem_takeWhile_imp hc
    · intro hkept
      rw [homit] at hkept
      cases hkept
    · obtain ⟨found, hfound, hwhole⟩ := Option.map_eq_some_iff.mp
        (moves.blanks scanner.place_le)
      rw [hfound]
      dsimp only
      rw [hwhole, blanksAt, h.drop_place]
  · refine ⟨[], scanner.cursor.rest, .nil, rfl, ?_⟩
    rw [List.length_nil, scanner.goTo_add]
    rfl

/-- A match leads over the text of a lexeme, which is not empty. -/
theorem lexeme_of_match? (moves : lexer.MovesOn) (h : scanner.Passed text passed) {rule : Rule}
    {span : Span} (hmatch : lexer.match? scanner = some (rule, span)) : ∃ lexeme after,
      lexeme ≠ [] ∧ scanner.cursor.rest = lexeme ++ after ∧
        span = ⟨scanner.place, scanner.place + lexeme.length⟩ ∧
        span.textIn scanner.input = lexeme := by
  obtain ⟨start, stop⟩ := span
  obtain ⟨rfl, hmoved, hstop⟩ := moves.lexeme hmatch
  dsimp only at hmoved hstop
  have hlength : (scanner.cursor.rest.take (stop - scanner.place)).length =
      stop - scanner.place := by
    have hinput := congrArg List.length h.drop_place
    rw [List.length_drop] at hinput
    rw [List.length_take]
    omega
  refine ⟨scanner.cursor.rest.take (stop - scanner.place),
    scanner.cursor.rest.drop (stop - scanner.place), ?_, (List.take_append_drop ..).symm, ?_, ?_⟩
  · exact List.length_pos_iff.mp (by omega)
  · rw [hlength, Nat.add_sub_cancel' hmoved.le]
  · rw [Span.textIn, List.drop_take, h.drop_place]

/-- What a step comes to when the scanner has passed some characters: after a gap it finds the end
of the input, a character that no rule accepts, or a token. -/
inductive Steps (lexer : Lexer) (text passed : List Char) :
    Option (Except LexFault Token) → Scanner → Prop
  | ended {gap : List Char} {after : Scanner} :
      lexer.IsGap gap → after.Passed text (passed ++ gap) → after.cursor.rest = [] →
      Steps lexer text passed none after
  | refused {gap rest : List Char} {c : Char} {after : Scanner} :
      lexer.IsGap gap → after.Passed text (passed ++ gap) → after.cursor.rest = c :: rest →
      after.failed = true →
      Steps lexer text passed (some (.error ⟨(passed ++ gap).count '\n' + 1, ⟨c⟩⟩)) after
  | taken {gap : List Char} {token : Token} {after : Scanner} :
      lexer.IsGap gap → token.lexeme.toList ≠ [] →
      after.Passed text (passed ++ (gap ++ token.lexeme.toList)) → after.failed = false →
      Steps lexer text passed (some (.ok token)) after

theorem steps_next (moves : lexer.MovesOn) (h : scanner.Passed text passed)
    (hfailed : scanner.failed = false) :
    lexer.Steps text passed (lexer.next scanner).1 (lexer.next scanner).2 := by
  rw [next, hfailed, Bool.false_or]
  by_cases hdone : scanner.done = true
  · rw [if_pos hdone]
    have hpassed : scanner.Passed text (passed ++ []) := by
      rw [List.append_nil]
      exact h
    exact .ended .nil hpassed (List.isEmpty_iff.mp hdone)
  · rw [if_neg hdone]
    -- What is skipped is a gap, and the rest of the step begins behind it.
    obtain ⟨gap, after, hgap, hrest, hstart⟩ := gap_of_skipBlanks moves h
    have hmoved := h.goTo hrest
    rw [← hstart] at hmoved
    have hkept : (lexer.skipBlanks scanner).failed = false := by
      rw [hstart]
      exact hfailed
    dsimp only
    split
    next hempty => exact .ended hgap hmoved hempty
    next c rest hc =>
      split
      next =>
        rw [hmoved.line_eq]
        exact .refused hgap ⟨hmoved.input, hmoved.split, hmoved.cursor⟩ hc rfl
      next rule span hmatch =>
        obtain ⟨lexeme, others, hlexeme, hothers, rfl, htext⟩ :=
          lexeme_of_match? moves hmoved hmatch
        have htoken := hmoved.goTo hothers
        rw [List.append_assoc] at htoken
        rw [htext]
        refine .taken hgap ?_ ?_ hkept
        · rw [String.toList_ofList]
          exact hlexeme
        · rw [String.toList_ofList]
          exact htoken

end Steps

/-! ## Whole runs -/

/-- How far a run has come when it yields nothing more: to the end of the input, or to the character
that its fault names. -/
inductive Halts (text passed : List Char) (scanner : Scanner) : Option LexFault → Prop
  | done : scanner.cursor.rest = [] → Halts text passed scanner none
  | refused {c : Char} {rest : List Char} :
      scanner.cursor.rest = c :: rest → scanner.failed = true →
      Halts text passed scanner (some ⟨passed.count '\n' + 1, ⟨c⟩⟩)

/-- The tokens of a run cover what the run passes, and with enough fuel it halts. -/
theorem covers_of_run (moves : lexer.MovesOn) {text : List Char} (fuel : Nat) :
    ∀ {scanner : Scanner} {passed : List Char},
    scanner.Passed text passed → scanner.failed = false → ∃ covered,
      lexer.Covers ((lexer.run fuel scanner).tokens.map (·.1)) covered ∧
      (lexer.run fuel scanner).last.Passed text (passed ++ covered) ∧
      (scanner.cursor.rest.length < fuel ∨ (lexer.run fuel scanner).fault ≠ none →
        Halts text (passed ++ covered) (lexer.run fuel scanner).last
          (lexer.run fuel scanner).fault) := by
  induction fuel with
  | zero =>
      intro scanner passed h _
      refine ⟨[], .gap .nil, ?_, ?_⟩
      · rw [List.append_nil]
        exact h
      · rintro (hfuel | hfault)
        · exact absurd hfuel (Nat.not_lt_zero _)
        · exact absurd rfl hfault
  | succ fuel ih =>
      intro scanner passed h hfailed
      have hstep := steps_next moves h hfailed
      rw [run]
      generalize lexer.next scanner = stepped at hstep
      obtain ⟨result, after⟩ := stepped
      dsimp only at hstep
      cases hstep with
      | ended hgap hpassed hrest => exact ⟨_, .gap hgap, hpassed, fun _ => .done hrest⟩
      | refused hgap hpassed hrest hafter =>
          exact ⟨_, .gap hgap, hpassed, fun _ => .refused hrest hafter⟩
      | @taken gap token after hgap hlexeme hpassed hafter =>
          obtain ⟨covered, hcovers, hlast, hhalts⟩ := ih hpassed hafter
          rw [List.append_assoc] at hlast hhalts
          refine ⟨_, .token hgap hlexeme hcovers, hlast, fun hfuel => hhalts ?_⟩
          -- A token is not empty, so that less text is left for the fuel that is left.
          refine hfuel.imp_left fun hfuel => ?_
          have hlength := congrArg List.length (h.split.symm.trans hpassed.split)
          have := List.length_pos_iff.mpr hlexeme
          simp only [List.length_append] at hlength
          omega

/-- A scanner that has failed or has come to the end does nothing more. -/
theorem next_of_halts {text passed : List Char} {scanner : Scanner} {fault : Option LexFault}
    (h : Halts text passed scanner fault) : lexer.next scanner = (none, scanner) := by
  rw [next]
  refine if_pos ?_
  cases h with
  | done hrest => rw [Scanner.done, hrest, List.isEmpty_nil, Bool.or_true]
  | refused _ hfailed => rw [hfailed, Bool.true_or]

theorem covers_of_scan (moves : lexer.MovesOn) (text : String) : ∃ covered,
    lexer.Covers ((lexer.scan text).tokens.map (·.1)) covered ∧
    (lexer.scan text).last.Passed text.toList covered ∧
    Halts text.toList covered (lexer.scan text).last (lexer.scan text).fault := by
  obtain ⟨covered, hcovers, hlast, hhalts⟩ :=
    covers_of_run moves (text.toList.length + 1) (.start text) rfl
  exact ⟨covered, hcovers, hlast, hhalts (.inl (Nat.lt_succ_self _))⟩

/-- What a scanner has passed when it halts is the whole text, or all that comes before the
character its fault names. -/
theorem Halts.parts {text passed : List Char} {scanner : Scanner} {fault : Option LexFault} :
    Halts text passed scanner fault → scanner.Passed text passed →
    match fault with
    | none => passed = text
    | some fault => ∃ rest, text = passed ++ fault.item.char :: rest ∧
        fault.line = 1 + passed.count '\n' := by
  intro h hpassed
  have hsplit := hpassed.split
  cases h with
  | done hrest =>
      rw [hrest, List.append_nil] at hsplit
      exact hsplit.symm
  | refused hrest _ =>
      rw [hrest] at hsplit
      exact ⟨_, hsplit, Nat.add_comm _ _⟩

/-- The tokens of a text cover it. -/
theorem covers_of_tokenize (moves : lexer.MovesOn) {text : String} {tokens : List Token}
    (h : lexer.tokenize text = .ok tokens) : lexer.Covers tokens text.toList := by
  obtain ⟨covered, hcovers, hlast, hhalts⟩ := covers_of_scan moves text
  have hparts := hhalts.parts hlast
  rw [tokenize] at h
  split at h
  · cases h
  next hfault =>
    cases h
    rw [hfault] at hparts
    subst hparts
    exact hcovers

end Lexer

/-! ## What the challenges see -/

theorem toList_rawText (tokens : List Token) :
    (rawText tokens).toList = tokens.flatMap (·.lexeme.toList) := by
  rw [rawText, String.toList_join, List.flatMap_map]

namespace Session

variable {σ : Type}

/-- Running the commands of a line shows the challenges nothing more. -/
theorem book_runTokens (session : Session σ) (tokens : List Token) :
    (session.runTokens tokens).2.book = session.book := by
  rw [runTokens]
  split
  · rfl
  · split <;> rfl

end Session

/-- Scanning loses nothing, with any engine that keeps the laws and any table whose patterns stand
for themselves. After any number of steps the lexemes and the gaps make up what has been passed. The
whole scan passes the whole text, or it ends with a fault that names the next character and its
line, and it stays where it has ended. The challenges see the lexemes without the gaps. -/
theorem scan_leaves_nothing_out {engine : Engine} (laws : engine.LeftmostFirst) {rules : List Rule}
    {options : LexerOptions} {lexer : Lexer} (h : Lexer.buildWith engine rules options = .ok lexer)
    (hclosed : ∀ rule ∈ rules, engine.SelfContained options.dialect rule.pattern)
    {σ : Type} (session : Session σ) (hsession : session.lexer = lexer) (text : String) :
    (∀ steps, ∃ passed,
      lexer.Covers ((lexer.run steps (.start text)).tokens.map (·.1)) passed ∧
      (lexer.run steps (.start text)).last.Passed text.toList passed ∧
      (lexer.run steps (.start text)).last.position = byteLength passed) ∧
    (∃ passed,
      lexer.Covers ((lexer.scan text).tokens.map (·.1)) passed ∧
      (lexer.scan text).last.position = byteLength passed ∧
      lexer.next (lexer.scan text).last = (none, (lexer.scan text).last) ∧
      match (lexer.scan text).fault with
      | none => passed = text.toList
      | some fault => ∃ rest, text.toList = passed ++ fault.item.char :: rest ∧
          fault.line = 1 + passed.count '\n') ∧
    match lexer.tokenize text with
    | .ok tokens => lexer.Covers tokens text.toList ∧
        (session.interpret text).2.book =
          session.book.check (String.ofList (tokens.flatMap (·.lexeme.toList)))
    | .error _ => (session.interpret text).2.book = session.book := by
  subst hsession
  have moves := Lexer.movesOn_of_build laws h hclosed
  refine ⟨fun steps => ?_, ?_, ?_⟩
  · obtain ⟨passed, hcovers, hlast, -⟩ := Lexer.covers_of_run moves steps (.start text) rfl
    exact ⟨passed, hcovers, hlast, hlast.position_eq⟩
  · obtain ⟨passed, hcovers, hlast, hhalts⟩ := Lexer.covers_of_scan moves text
    exact ⟨passed, hcovers, hlast.position_eq, Lexer.next_of_halts hhalts, hhalts.parts hlast⟩
  · cases htokens : session.lexer.tokenize text with
    | ok tokens =>
        refine ⟨Lexer.covers_of_tokenize moves htokens, ?_⟩
        rw [session.interpret_of_tokens htokens, Session.book_runTokens, ← toList_rawText,
          String.ofList_toList]
        rfl
    | error fault =>
        obtain ⟨error, hinterpret⟩ := session.interpret_of_lexFault htokens
        rw [hinterpret]
        rfl

/-- Words on two lines are covered up to a mark that no rule accepts. Without the mark the
challenges see both words. -/
theorem words_until_mark : ∃ lexer, Lexer.build wordsBeforeDigits {} = .ok lexer ∧
    (∃ passed,
      lexer.Covers [⟨"WORD", "ab", some "ab"⟩, ⟨"WORD", "c", some "c"⟩] passed ∧
      (lexer.scan "ab\n c!").last.position = byteLength passed ∧
      lexer.next (lexer.scan "ab\n c!").last = (none, (lexer.scan "ab\n c!").last) ∧
      ∃ rest, "ab\n c!".toList = passed ++ '!' :: rest ∧ 2 = 1 + passed.count '\n') ∧
    lexer.Covers [⟨"WORD", "ab", some "ab"⟩, ⟨"WORD", "c", some "c"⟩] "ab\n c".toList ∧
    ((Session.new lexer Machine.executor .new .default).interpret "ab\n c").2.book =
      ChallengeBook.default.check "abc" := by
  obtain ⟨lexer, hlexer, hscan⟩ := exists_lexer_of_map wordsBeforeDigits {}
    (fun lexer => ((lexer.scan "ab\n c!").tokens.map (·.1), (lexer.scan "ab\n c!").fault,
      (lexer.tokenize "ab\n c").toOption))
    (show _ = some ([⟨"WORD", "ab", some "ab"⟩, ⟨"WORD", "c", some "c"⟩], some ⟨2, ⟨'!'⟩⟩,
      some [⟨"WORD", "ab", some "ab"⟩, ⟨"WORD", "c", some "c"⟩]) by decide +kernel)
  obtain ⟨htokens, hfault, hline⟩ : _ ∧ _ ∧ _ := by simpa only [Prod.mk.injEq] using hscan
  have hclosed : ∀ rule ∈ wordsBeforeDigits, Pattern.engine.SelfContained
      (LexerOptions.dialect {}) rule.pattern := Pattern.selfContained_of_all (by decide +kernel)
  have hcovers := scan_leaves_nothing_out Pattern.engine_leftmostFirst hlexer hclosed
    (Session.new lexer Machine.executor .new .default) rfl
  obtain ⟨-, ⟨passed, hpassed, hposition, hstays, hrest⟩, -⟩ := hcovers "ab\n c!"
  obtain ⟨-, -, hread⟩ := hcovers "ab\n c"
  rw [htokens] at hpassed
  rw [hfault] at hrest
  refine ⟨lexer, hlexer, ⟨passed, hpassed, hposition, hstays, hrest⟩, ?_⟩
  cases htokenized : lexer.tokenize "ab\n c" with
  | error fault =>
      rw [htokenized] at hline
      cases hline
  | ok tokens =>
      rw [htokenized] at hline hread
      cases hline
      exact hread

/-- The lexemes make up all of a covered text that is not blank. -/
theorem Lexer.filter_of_covers {lexer : Lexer} {tokens : List Token} {text : List Char}
    (h : lexer.Covers tokens text) : text.filter (!Text.isBlank ·) =
      tokens.flatMap fun token => token.lexeme.toList.filter (!Text.isBlank ·) := by
  have hgap {gap : List Char} (hgap : lexer.IsGap gap) : gap.filter (!Text.isBlank ·) = [] := by
    rw [List.filter_eq_nil_iff]
    intro c hc
    rw [hgap.blank c hc]
    decide
  induction h with
  | gap hblank => exact hgap hblank
  | token hblank _ _ ih =>
      rw [List.filter_append, List.filter_append, hgap hblank, ih, List.nil_append,
        List.flatMap_cons]

/-- A rule that leaves a comment open, before one that ends the comment, closes the group of the
first rule and repeats it. -/
def repeatedGroup : List Rule :=
  [{ name := "A", pattern := "(?x)a#" }, { name := "B", pattern := "[\n)*(?:]" }]

/-- Of the two letters that are passed only the second one is in a lexeme. -/
theorem repeated_group_leaves_out : ∃ lexer, Lexer.build repeatedGroup {} = .ok lexer ∧
    (lexer.scan "aa]").tokens.map (·.1) = [⟨"A", "a", some "a"⟩] ∧
    (lexer.scan "aa]").last.position = byteLength "aa".toList ∧
    ¬ lexer.Covers [⟨"A", "a", some "a"⟩] "aa".toList := by
  obtain ⟨lexer, hlexer, hscan⟩ := exists_lexer_of_map repeatedGroup {}
    (fun lexer => ((lexer.scan "aa]").tokens.map (·.1), (lexer.scan "aa]").last.position))
    (show _ = some ([⟨"A", "a", some "a"⟩], 2) by decide +kernel)
  obtain ⟨htokens, hposition⟩ := Prod.mk.injEq .. ▸ hscan
  refine ⟨lexer, hlexer, htokens, hposition, fun h => ?_⟩
  have hfilter := Lexer.filter_of_covers h
  exact absurd hfilter (by decide +kernel)

end QubitScript
