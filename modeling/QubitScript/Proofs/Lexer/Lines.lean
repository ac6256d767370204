import QubitScript.Proofs.Lexer.Spacing
import QubitScript.Proofs.Pattern.Surroundings
import QubitScript.Proofs.Text.Fronts

/-!
# Scanning line by line

Where the patterns of a lexer see nothing but the line of a place, and blanks are skipped, a line
break cuts every scan in two: the text before it and the text after it are scanned as if each stood
alone. A fault in the second text is found further down by the lines of the first one.
-/

namespace QubitScript

open QubitScript.Text

/-- The fault where so many lines come before its text. -/
def LexFault.below (lines : Nat) (fault : LexFault) : LexFault :=
  { fault with line := fault.line + lines }

/-- The piece where so many characters come before its text. -/
def Span.after (count : Nat) (span : Span) : Span := ⟨count + span.start, count + span.stop⟩

/-- What is found where so many characters come before the text. -/
def Found.after (count : Nat) (found : Found) : Found :=
  ⟨found.whole.after count, found.groups.map fun (name, span) => (name, span.after count)⟩

theorem Found.group?_after (count : Nat) (found : Found) (name : String) :
    (found.after count).group? name = (found.group? name).map (Span.after count) := by
  rw [group?, group?, after]
  induction found.groups with
  | nil => rfl
  | cons group groups ih =>
      rw [List.map_cons, List.lookup_cons, List.lookup_cons, ih]
      split <;> rfl

theorem Span.isEmpty_after (count : Nat) (span : Span) :
    (span.after count).isEmpty = span.isEmpty :=
  Bool.eq_iff_iff.mpr (by simp only [isEmpty, after, beq_iff_eq, Nat.add_left_cancel_iff])

theorem Span.textIn_after {front text back : List Char} {span : Span}
    (hstop : span.stop ≤ text.length) :
    (span.after front.length).textIn (front ++ text ++ back) = span.textIn text := by
  rw [textIn, textIn, after, List.append_assoc, List.take_length_add_append,
    List.take_append_of_le_length hstop, List.drop_length_add_append]

/-! ## Blanks -/

namespace Cursor

variable {front back : List Char} {cursor : Cursor}

/-- The place after the blanks that come next. -/
def skipBlanks (cursor : Cursor) : Cursor := cursor.skip (cursor.rest.takeWhile isBlank).length

theorem rest_skipBlanks (cursor : Cursor) :
    cursor.skipBlanks.rest = cursor.rest.dropWhile isBlank :=
  rest_skip_append List.takeWhile_append_dropWhile.symm

/-- Blanks are skipped as far as in the text alone, if they end there or nothing comes after it. -/
theorem skipBlanks_within (h : cursor.skipBlanks.rest ≠ [] ∨ back = []) :
    (cursor.within front back).skipBlanks = cursor.skipBlanks.within front back := by
  have hfront : (cursor.within front back).rest.takeWhile isBlank =
      cursor.rest.takeWhile isBlank := by
    rcases h with hrest | rfl
    · rw [rest_skipBlanks] at hrest
      exact takeWhile_append_of_dropWhile hrest
    · rw [within, List.append_nil]
  rw [skipBlanks, hfront, skip_within (List.takeWhile_sublist isBlank).length_le]
  rfl

/-- It does not matter how many of the blanks have been passed already. -/
theorem skipBlanks_of_gap {gap after : List Char} (hgap : ∀ c ∈ gap, isBlank c = true)
    (hrest : cursor.rest = gap ++ after) :
    (cursor.skip gap.length).skipBlanks = cursor.skipBlanks := by
  rw [skipBlanks, skipBlanks, rest_skip_append hrest, hrest, List.takeWhile_append_of_pos hgap,
    List.length_append, skip_add]

end Cursor

/-! ## Scanners in larger texts -/

namespace Scanner

variable {text passed : List Char} {scanner : Scanner}

/-- The state of the scan where the text has others before and after it. -/
def within (front back : List Char) (scanner : Scanner) : Scanner :=
  ⟨front ++ scanner.input ++ back, scanner.cursor.within front back, scanner.failed⟩

theorem Passed.length_le (h : scanner.Passed text passed) : passed.length ≤ text.length := by
  have hlength := congrArg List.length h.split
  rw [List.length_append] at hlength
  exact hlength ▸ Nat.le_add_right _ _

theorem Passed.within (h : scanner.Passed text passed) (front back : List Char) :
    (scanner.within front back).Passed (front ++ text ++ back) (front ++ passed) := by
  have hinput : (scanner.within front back).input = front ++ text ++ back := by
    rw [Scanner.within, h.input]
  have hsplit : front ++ text ++ back = front ++ passed ++ (scanner.cursor.rest ++ back) := by
    rw [h.split]
    simp only [List.append_assoc]
  refine ⟨hinput, hsplit, ?_⟩
  rw [Scanner.within, h.cursor, ← Cursor.skip_within h.length_le, Cursor.within_start,
    Cursor.skip_add, List.length_append]

/-- In the larger text a scanner goes on as in the text alone. -/
theorem Passed.goTo_within (h : scanner.Passed text passed) {span : Span} (front back : List Char)
    (hstart : span.start = scanner.place) (hle : span.start ≤ span.stop)
    (hstop : span.stop ≤ scanner.input.length) :
    (scanner.within front back).goTo (span.after front.length).stop =
      (scanner.goTo span.stop).within front back := by
  have hplace := (h.within front back).place_eq
  have hrest := congrArg List.length h.drop_place
  rw [List.length_append] at hplace
  rw [List.length_drop] at hrest
  have hcount : (span.after front.length).stop - (scanner.within front back).place =
      span.stop - scanner.place := by
    rw [hplace, ← h.place_eq, Span.after]
    dsimp only
    omega
  rw [Scanner.goTo, Scanner.goTo, hcount, moveTo, moveTo, Scanner.within, Scanner.within,
    Cursor.skip_within (by omega)]

/-- With nothing before it a text begins where the larger one begins. -/
theorem start_within (text more : String) :
    (Scanner.start text).within [] more.toList = .start (text ++ more) := by
  rw [within, start, start, Cursor.within_start, List.nil_append, String.toList_append]
  rfl

end Scanner

namespace Lexer

/-- A lexer that sees a place as one of its line only and passes over line breaks: its patterns find
in lines among others what they find in them alone, its actions do not ask for the place, and blanks
are skipped. -/
structure ReadsByLine (lexer : Lexer) : Prop where
  pattern : ∀ {front text back : List Char} {place : Nat}, AreLines front back →
    place ≤ text.length → lexer.pattern.matchAt? (front ++ text ++ back) (front.length + place) =
      (lexer.pattern.matchAt? text place).map (Found.after front.length)
  action : ∀ rule ∈ lexer.rules, ∀ after other lexeme,
    rule.action after lexeme = rule.action other lexeme
  moves : lexer.MovesOn
  omits : lexer.options.omitBlanks = true

/-! ## One step -/

section Find

variable {find : Scanner → Option (Rule × Span)} {scanner : Scanner} {c : Char} {rest : List Char}

theorem stepBy_of_end (hrest : scanner.cursor.rest = []) :
    scanner.stepBy false find = (none, scanner) := by
  unfold Scanner.stepBy
  exact if_pos (by simp [Scanner.done, hrest])

theorem stepBy_of_none (hfailed : scanner.failed = false) (hrest : scanner.cursor.rest = c :: rest)
    (hfind : find scanner = none) : scanner.stepBy false find =
      (some (.error ⟨scanner.line, ⟨c⟩⟩), { scanner with failed := true }) := by
  unfold Scanner.stepBy
  rw [if_neg (by simp [Scanner.done, hfailed, hrest])]
  simp [hrest, hfind]

theorem stepBy_of_some {rule : Rule} {span : Span} {lexeme : String}
    (hfailed : scanner.failed = false) (hrest : scanner.cursor.rest = c :: rest)
    (hfind : find scanner = some (rule, span))
    (hlexeme : String.ofList (span.textIn scanner.input) = lexeme) : scanner.stepBy false find =
      (some (.ok ⟨rule.name, lexeme, rule.action (scanner.goTo span.stop) lexeme⟩),
        scanner.goTo span.stop) := by
  unfold Scanner.stepBy
  rw [if_neg (by simp [Scanner.done, hfailed, hrest])]
  simp [hrest, hfind, hlexeme]

end Find

section Step

variable {lexer : Lexer} (hreads : lexer.ReadsByLine) {front back : List Char} {scanner : Scanner}
  {text passed : List Char}
include hreads

theorem match?_within (hlines : AreLines front back) (h : scanner.Passed text passed) :
    lexer.match? (scanner.within front back) =
      (lexer.match? scanner).map fun (rule, span) => (rule, span.after front.length) := by
  have hplace : (scanner.within front back).place = front.length + scanner.place := by
    rw [(h.within front back).place_eq, List.length_append, h.place_eq]
  rw [match?, match?, hplace]
  simp only [Option.bind_eq_bind]
  rw [Scanner.within, hreads.pattern hlines scanner.place_le, Option.bind_map, Option.map_bind]
  refine congrArg (Option.bind _) (funext fun found => ?_)
  rw [Function.comp_apply, Function.comp_apply, apply_ite (Option.map _)]
  refine if_congr (by rw [Found.after, Span.isEmpty_after]) rfl ?_
  rw [ruleOf?, ruleOf?, List.map_findSome?]
  congr 1
  funext rule
  rw [Function.comp_apply, Found.group?_after, Option.map_map, Option.map_map]
  rfl

/-- A step skips the blanks first. -/
theorem next_eq_skipped (h : scanner.Passed text passed) (hfailed : scanner.failed = false) :
    lexer.next scanner =
      (scanner.moveTo scanner.cursor.skipBlanks).stepBy false lexer.match? := by
  have hmoved : scanner.goTo (blanksAt scanner.input scanner.place).stop =
      scanner.moveTo scanner.cursor.skipBlanks := by
    rw [blanksAt, h.drop_place, scanner.goTo_add, Cursor.skipBlanks]
  rw [next_eq_stepBy hreads.moves.blanks, hreads.omits]
  by_cases hrest : scanner.cursor.rest = []
  · have hplace : scanner.cursor.skipBlanks = scanner.cursor := by
      rw [Cursor.skipBlanks, hrest]
      rfl
    rw [hplace]
    unfold Scanner.stepBy
    simp [Scanner.done, Scanner.moveTo, hrest]
  · by_cases hskipped : scanner.cursor.skipBlanks.rest = []
    · rw [stepBy_of_end hskipped]
      unfold Scanner.stepBy
      simp [Scanner.done, Scanner.moveTo, hfailed, hrest, hskipped, hmoved]
    · unfold Scanner.stepBy
      simp [Scanner.done, Scanner.moveTo, hfailed, hrest, hskipped, hmoved]

/-- Nothing is yielded just when nothing but blanks is left. -/
theorem next_fst_eq_none_iff (h : scanner.Passed text passed) (hfailed : scanner.failed = false) :
    (lexer.next scanner).1 = none ↔ scanner.cursor.skipBlanks.rest = [] := by
  rw [next_eq_skipped hreads h hfailed]
  have hready : (scanner.moveTo scanner.cursor.skipBlanks).failed = false := hfailed
  cases hrest : scanner.cursor.skipBlanks.rest with
  | nil =>
      have hplace : (scanner.moveTo scanner.cursor.skipBlanks).cursor.rest = [] := hrest
      rw [stepBy_of_end hplace]
      simp
  | cons c rest =>
      have hplace : (scanner.moveTo scanner.cursor.skipBlanks).cursor.rest = c :: rest := hrest
      cases hfind : lexer.match? (scanner.moveTo scanner.cursor.skipBlanks) with
      | none =>
          rw [stepBy_of_none hready hplace hfind]
          simp
      | some found =>
          rw [stepBy_of_some hready hplace hfind rfl]
          simp

theorem stepBy_within (hlines : AreLines front back) (hpassed : scanner.Passed text passed)
    (hfailed : scanner.failed = false) (h : scanner.cursor.rest ≠ [] ∨ back = []) :
    (scanner.within front back).stepBy false lexer.match? =
      ((scanner.stepBy false lexer.match?).1.map (·.mapError (LexFault.below (front.count '\n'))),
        (scanner.stepBy false lexer.match?).2.within front back) := by
  cases hrest : scanner.cursor.rest with
  | nil =>
      obtain rfl : back = [] := h.resolve_left fun hne => hne hrest
      have hwithin : (scanner.within front []).cursor.rest = [] :=
        (List.append_nil _).trans hrest
      rw [stepBy_of_end hrest, stepBy_of_end hwithin]
      rfl
  | cons c rest =>
      have hwithin : (scanner.within front back).cursor.rest = c :: (rest ++ back) :=
        congrArg (· ++ back) hrest
      have hready : (scanner.within front back).failed = false := hfailed
      have hmatch := match?_within hreads hlines hpassed
      cases hfind : lexer.match? scanner with
      | none =>
          -- The line of the fault is found by the breaks before it, those of the front included.
          have hline : (scanner.within front back).line = scanner.line + front.count '\n' := by
            rw [(hpassed.within front back).line_eq, hpassed.line_eq, List.count_append]
            omega
          rw [hfind] at hmatch
          rw [stepBy_of_none hfailed hrest hfind, stepBy_of_none hready hwithin hmatch, hline]
          rfl
      | some found =>
          obtain ⟨rule, span⟩ := found
          obtain ⟨hstart, hmoved, hstop⟩ := hreads.moves.lexeme hfind
          have htext : (span.after front.length).textIn (scanner.within front back).input =
              span.textIn scanner.input := Span.textIn_after hstop
          rw [hfind] at hmatch
          rw [stepBy_of_some hfailed hrest hfind rfl,
            stepBy_of_some hready hwithin hmatch (congrArg String.ofList htext),
            hpassed.goTo_within front back hstart hmoved.le hstop,
            hreads.action rule (mem_rules_of_match? hfind) _ (scanner.goTo span.stop)]
          rfl

/-- A step comes to the same in the larger text, unless it finds the end of the text and more comes
after that. -/
theorem next_within (hlines : AreLines front back) (hpassed : scanner.Passed text passed)
    (hfailed : scanner.failed = false) (h : (lexer.next scanner).1 ≠ none ∨ back = []) :
    lexer.next (scanner.within front back) =
      ((lexer.next scanner).1.map (·.mapError (LexFault.below (front.count '\n'))),
        (lexer.next scanner).2.within front back) := by
  have hrest : scanner.cursor.skipBlanks.rest ≠ [] ∨ back = [] :=
    h.imp_left (next_fst_eq_none_iff hreads hpassed hfailed).not.mp
  have hmoved := hpassed.goTo (List.takeWhile_append_dropWhile (p := isBlank)).symm
  rw [scanner.goTo_add] at hmoved
  have hskip : (scanner.within front back).cursor.skipBlanks =
      scanner.cursor.skipBlanks.within front back := Cursor.skipBlanks_within hrest
  have hwithin : lexer.next (scanner.within front back) =
      ((scanner.moveTo scanner.cursor.skipBlanks).within front back).stepBy false lexer.match? := by
    have hready : (scanner.within front back).failed = false := hfailed
    rw [next_eq_skipped hreads (hpassed.within front back) hready, hskip]
    rfl
  rw [hwithin, next_eq_skipped hreads hpassed hfailed]
  exact stepBy_within hreads hlines hmoved hfailed hrest

/-- Blanks before a place make no difference to the next step. -/
theorem next_of_gap {first second : Scanner} {gap : List Char} (hfirst : first.Passed text passed)
    (hsecond : second.Passed text (passed ++ gap)) (hgap : ∀ c ∈ gap, isBlank c = true)
    (hfailed : first.failed = false) (hfailed' : second.failed = false) :
    lexer.next first = lexer.next second := by
  have hrest : first.cursor.rest = gap ++ second.cursor.rest := by
    have hsplit := hfirst.split.symm.trans hsecond.split
    rw [List.append_assoc] at hsplit
    exact List.append_cancel_left hsplit
  have hcursor : first.cursor.skip gap.length = second.cursor := by
    rw [hfirst.cursor, hsecond.cursor, Cursor.skip_add, List.length_append]
  rw [next_eq_skipped hreads hfirst hfailed, next_eq_skipped hreads hsecond hfailed', ← hcursor,
    Cursor.skipBlanks_of_gap hgap hrest, Scanner.moveTo, Scanner.moveTo, hfirst.input,
    hsecond.input, hfailed, hfailed']

end Step

/-! ## Whole texts -/

/-- What a scan comes to when it goes on from a scanner: all tokens up to the end, or the fault that
ends it. -/
inductive Yields (lexer : Lexer) : Scanner → Except LexFault (List Token) → Prop
  | ended {scanner after : Scanner} :
      lexer.next scanner = (none, after) → Yields lexer scanner (.ok [])
  | refused {scanner after : Scanner} {fault : LexFault} :
      lexer.next scanner = (some (.error fault), after) → Yields lexer scanner (.error fault)
  | taken {scanner after : Scanner} {token : Token} {outcome : Except LexFault (List Token)} :
      lexer.next scanner = (some (.ok token), after) → Yields lexer after outcome →
      Yields lexer scanner (outcome.map (token :: ·))

/-- The tokens of a scan, or its fault. -/
def Scan.outcome (scan : Scan) : Except LexFault (List Token) :=
  match scan.fault with
  | some fault => .error fault
  | none => .ok (scan.tokens.map (·.1))

section Texts

variable {lexer : Lexer} {scanner : Scanner} {outcome : Except LexFault (List Token)}

theorem Yields.unique (h : lexer.Yields scanner outcome) :
    ∀ {other : Except LexFault (List Token)}, lexer.Yields scanner other → outcome = other := by
  induction h with
  | ended hnext =>
      intro other hother
      cases hother with
      | ended => rfl
      | refused hother | taken hother => cases hnext.symm.trans hother
  | refused hnext =>
      intro other hother
      cases hother with
      | refused hother =>
          cases hnext.symm.trans hother
          rfl
      | ended hother | taken hother => cases hnext.symm.trans hother
  | taken hnext _ ih =>
      intro other hother
      cases hother with
      | taken hother hafter =>
          cases hnext.symm.trans hother
          rw [ih hafter]
      | ended hother | refused hother => cases hnext.symm.trans hother

/-- Only the next step counts. -/
theorem Yields.of_next_eq {first second : Scanner} (hnext : lexer.next first = lexer.next second)
    (h : lexer.Yields second outcome) : lexer.Yields first outcome := by
  cases h with
  | ended h => exact .ended (hnext.trans h)
  | refused h => exact .refused (hnext.trans h)
  | taken h hafter => exact .taken (hnext.trans h) hafter

/-- A run that has come to where nothing more is yielded. -/
theorem yields_run {fuel : Nat} : ∀ {scanner : Scanner},
    lexer.next (lexer.run fuel scanner).last = (none, (lexer.run fuel scanner).last) →
    lexer.Yields scanner (lexer.run fuel scanner).outcome := by
  induction fuel with
  | zero => exact fun hlast => .ended hlast
  | succ fuel ih =>
      intro scanner hlast
      rw [run] at hlast ⊢
      rcases hnext : lexer.next scanner with ⟨_ | fault | token, after⟩ <;> rw [hnext] at hlast
      · exact .ended hnext
      · exact .refused hnext
      · have houtcome : Scan.outcome { lexer.run fuel after with
              tokens := (token, after) :: (lexer.run fuel after).tokens } =
            (lexer.run fuel after).outcome.map (token :: ·) := by
          rw [Scan.outcome, Scan.outcome]
          cases (lexer.run fuel after).fault <;> rfl
        dsimp only
        rw [houtcome]
        exact .taken hnext (ih hlast)

theorem yields_tokenize (moves : lexer.MovesOn) (text : String) :
    lexer.Yields (.start text) (lexer.tokenize text) := by
  obtain ⟨_, -, -, hhalts⟩ := covers_of_scan moves text
  exact yields_run (next_of_halts hhalts)

section Cut

variable (hreads : lexer.ReadsByLine) {front back text : List Char}
  {others : Except LexFault (List Token)}
include hreads

/-- In the larger text the scan goes on in the same way up to the end of the text, or to its fault,
and what comes after the end follows. -/
theorem Yields.within (hlines : AreLines front back) (h : lexer.Yields scanner outcome)
    (hend : ∀ {last : Scanner} {passed : List Char}, last.Passed text passed → last.failed = false →
      (lexer.next last).1 = none → lexer.Yields (last.within front back) others) :
    ∀ {passed : List Char}, scanner.Passed text passed → scanner.failed = false →
    lexer.Yields (scanner.within front back)
      ((outcome.mapError (LexFault.below (front.count '\n'))).bind fun tokens =>
        others.map (tokens ++ ·)) := by
  induction h with
  | ended hnext =>
      intro passed hpassed hfailed
      have hyields := hend hpassed hfailed (congrArg Prod.fst hnext)
      cases others <;> exact hyields
  | refused hnext =>
      intro passed hpassed hfailed
      have hwithin := next_within hreads hlines hpassed hfailed (.inl (by rw [hnext]; nofun))
      rw [hnext] at hwithin
      exact .refused hwithin
  | @taken scanner after token outcome hnext _ ih =>
      intro passed hpassed hfailed
      have hwithin := next_within hreads hlines hpassed hfailed (.inl (by rw [hnext]; nofun))
      have hsteps := steps_next hreads.moves hpassed hfailed
      rw [hnext] at hwithin hsteps
      cases hsteps with
      | taken _ _ hafter hfailed =>
          have hyields := Yields.taken hwithin (ih hafter hfailed)
          cases outcome <;> cases others <;> exact hyields

/-- After the lines of another text a text is scanned as it is alone, and a fault is found that many
lines below. -/
theorem yields_after (hlines : AreLines front []) (text : String) :
    lexer.Yields ((Scanner.start text).within front [])
      ((lexer.tokenize text).mapError (LexFault.below (front.count '\n'))) := by
  have hend {last : Scanner} {passed : List Char} (hlast : last.Passed text.toList passed)
      (hfailed : last.failed = false) (hnone : (lexer.next last).1 = none) :
      lexer.Yields (last.within front []) (.ok []) := by
    have hwithin := next_within hreads hlines hlast hfailed (.inr rfl)
    rw [hnone] at hwithin
    exact .ended hwithin
  have hyields := (yields_tokenize hreads.moves text).within hreads hlines hend (.start text) rfl
  cases htokens : lexer.tokenize text with
  | error fault =>
      rw [htokens] at hyields
      exact hyields
  | ok tokens =>
      have houtcome : ((Except.ok tokens).mapError (LexFault.below (front.count '\n'))).bind
          (fun tokens => (Except.ok []).map (tokens ++ ·)) = .ok tokens :=
        congrArg Except.ok (List.append_nil tokens)
      rw [htokens, houtcome] at hyields
      exact hyields

/-- Where a text ends, the scan goes on as if it began after the line break that comes next. -/
theorem next_of_line_end {first second : String} {last : Scanner} {passed : List Char}
    (hlast : last.Passed first.toList passed) (hfailed : last.failed = false)
    (hnone : (lexer.next last).1 = none) : lexer.next (last.within [] ('\n' :: second.toList)) =
      lexer.next ((Scanner.start second).within (first.toList ++ ['\n']) []) := by
  have hblanks : ∀ c ∈ last.cursor.rest ++ ['\n'], isBlank c = true := by
    have hrest := (next_fst_eq_none_iff hreads hlast hfailed).mp hnone
    rw [Cursor.rest_skipBlanks] at hrest
    exact List.forall_mem_append.mpr
      ⟨List.dropWhile_eq_nil_iff.mp hrest, List.forall_mem_singleton.mpr (by decide)⟩
  have hsplit : passed ++ (last.cursor.rest ++ ['\n']) = first.toList ++ ['\n'] := by
    rw [← List.append_assoc, ← hlast.split]
  have hbefore := hlast.within [] ('\n' :: second.toList)
  have hafter : ((Scanner.start second).within (first.toList ++ ['\n']) []).Passed
      (first.toList ++ '\n' :: second.toList) (passed ++ (last.cursor.rest ++ ['\n'])) := by
    rw [hsplit]
    simpa only [List.append_nil, List.append_assoc, List.singleton_append] using
      (Scanner.Passed.start second).within (first.toList ++ ['\n']) []
  exact next_of_gap hreads hbefore hafter hblanks hfailed rfl

/-- A line break cuts a scan in two. -/
theorem tokenize_line_break (first second : String) :
    lexer.tokenize (first ++ "\n" ++ second) = do
      let tokens ← lexer.tokenize first
      let others ← (lexer.tokenize second).mapError
        (LexFault.below (first.toList.count '\n' + 1))
      return tokens ++ others := by
  have hlines : AreLines (first.toList ++ ['\n']) [] := by
    refine ⟨fun c hc => ?_, nofun⟩
    rw [List.getLast?_concat] at hc
    exact (Option.mem_some_iff.mp hc).symm
  have hcount : (first.toList ++ ['\n']).count '\n' = first.toList.count '\n' + 1 := by
    rw [List.count_append]
    rfl
  have hbreak : ("\n" ++ second).toList = '\n' :: second.toList := String.toList_append
  have hsecond := yields_after hreads hlines second
  rw [hcount] at hsecond
  have hrest : AreLines [] ('\n' :: second.toList) :=
    ⟨nofun, fun c hc => (Option.mem_some_iff.mp hc).symm⟩
  have hwhole := (yields_tokenize hreads.moves first).within hreads hrest
    (fun hlast hfailed hnone => hsecond.of_next_eq (next_of_line_end hreads hlast hfailed hnone))
    (.start first) rfl
  rw [← hbreak, Scanner.start_within, ← String.append_assoc] at hwhole
  rw [(yields_tokenize hreads.moves _).unique hwhole]
  cases lexer.tokenize first with
  | error fault => rfl
  | ok tokens => cases (lexer.tokenize second) <;> rfl

end Cut

end Texts

/-! ## The command notation -/

theorem staysInLine_choiceOf {patterns : List (String × Pattern)}
    (h : ∀ entry ∈ patterns, entry.2.staysInLine = true) :
    (choiceOf patterns).staysInLine = true := by
  induction patterns with
  | nil => rfl
  | cons entry patterns ih =>
      obtain ⟨hentry, hothers⟩ := List.forall_mem_cons.mp h
      cases patterns with
      | nil => exact hentry
      | cons other others => exact (Bool.and_eq_true _ _).mpr ⟨hentry, ih hothers⟩

/-- A choice between patterns that stay in their line finds the same in lines among others. -/
theorem matchAt?_of_chooses {lexer : Lexer} {patterns : List (String × Pattern)}
    (chooses : lexer.Chooses patterns) (hstays : ∀ entry ∈ patterns, entry.2.staysInLine = true)
    {front text back : List Char} {place : Nat} (hlines : AreLines front back)
    (hplace : place ≤ text.length) :
    lexer.pattern.matchAt? (front ++ text ++ back) (front.length + place) =
      (lexer.pattern.matchAt? text place).map (Found.after front.length) := by
  obtain ⟨names, hpattern⟩ := chooses.pattern
  have hlength : front.length + place ≤ (front ++ text ++ back).length := by
    rw [List.length_append, List.length_append]
    omega
  have hcursor : (Cursor.start (front ++ text ++ back)).skip (front.length + place) =
      ((Cursor.start text).skip place).within front back := by
    rw [← Cursor.skip_within hplace, Cursor.within_start, Cursor.skip_add]
  rw [hpattern, Pattern.regex_matchAt? hlength, Pattern.regex_matchAt? hplace, hcursor,
    Pattern.matchAt?_within hlines (staysInLine_choiceOf hstays), Option.map_map, Option.map_map]
  refine Option.map_congr fun stop hstop => ?_
  obtain ⟨entry, -, taken, -, hrest, hgroups⟩ :=
    parts_of_choiceOf chooses.nonempty chooses.plain Pattern.groups_skip hstop
  have hbound := congrArg List.length hrest
  rw [List.length_append, Cursor.length_rest_start_skip] at hbound
  -- The only group takes what the whole match takes, so one piece is compared.
  have hspan : Span.ofLeft (front ++ text ++ back) (((Cursor.start text).skip place).rest.length +
        back.length) (stop.rest.length + back.length) =
      (Span.ofLeft text ((Cursor.start text).skip place).rest.length stop.rest.length).after
        front.length := by
    simp only [Span.ofLeft, Span.after, Cursor.length_rest_start_skip, List.length_append,
      Span.mk.injEq]
    omega
  simp only [Function.comp_apply, Cursor.found, Cursor.within, Found.after, List.length_append,
    hgroups, List.map_cons, List.map_nil, hspan]

theorem staysInLine_commandPatterns (caseSensitive : Bool) :
    ∀ entry ∈ commandPatterns caseSensitive, entry.2.staysInLine = true := by
  cases caseSensitive <;> decide +kernel

/-- No command rule looks over a line break. -/
theorem readsByLine_of_build {options : LexerOptions} {lexer : Lexer}
    (h : build commandRules options = .ok lexer) (homit : options.omitBlanks = true) :
    lexer.ReadsByLine where
  pattern := matchAt?_of_chooses (commandLexer_chooses h)
    (staysInLine_commandPatterns options.caseSensitive)
  action rule hrule after other lexeme := by
    rw [(build_eq_ok h).1] at hrule
    rw [action_of_commandRules hrule, action_of_commandRules hrule]
  moves := movesOn_of_commandLexer h
  omits := by rw [(build_eq_ok h).2.1, homit]

end Lexer

/-- The lexer of the command notation, with or without regard to case, scans two texts with a line
break between them as it scans each of them alone: to the tokens of both, or to the fault of the
first one, or to that of the second one, which is further down by the lines of the first. -/
theorem scans_cut_at_line_breaks (caseSensitive : Bool) : ∃ lexer,
    Lexer.build commandRules { caseSensitive := caseSensitive } = .ok lexer ∧
    ∀ first second : String, lexer.tokenize (first ++ "\n" ++ second) =
      match lexer.tokenize first, lexer.tokenize second with
      | .ok tokens, .ok others => .ok (tokens ++ others)
      | .error fault, _ => .error fault
      | .ok _, .error fault =>
        .error { fault with line := fault.line + (first.toList.count '\n' + 1) } := by
  let lexer := commandLexer { caseSensitive := caseSensitive }
  have hlexer := build_commandRules { caseSensitive := caseSensitive }
  refine ⟨lexer, hlexer, fun first second => ?_⟩
  rw [Lexer.tokenize_line_break (Lexer.readsByLine_of_build hlexer rfl)]
  cases lexer.tokenize first with
  | error fault => rfl
  | ok tokens => cases lexer.tokenize second <;> rfl

/-- The fault is on the fourth line of the whole text. -/
example : ((commandLexer {}).scan "a\nb\n\n#").fault = some ⟨4, ⟨'#'⟩⟩ := by
  decide +kernel

end QubitScript
