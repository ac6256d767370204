import QubitScript.Proofs.Lexer.Coverage
import QubitScript.Proofs.Lexer.Preferences

/-!
# Lexemes with gaps between them

A lexeme of the command notation is the same token wherever it stands, as long as it is apart from
what comes after it, or an operator. A marker is one at the start of a line only. So lexemes with
blanks between them are scanned one by one, each as it is scanned alone.
-/

namespace QubitScript

open QubitScript.Text
open QubitScript.Pattern (IsMarker)

/-! ## Tokens of the command notation -/

/-- The value of a token: its lexeme, unless it is a separator. -/
def commandValue (kind lexeme : String) : Option String :=
  if kind = Kind.separator then none else some lexeme

/-- The pattern of its kind takes the lexeme of the token. -/
structure Token.IsCommandToken (caseSensitive : Bool) (token : Token) : Prop where
  takes : ∃ pattern, (token.kind, pattern) ∈ commandPatterns caseSensitive ∧
    pattern.Takes token.lexeme.toList
  value : token.value = commandValue token.kind token.lexeme

/-- The rule of a kind is found by the group of this name, and makes the value of a token. -/
theorem exists_rule_of_kind {caseSensitive : Bool} {kind : String} {pattern : Pattern}
    (h : (kind, pattern) ∈ commandPatterns caseSensitive) : ∃ rule : Rule, rule.name = kind ∧
      (∀ after lexeme, rule.action after lexeme = commandValue kind lexeme) ∧
      ∀ span : Span, commandRules.findSome? (fun rule =>
        ([(kind, span)].lookup rule.name).map (rule, ·)) = some (rule, span) := by
  simp only [commandPatterns, List.mem_cons, Prod.mk.injEq, List.not_mem_nil, or_false] at h
  rcases h with ⟨rfl, -⟩ | ⟨rfl, -⟩ | ⟨rfl, -⟩ | ⟨rfl, -⟩ | ⟨rfl, -⟩ | ⟨rfl, -⟩ | ⟨rfl, -⟩ <;>
    exact ⟨_, rfl, fun _ _ => rfl, fun _ => rfl⟩

theorem action_of_commandRules {rule : Rule} (h : rule ∈ commandRules) (after : Scanner)
    (lexeme : String) : rule.action after lexeme = commandValue rule.name lexeme := by
  simp only [commandRules, List.mem_cons, List.not_mem_nil, or_false] at h
  rcases h with rfl | rfl | rfl | rfl | rfl | rfl | rfl <;> rfl

section Scanned

variable {options : LexerOptions} {lexer : Lexer} {text : String} {tokens : List Token}

theorem isCommandToken_of_tokenize (hlexer : Lexer.build commandRules options = .ok lexer)
    (htokens : lexer.tokenize text = .ok tokens) :
    ∀ token ∈ tokens, token.IsCommandToken options.caseSensitive := by
  intro token htoken
  obtain ⟨⟨kind, pattern⟩, hentry, hkind, htakes⟩ :=
    Lexer.takes_of_tokenize (commandLexer_chooses hlexer) htokens token htoken
  obtain ⟨rule, hrule, after, hname, hvalue⟩ := Lexer.value_of_tokenize htokens token htoken
  rw [(Lexer.build_eq_ok hlexer).1] at hrule
  refine ⟨⟨pattern, ?_, htakes⟩, ?_⟩
  · rw [hkind]
    exact hentry
  · rw [hvalue, hname, action_of_commandRules hrule]

end Scanned

/-- A lexeme begins with a character that is no blank. -/
theorem exists_head_of_takes {caseSensitive : Bool} {kind : String} {pattern : Pattern}
    {lexeme : List Char} (hkind : (kind, pattern) ∈ commandPatterns caseSensitive)
    (htakes : pattern.Takes lexeme) :
    ∃ c others, lexeme = c :: others ∧ isBlank c = false := by
  have hdigit : ∀ {c}, c.isDigit = true → isBlank c = false := fun hc =>
    contains_eq_false_of_inter (by decide : digitSet.inter blankSet = .empty)
      (contains_digitSet.mpr hc)
  simp only [commandPatterns, List.mem_cons, Prod.mk.injEq, List.not_mem_nil, or_false] at hkind
  rcases hkind with ⟨rfl, rfl⟩ | ⟨rfl, rfl⟩ | ⟨rfl, rfl⟩ | ⟨rfl, rfl⟩ | ⟨rfl, rfl⟩ | ⟨rfl, rfl⟩ |
    ⟨rfl, rfl⟩
  · rcases htakes.isMarker_or_isNote with ⟨first, others, rfl, hletters⟩ | ⟨first, others, rfl, -⟩
    · exact ⟨first, _, rfl, isBlank_of_isWord (isWord_of_letterSet (hletters first (.head _)))⟩
    · exact ⟨':', _, rfl, by decide⟩
  · obtain ⟨first, others, inner, rfl, hfirst, -⟩ := exists_parts_of_takes htakes
    exact ⟨first, _, rfl, isBlank_of_isWord (isWord_of_callStart hfirst)⟩
  · have hname := htakes.isName
    obtain ⟨c, others, rfl⟩ := List.exists_cons_of_ne_nil hname.nonempty
    exact ⟨c, others, rfl, isBlank_of_isWord (hname.word c (.head _))⟩
  · obtain ⟨c, rfl, hc⟩ := htakes.eq_singleton
    have hblank : isBlank c = false :=
      contains_eq_false_of_inter (by decide : operatorSet.inter blankSet = .empty) hc
    exact ⟨c, [], rfl, hblank⟩
  · obtain ⟨c, others, rfl, hc⟩ := htakes.isNumber.exists_head
    exact ⟨c, others, rfl, hdigit hc⟩
  · obtain ⟨body, rfl, -⟩ := htakes.isLiteral
    exact ⟨'"', _, rfl, by decide⟩
  · exact ⟨';', [], htakes.eq_of_single, by decide⟩

theorem Token.IsCommandToken.lexeme_ne_nil {caseSensitive : Bool} {token : Token}
    (h : token.IsCommandToken caseSensitive) : token.lexeme.toList ≠ [] := by
  obtain ⟨⟨pattern, hkind, htakes⟩, -⟩ := h
  obtain ⟨c, others, hlexeme, -⟩ := exists_head_of_takes hkind htakes
  rw [hlexeme]
  exact List.cons_ne_nil c others

theorem isAlpha_of_letterSet {c : Char} (h : (letterSet true).contains c = true) :
    c.isAlpha = true := by
  rw [letterSet, if_pos rfl, CharSet.contains_union, Bool.or_eq_true] at h
  rcases h with h | h
  · have hupper : c.isUpper = true := decide_eq_true (contains_range.mp h)
    exact (Bool.or_eq_true _ _).mpr (.inl hupper)
  · obtain ⟨hlow, hhigh⟩ := contains_range.mp h
    have hlower : c.isLower = true :=
      (Bool.and_eq_true _ _).mpr ⟨decide_eq_true hlow, decide_eq_true hhigh⟩
    exact (Bool.or_eq_true _ _).mpr (.inr hlower)

namespace Lexer

/-! ## One step -/

section Step

variable {options : LexerOptions} {lexer : Lexer} {cursor : Cursor} {kind : String}
  {pattern : Pattern} {front others : List (String × Pattern)} {count : Nat}

/-- The pattern that prefers some text matches first where those before it have no match. -/
theorem matchAt?_choiceOf (hfront : ∀ earlier ∈ front, earlier.2.Fails cursor)
    (hprefers : pattern.Prefers cursor count) :
    (choiceOf (front ++ (kind, pattern) :: others)).matchAt? cursor =
      some (cursor.pass kind (cursor.skip count)) := by
  have hgroup (entry : String × Pattern) : (Pattern.group entry.1 entry.2).matchAt? cursor =
      (entry.2.matchAt? cursor).map (cursor.pass entry.1) := List.head?_map
  have hcons (entry other : String × Pattern) (entries : List (String × Pattern)) :
      (choiceOf (entry :: other :: entries)).matchAt? cursor =
        ((Pattern.group entry.1 entry.2).matchAt? cursor).or
          ((choiceOf (other :: entries)).matchAt? cursor) := List.head?_append
  have hmatch : pattern.matchAt? cursor = some (cursor.skip count) := hprefers []
  induction front with
  | nil =>
      cases others with
      | nil => exact (hgroup (kind, pattern)).trans (congrArg _ hmatch)
      | cons other others =>
          rw [List.nil_append, hcons, hgroup, hmatch]
          rfl
  | cons earlier front ih =>
      obtain ⟨hearlier, hothers⟩ := List.forall_mem_cons.mp hfront
      have hnone : earlier.2.matchAt? cursor = none := by
        rw [Pattern.matchAt?, hearlier []]
        rfl
      obtain ⟨other, rest, heq⟩ := List.exists_cons_of_ne_nil
        (List.append_ne_nil_of_right_ne_nil front (List.cons_ne_nil (kind, pattern) others))
      have ih := ih hothers
      rw [heq] at ih
      rw [List.cons_append, heq, hcons, hgroup, hnone, ih]
      rfl

/-- What is found where a group takes some characters. -/
theorem found_pass_skip (kind : String) {text : List Char} {place : Nat}
    (hcount : place + count ≤ text.length) :
    let cursor := (Cursor.start text).skip place
    cursor.found text (cursor.pass kind (cursor.skip count)) =
      ⟨⟨place, place + count⟩, [(kind, ⟨place, place + count⟩)]⟩ := by
  intro cursor
  have hspan : Span.ofLeft text cursor.rest.length (cursor.skip count).rest.length =
      ⟨place, place + count⟩ := by
    rw [Cursor.skip_add, Cursor.length_rest_start_skip, Cursor.length_rest_start_skip, Span.ofLeft,
      Span.mk.injEq]
    omega
  have hgroups : (cursor.skip count).groups = [] := by
    rw [Cursor.skip_add, Pattern.groups_skip]
    rfl
  rw [Cursor.found, Cursor.pass]
  dsimp only
  rw [hgroups, List.map_cons, hspan, List.map_nil]

/-- The rule of that pattern takes the text. -/
theorem match?_of_prefers (hlexer : build commandRules options = .ok lexer)
    (hpatterns : commandPatterns options.caseSensitive = front ++ (kind, pattern) :: others)
    {scanner : Scanner} {text passed : List Char} (hscanner : scanner.Passed text passed)
    (hcount : 0 < count) (hrest : count ≤ scanner.cursor.rest.length)
    (hfront : ∀ earlier ∈ front, earlier.2.Fails scanner.cursor)
    (hprefers : pattern.Prefers scanner.cursor count) :
    ∃ rule, lexer.match? scanner = some (rule, ⟨scanner.place, scanner.place + count⟩) ∧
      rule.name = kind ∧ ∀ after lexeme, rule.action after lexeme = commandValue kind lexeme := by
  obtain ⟨names, hpattern⟩ := (commandLexer_chooses hlexer).pattern
  obtain ⟨rule, hname, haction, hrule⟩ :=
    exists_rule_of_kind (hpatterns ▸ List.mem_append_cons_self)
  refine ⟨rule, ?_, hname, haction⟩
  have hcursor : (Cursor.start scanner.input).skip scanner.place = scanner.cursor := by
    rw [hscanner.input, hscanner.place_eq, ← hscanner.cursor]
  have hlength : scanner.place + count ≤ scanner.input.length := by
    have := congrArg List.length hscanner.drop_place
    rw [List.length_drop] at this
    omega
  have hfound := found_pass_skip kind hlength
  rw [hcursor] at hfound
  have hspan : Span.isEmpty ⟨scanner.place, scanner.place + count⟩ = false :=
    beq_eq_false_iff_ne.mpr (by dsimp only; omega)
  rw [match?, hpattern, hpatterns, Pattern.regex_matchAt? scanner.place_le, hcursor,
    matchAt?_choiceOf hfront hprefers, Option.map_some, hfound, Option.bind_eq_bind,
    Option.bind_some, hspan, ruleOf?, (build_eq_ok hlexer).1]
  exact hrule _

/-- After a gap comes the token whose pattern is the first that matches there. -/
theorem next_of_prefers (hlexer : build commandRules options = .ok lexer)
    (hpatterns : commandPatterns options.caseSensitive = front ++ (kind, pattern) :: others)
    {scanner : Scanner} {text passed gap lexeme after : List Char}
    (hscanner : scanner.Passed text passed) (hfailed : scanner.failed = false)
    (hrest : scanner.cursor.rest = gap ++ (lexeme ++ after))
    (hstart : lexer.skipBlanks scanner = scanner.goTo (scanner.place + gap.length))
    (hlexeme : lexeme ≠ [])
    (hfront : ∀ earlier ∈ front, earlier.2.Fails (scanner.cursor.skip gap.length))
    (hprefers : pattern.Prefers (scanner.cursor.skip gap.length) lexeme.length) :
    ∃ stepped, lexer.next scanner =
        (some (.ok ⟨kind, String.ofList lexeme, commandValue kind (String.ofList lexeme)⟩),
          stepped) ∧
      stepped.Passed text (passed ++ (gap ++ lexeme)) ∧ stepped.failed = false ∧
      stepped.cursor.rest = after := by
  have hmoved := hscanner.goTo hrest
  have hcursor : (scanner.goTo (scanner.place + gap.length)).cursor =
      scanner.cursor.skip gap.length := congrArg Scanner.cursor (scanner.goTo_add gap.length)
  rw [← hcursor] at hfront hprefers
  have hkept : (scanner.goTo (scanner.place + gap.length)).failed = false := hfailed
  have hrest' : (scanner.goTo (scanner.place + gap.length)).cursor.rest = lexeme ++ after := by
    rw [hcursor]
    exact Cursor.rest_skip_append hrest
  generalize scanner.goTo (scanner.place + gap.length) = moved at *
  have hnonempty : moved.cursor.rest ≠ [] := by
    rw [hrest']
    exact List.append_ne_nil_of_left_ne_nil hlexeme _
  obtain ⟨rule, hmatch, hname, haction⟩ := match?_of_prefers hlexer hpatterns hmoved
    (List.length_pos_iff.mpr hlexeme) (by rw [hrest', List.length_append]; omega) hfront hprefers
  have hready : ¬ (scanner.failed || scanner.done) = true := by
    simp [hfailed, Scanner.done, hrest, hlexeme]
  have htext : Span.textIn moved.input ⟨moved.place, moved.place + lexeme.length⟩ = lexeme :=
    textIn_of_drop (hmoved.drop_place.trans hrest')
  refine ⟨moved.goTo (moved.place + lexeme.length), ?_, ?_, hkept, ?_⟩
  · rw [next, if_neg hready, hstart]
    dsimp only
    split
    next hempty => exact absurd hempty hnonempty
    next =>
      rw [hmatch]
      simp only [htext, hname, haction]
  · rw [← List.append_assoc]
    exact hmoved.goTo hrest'
  · rw [moved.goTo_add]
    exact Cursor.rest_skip_append hrest'

theorem skipBlanks_of_gap (moves : lexer.MovesOn) {scanner : Scanner}
    {text passed gap rest : List Char}
    {c : Char} (hscanner : scanner.Passed text passed) (hgap : lexer.IsGap gap)
    (hrest : scanner.cursor.rest = gap ++ c :: rest) (hc : isBlank c = false) :
    lexer.skipBlanks scanner = scanner.goTo (scanner.place + gap.length) := by
  rw [skipBlanks]
  split
  · obtain ⟨found, hfound, hwhole⟩ := Option.map_eq_some_iff.mp (moves.blanks scanner.place_le)
    rw [hfound]
    dsimp only
    rw [hwhole, blanksAt, hscanner.drop_place, hrest, List.takeWhile_append_of_pos hgap.blank,
      List.takeWhile_cons_of_neg (by simp [hc]), List.append_nil]
  next homit =>
    rw [hgap.omitted (by simpa using homit), List.length_nil, scanner.goTo_add]
    rfl

/-- A token of the command notation is the next one, if it is an operator or apart from what comes
after it. A marker has to be the first one, and no blanks may be before it. -/
theorem next_of_token (hlexer : build commandRules options = .ok lexer) {token : Token}
    (htoken : token.IsCommandToken options.caseSensitive) {scanner : Scanner}
    {text passed gap after : List Char} (hscanner : scanner.Passed text passed)
    (hfailed : scanner.failed = false) (hgap : lexer.IsGap gap)
    (hrest : scanner.cursor.rest = gap ++ (token.lexeme.toList ++ after))
    (hafter : token.kind = Kind.operator ∨ Apart after)
    (hline : IsMarker options.caseSensitive token.lexeme.toList → passed ++ gap = []) :
    ∃ stepped, lexer.next scanner = (some (.ok token), stepped) ∧
      stepped.Passed text (passed ++ (gap ++ token.lexeme.toList)) ∧ stepped.failed = false ∧
      stepped.cursor.rest = after := by
  obtain ⟨⟨pattern, hkind, htakes⟩, hvalue⟩ := htoken
  obtain ⟨c, others, hlexeme, hc⟩ := exists_head_of_takes hkind htakes
  have hstart := skipBlanks_of_gap (movesOn_of_commandLexer hlexer) hscanner hgap
    (by rw [hrest, hlexeme]; rfl) hc
  have hplace := (hscanner.goTo hrest).cursor
  rw [scanner.goTo_add] at hplace
  have hlineStart : IsMarker options.caseSensitive token.lexeme.toList →
      Pattern.Assertion.lineStart.holds (scanner.cursor.skip gap.length) = true := by
    intro hmarker
    rw [hline hmarker] at hplace
    rw [show scanner.cursor.skip gap.length = _ from hplace]
    rfl
  obtain ⟨front, later, hpatterns, hfront, hprefers⟩ :=
    Pattern.prefers_of_takes hkind htakes hlineStart (Cursor.rest_skip_append hrest) hafter
  obtain ⟨stepped, hnext, hstepped⟩ :=
    next_of_prefers hlexer hpatterns hscanner hfailed hrest hstart
    (by rw [hlexeme]; nofun) hfront hprefers
  refine ⟨stepped, ?_, hstepped⟩
  rw [hnext, String.ofList_toList, ← hvalue]

end Step

/-! ## Whole texts -/

section Texts

variable {options : LexerOptions} {lexer : Lexer}

/-- With nothing left there are no more tokens. -/
theorem run_of_empty {scanner : Scanner} (hrest : scanner.cursor.rest = []) (fuel : Nat) :
    lexer.run fuel scanner = ⟨[], none, scanner⟩ := by
  cases fuel with
  | zero => rfl
  | succ fuel =>
      have hnext : lexer.next scanner = (none, scanner) :=
        next_of_halts (Halts.done hrest : Halts [] [] scanner none)
      rw [run, hnext]

/-- A scan of the first token and a run of the others make up a scan. -/
theorem tokenize_of_next {text : String} {first : Token} {others : List Token} {stepped : Scanner}
    (hnext : lexer.next (.start text) = (some (.ok first), stepped))
    (hothers : (lexer.run text.toList.length stepped).tokens.map (·.1) = others)
    (hfault : (lexer.run text.toList.length stepped).fault = none) :
    lexer.tokenize text = .ok (first :: others) := by
  have hscan : lexer.scan text =
      let scan := lexer.run text.toList.length stepped
      { scan with tokens := (first, stepped) :: scan.tokens } := by
    rw [scan, run, hnext]
  rw [tokenize, hscan]
  dsimp only
  rw [hfault, List.map_cons, hothers]

/-- A line that is a name with what it encloses in parentheses is one call. -/
theorem tokenize_call (hlexer : build commandRules options = .ok lexer) {text : String}
    {first : Char}
    {others inner : List Char}
    (hfirst : (callStart options.caseSensitive).contains first = true)
    (hothers : ∀ c ∈ others, isWord c = true) (hinner : Enclosed inner)
    (htext : text.toList = first :: others ++ '(' :: (inner ++ [')'])) :
    lexer.tokenize text = .ok [Token.plain Kind.call text] := by
  let start := (Scanner.start text).cursor
  have hrest : start.rest = [] ++ (text.toList ++ []) := (List.append_nil _).symm
  have hskip : (start.skip 0).rest = first :: others ++ '(' :: (inner ++ [')']) := htext
  have hword : ∀ c ∈ first :: others, isWord c = true :=
    List.forall_mem_cons.mpr ⟨isWord_of_callStart hfirst, hothers⟩
  have hmarks : (annotationPattern options.caseSensitive).Fails (start.skip 0) := by
    refine Pattern.fails_annotation hword ?_ hskip
    rintro _ ⟨⟩
    decide
  have hfront : ∀ earlier ∈ (commandPatterns options.caseSensitive).take 1,
      earlier.2.Fails (start.skip 0) := List.forall_mem_singleton.mpr hmarks
  have hlength : text.toList.length = 1 + others.length + 1 + inner.length + 1 := by
    rw [htext]
    simp only [List.length_append, List.length_cons, List.length_nil]
    omega
  have hcall : (callPattern options.caseSensitive).Prefers (start.skip 0) text.toList.length :=
    hlength ▸ Pattern.prefers_call hfirst hothers hinner hskip
  have hstart := skipBlanks_of_gap (movesOn_of_commandLexer hlexer) (Scanner.Passed.start text) .nil
    htext (isBlank_of_isWord (isWord_of_callStart hfirst))
  obtain ⟨stepped, hnext, -, -, hdone⟩ := next_of_prefers hlexer rfl (Scanner.Passed.start text)
    rfl hrest hstart (by rw [htext]; nofun) hfront hcall
  rw [String.ofList_toList] at hnext
  refine tokenize_of_next hnext ?_ ?_ <;> rw [run_of_empty hdone]
  rfl

/-- The lexemes of tokens as a text, with a gap before each of them. -/
def spaced (entries : List (String × Token)) : String :=
  String.join (entries.map fun (gap, token) => gap ++ token.lexeme)

theorem toList_spaced_cons (entry : String × Token) (entries : List (String × Token)) :
    (spaced (entry :: entries)).toList =
      entry.1.toList ++ (entry.2.lexeme.toList ++ (spaced entries).toList) := by
  rw [spaced, spaced, String.toList_join, String.toList_join]
  simp

/-- A token within a text: it has blanks before it, and it is no marker. -/
structure IsInner (caseSensitive : Bool) (entry : String × Token) : Prop where
  gap : entry.1 ≠ ""
  blank : ∀ c ∈ entry.1.toList, isBlank c = true
  token : entry.2.IsCommandToken caseSensitive
  notMarker : ¬ IsMarker caseSensitive entry.2.lexeme.toList

theorem apart_spaced {caseSensitive : Bool} {entries : List (String × Token)}
    (h : ∀ entry ∈ entries, IsInner caseSensitive entry) : Apart (spaced entries).toList := by
  cases entries with
  | nil => exact .nil
  | cons entry entries =>
      obtain ⟨hgap, hblank, -, -⟩ := h entry (.head _)
      intro c hc
      rw [toList_spaced_cons, List.head?_append] at hc
      obtain ⟨d, others, hgap⟩ := List.exists_cons_of_ne_nil (mt String.toList_eq_nil_iff.mp hgap)
      rw [hgap] at hc hblank
      cases hc
      exact hblank _ (.head _)

/-- Tokens that are scanned one by one from their lexemes with gaps before them. None of them is a
marker, and each is an operator or apart from what comes after it. -/
inductive Scannable (lexer : Lexer) (caseSensitive : Bool) : List (String × Token) → Prop
  | nil : Scannable lexer caseSensitive []
  | cons {gap : String} {token : Token} {entries : List (String × Token)} :
      lexer.IsGap gap.toList → token.IsCommandToken caseSensitive →
      ¬ IsMarker caseSensitive token.lexeme.toList →
      (token.kind = Kind.operator ∨ Apart (spaced entries).toList) →
      Scannable lexer caseSensitive entries →
      Scannable lexer caseSensitive ((gap, token) :: entries)

variable (hlexer : build commandRules options = .ok lexer)
include hlexer

/-- A run goes on token by token. -/
theorem run_of_scannable {text : List Char} {entries : List (String × Token)}
    (h : lexer.Scannable options.caseSensitive entries) :
    ∀ {fuel : Nat} {scanner : Scanner} {passed : List Char}, scanner.Passed text passed →
    scanner.failed = false → scanner.cursor.rest = (spaced entries).toList →
    scanner.cursor.rest.length < fuel →
    (lexer.run fuel scanner).tokens.map (·.1) = entries.map (·.2) ∧
      (lexer.run fuel scanner).fault = none := by
  induction h with
  | nil =>
      intro fuel scanner passed _ _ hrest _
      rw [run_of_empty hrest]
      exact ⟨rfl, rfl⟩
  | @cons gap token entries hgap htoken hnotMarker hafter _ ih =>
      intro fuel scanner passed hscanner hfailed hrest hfuel
      match fuel, hfuel with
      | fuel + 1, hfuel =>
          replace hrest : scanner.cursor.rest =
              gap.toList ++ (token.lexeme.toList ++ (spaced entries).toList) :=
            hrest.trans (toList_spaced_cons _ _)
          obtain ⟨stepped, hnext, hpassed, hfailed, hstepped⟩ := next_of_token hlexer htoken
            hscanner hfailed hgap hrest hafter fun hmarker => absurd hmarker hnotMarker
          -- No lexeme is empty, so each step takes something and the fuel lasts.
          have hless : stepped.cursor.rest.length < fuel := by
            have := List.length_pos_iff.mpr htoken.lexeme_ne_nil
            rw [hrest, List.length_append, List.length_append] at hfuel
            rw [hstepped]
            omega
          obtain ⟨htokens, hfault⟩ := ih hpassed hfailed hstepped hless
          rw [run, hnext]
          exact ⟨congrArg _ htokens, hfault⟩

theorem tokenize_scannable {entries : List (String × Token)}
    (h : lexer.Scannable options.caseSensitive entries) :
    lexer.tokenize (spaced entries) = .ok (entries.map (·.2)) := by
  have hfuel : (spaced entries).toList.length < (spaced entries).toList.length + 1 :=
    Nat.lt_succ_self _
  obtain ⟨htokens, hfault⟩ :=
    run_of_scannable hlexer h (Scanner.Passed.start (spaced entries)) rfl rfl hfuel
  rw [tokenize, scan, hfault, htokens]

section Blanks

variable (homit : options.omitBlanks = true)
include homit

theorem isGap_of_blank {gap : List Char} (h : ∀ c ∈ gap, isBlank c = true) : lexer.IsGap gap := by
  refine ⟨h, fun hkept => ?_⟩
  rw [(build_eq_ok hlexer).2.1, homit] at hkept
  cases hkept

theorem scannable_of_inner {entries : List (String × Token)} :
    (∀ entry ∈ entries, IsInner options.caseSensitive entry) →
    lexer.Scannable options.caseSensitive entries := by
  induction entries with
  | nil => exact fun _ => .nil
  | cons entry entries ih =>
      intro h
      obtain ⟨hentry, hentries⟩ := List.forall_mem_cons.mp h
      exact .cons (isGap_of_blank hlexer homit hentry.blank) hentry.token hentry.notMarker
        (.inr (apart_spaced hentries)) (ih hentries)

/-- The lexemes of tokens are scanned one by one if there are gaps between them. -/
theorem tokenize_spaced {first : Token} {others : List (String × Token)}
    (hfirst : first.IsCommandToken options.caseSensitive)
    (hothers : ∀ entry ∈ others, IsInner options.caseSensitive entry) :
    lexer.tokenize (first.lexeme ++ spaced others) = .ok (first :: others.map (·.2)) := by
  have htext : (first.lexeme ++ spaced others).toList =
      first.lexeme.toList ++ (spaced others).toList := String.toList_append
  obtain ⟨stepped, hnext, hpassed, hfailed, hstepped⟩ := next_of_token hlexer hfirst
    (Scanner.Passed.start (first.lexeme ++ spaced others)) rfl .nil htext
    (.inr (apart_spaced hothers)) fun _ => rfl
  have hless : stepped.cursor.rest.length < (first.lexeme ++ spaced others).toList.length := by
    have := List.length_pos_iff.mpr hfirst.lexeme_ne_nil
    rw [hstepped, htext, List.length_append]
    omega
  obtain ⟨htokens, hfault⟩ := run_of_scannable hlexer (scannable_of_inner hlexer homit hothers)
    hpassed hfailed hstepped hless
  exact tokenize_of_next hnext htokens hfault

end Blanks

end Texts

/-! ## Tokens within a line -/

section Within

variable {options : LexerOptions} {lexer : Lexer} {text passed : List Char}
  {scanner after : Scanner}
  {token : Token}

/-- A scanner that has passed something of a text without line breaks. -/
structure Within (text : List Char) (scanner : Scanner) : Prop where
  passed : ∃ passed ≠ [], scanner.Passed text passed
  failed : scanner.failed = false

theorem lineStart_of_passed (h : scanner.Passed text passed) (hpassed : passed ≠ [])
    (hline : '\n' ∉ text) : Pattern.Assertion.lineStart.holds scanner.cursor = false := by
  have hlast := List.getLast?_eq_some_getLast hpassed
  have hbefore : scanner.cursor.before = some (passed.getLast hpassed) := by
    rw [h.cursor, Cursor.before_skip h.split, hlast]
    rfl
  rw [Pattern.Assertion.holds, hbefore, Option.all_some, beq_eq_false_iff_ne]
  rintro hnewline
  refine hline ?_
  rw [h.split, ← hnewline]
  exact List.mem_append_left _ (List.getLast_mem hpassed)

/-- What comes next within a line is no marker. -/
theorem notMarker_of_next (hlexer : build commandRules options = .ok lexer) (hline : '\n' ∉ text)
    (h : Within text scanner) (hnext : lexer.next scanner = (some (.ok token), after)) :
    ¬ IsMarker options.caseSensitive token.lexeme.toList ∧ Within text after := by
  obtain ⟨⟨passed, hpassed, hscanner⟩, hfailed⟩ := h
  have hsteps := steps_next (movesOn_of_commandLexer hlexer) hscanner hfailed
  rw [hnext] at hsteps
  cases hsteps with
  | @taken gap _ _ hgap _ hafter hok =>
      refine ⟨?_, ⟨_, List.append_ne_nil_of_left_ne_nil hpassed _, hafter⟩, hok⟩
      rintro ⟨first, others, hmarker, hletters⟩
      have hrest : scanner.cursor.rest = gap ++ (first :: others ++ ':' :: after.cursor.rest) := by
        have hsplit := hscanner.split.symm.trans hafter.split
        rw [hmarker] at hsplit
        simpa using hsplit
      have hmoved := hscanner.goTo hrest
      rw [scanner.goTo_add] at hmoved
      -- The rule for names would have taken the letters alone.
      obtain ⟨hfront, hname⟩ := Pattern.prefers_name_within hletters
        (lineStart_of_passed hmoved (List.append_ne_nil_of_left_ne_nil hpassed _) hline)
        (Cursor.rest_skip_append hrest)
      have hstart := skipBlanks_of_gap (movesOn_of_commandLexer hlexer) hscanner hgap hrest
        (isBlank_of_isWord (isWord_of_letterSet (hletters first (.head _))))
      obtain ⟨_, hother, -⟩ := next_of_prefers hlexer rfl hscanner hfailed hrest hstart nofun
        hfront hname
      rw [hnext] at hother
      cases hother
      simp at hmarker

theorem exists_next_of_tokenize {text : String} {first : Token} {others : List Token}
    (h : lexer.tokenize text = .ok (first :: others)) : ∃ stepped,
      lexer.next (.start text) = (some (.ok first), stepped) ∧
      others = (lexer.run text.toList.length stepped).tokens.map (·.1) := by
  rw [tokenize, scan, run] at h
  rcases hnext : lexer.next (.start text) with ⟨_ | fault | token, stepped⟩ <;> rw [hnext] at h
  · cases h
  · cases h
  · dsimp only at h
    split at h
    · cases h
    · cases h
      exact ⟨stepped, rfl, rfl⟩

/-- After the first token of a line come no markers. -/
theorem notMarker_of_tokenize (hlexer : build commandRules options = .ok lexer) {text : String}
    (hline : '\n' ∉ text.toList) {first : Token} {others : List Token}
    (h : lexer.tokenize text = .ok (first :: others)) :
    ∀ token ∈ others, ¬ IsMarker options.caseSensitive token.lexeme.toList := by
  obtain ⟨stepped, hnext, rfl⟩ := exists_next_of_tokenize h
  have hsteps := steps_next (movesOn_of_commandLexer hlexer) (Scanner.Passed.start text) rfl
  rw [hnext] at hsteps
  cases hsteps with
  | @taken gap _ _ _ hlexeme hafter hok =>
      have hwithin : Within text.toList stepped :=
        ⟨⟨_, List.append_ne_nil_of_right_ne_nil _ hlexeme, hafter⟩, hok⟩
      intro token htoken
      obtain ⟨entry, hentry, rfl⟩ := List.mem_map.mp htoken
      exact run_induction (fun _ _ _ => notMarker_of_next hlexer hline) hwithin entry hentry

end Within

/-- The lexemes of tokens with single blanks between them. -/
theorem intercalate_eq_spaced (first : Token) (others : List Token) :
    " ".intercalate ((first :: others).map Token.lexeme) =
      first.lexeme ++ spaced (others.map (" ", ·)) := by
  apply String.toList_injective
  rw [String.toList_intercalate, String.toList_append]
  induction others generalizing first with
  | nil => simp [spaced]
  | cons second others ih =>
      have hspaced : (spaced ((second :: others).map (" ", ·))).toList =
          " ".toList ++ (second.lexeme.toList ++ (spaced (others.map (" ", ·))).toList) :=
        toList_spaced_cons (" ", second) _
      rw [hspaced, ← ih second]
      simp

end Lexer

/-- The text is letters with a colon after them. -/
def isStartMarker (text : String) : Bool :=
  match text.toList.reverse with
  | ':' :: letters => !letters.isEmpty && letters.all Char.isAlpha
  | _ => false

theorem isStartMarker_of_isMarker {text : String} (h : IsMarker true text.toList) :
    isStartMarker text = true := by
  obtain ⟨first, others, htext, hletters⟩ := h
  have hreverse : text.toList.reverse = ':' :: (first :: others).reverse := by
    rw [htext, List.reverse_append]
    rfl
  have hall : ((first :: others).reverse.all Char.isAlpha) = true := by
    rw [List.all_reverse, List.all_eq_true]
    exact fun c hc => isAlpha_of_letterSet (hletters c hc)
  rw [isStartMarker, hreverse]
  show (!(first :: others).reverse.isEmpty && (first :: others).reverse.all Char.isAlpha) = true
  rw [List.isEmpty_reverse, hall]
  rfl

/-- Lexemes that make up one token each when they are scanned alone make up the same tokens with
blanks between them, if only the first is a marker. So the lexemes of a line with single blanks
between them make up its tokens again. -/
theorem tokens_of_lexemes_with_gaps {lexer : Lexer}
    (hlexer : Lexer.build commandRules {} = .ok lexer) :
    (∀ (first : Token) (others : List (String × Token)),
      (∀ token ∈ first :: others.map (·.2), lexer.tokenize token.lexeme = .ok [token]) →
      (∀ entry ∈ others, entry.1 ≠ "" ∧ entry.1.toList.all isBlank = true ∧
        isStartMarker entry.2.lexeme = false) →
      lexer.tokenize (first.lexeme ++ Lexer.spaced others) = .ok (first :: others.map (·.2))) ∧
    ∀ (text : String) (tokens : List Token), '\n' ∉ text.toList → lexer.tokenize text = .ok tokens →
      lexer.tokenize (" ".intercalate (tokens.map Token.lexeme)) = .ok tokens := by
  constructor
  · intro first others halone hothers
    have htoken : ∀ token ∈ first :: others.map (·.2), token.IsCommandToken true :=
      fun token htoken => isCommandToken_of_tokenize hlexer (halone token htoken) token (.head _)
    refine Lexer.tokenize_spaced hlexer rfl (htoken first (.head _)) fun entry hentry => ?_
    obtain ⟨hgap, hblank, hmarker⟩ := hothers entry hentry
    refine ⟨hgap, List.all_eq_true.mp hblank, htoken entry.2 (.tail _ (List.mem_map_of_mem hentry)),
      fun h => ?_⟩
    rw [isStartMarker_of_isMarker h] at hmarker
    cases hmarker
  · intro text tokens hline htokens
    have htoken := isCommandToken_of_tokenize hlexer htokens
    cases tokens with
    | nil =>
        rw [Lexer.tokenize, Lexer.scan, Lexer.run_of_empty rfl]
        rfl
    | cons first others =>
        have hnotMarker := Lexer.notMarker_of_tokenize hlexer hline htokens
        have hinner : ∀ entry ∈ others.map (" ", ·), Lexer.IsInner true entry := by
          intro entry hentry
          obtain ⟨token, hother, rfl⟩ := List.mem_map.mp hentry
          have hblank : ∀ c ∈ " ".toList, isBlank c = true :=
            List.all_eq_true.mp (by decide)
          exact ⟨by simp, hblank, htoken token (.tail _ hother), hnotMarker token hother⟩
        have htokens : (others.map (" ", ·)).map Prod.snd = others := by
          rw [List.map_map]
          exact List.map_id _
        rw [Lexer.intercalate_eq_spaced,
          Lexer.tokenize_spaced hlexer rfl (htoken first (.head _)) hinner, htokens]

/-- A call and a note with blanks before each of them. -/
def callAndNote : List (String × Token) :=
  [("\t", .plain Kind.call "h(0, (1))"), (" \n", .plain Kind.annotation ":x:")]

/-- A marker is the first token of a line, and a note comes later, after a line break too. -/
theorem tokens_of_marked_lexemes : ∃ lexer, Lexer.build commandRules {} = .ok lexer ∧
    let tokens := Token.plain Kind.annotation "step:" :: callAndNote.map (·.2)
    (∀ token ∈ tokens, lexer.tokenize token.lexeme = .ok [token]) ∧
    lexer.tokenize "step:\th(0, (1)) \n:x:" = .ok tokens ∧
    lexer.tokenize "step:h(0, (1)):x:" = .ok tokens ∧
    lexer.tokenize "step: h(0, (1)) :x:" = .ok tokens := by
  obtain ⟨lexer, hlexer, hline⟩ := exists_lexer_of_tokens {} "step:h(0, (1)):x:"
    (Token.plain Kind.annotation "step:" :: callAndNote.map (·.2)) (by decide +kernel)
  obtain ⟨happart, hagain⟩ := tokens_of_lexemes_with_gaps hlexer
  have halone : ∀ token ∈ Token.plain Kind.annotation "step:" :: callAndNote.map (·.2),
      lexer.tokenize token.lexeme = .ok [token] := by
    have hread : ∀ token ∈ Token.plain Kind.annotation "step:" :: callAndNote.map (·.2),
        ((commandLexer {}).tokenize token.lexeme).toOption = some [token] := by
      decide +kernel
    intro token htoken
    obtain ⟨_, hother, htokens⟩ :=
      exists_lexer_of_tokens {} token.lexeme [token] (hread token htoken)
    cases hlexer.symm.trans hother
    exact htokens
  have hgaps : ∀ entry ∈ callAndNote, entry.1 ≠ "" ∧ entry.1.toList.all isBlank = true ∧
      isStartMarker entry.2.lexeme = false := by
    decide +kernel
  have hspaced := happart _ _ halone hgaps
  have hjoined := hagain _ _ (by decide) hline
  have htext : "step:" ++ Lexer.spaced callAndNote = "step:\th(0, (1)) \n:x:" := by decide +kernel
  have hagainText : " ".intercalate ((Token.plain Kind.annotation "step:" ::
      callAndNote.map (·.2)).map Token.lexeme) = "step: h(0, (1)) :x:" := by
    decide +kernel
  exact ⟨lexer, hlexer, halone, htext ▸ hspaced, hline, hagainText ▸ hjoined⟩

end QubitScript
