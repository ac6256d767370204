import QubitScript.Lexer.Scanner
import QubitScript.Proofs.Lexer.Building

/-!
# The first rule decides

A text is scanned with one pattern for all rules. It is searched for from the cursor on, only a
match at the cursor counts, and the groups that have a part in this match tell its rule. Where every
pattern stands for itself, that comes to the same as trying the rules one at a time, each with its
own pattern: the first one that matches at the cursor decides. A comment that a pattern leaves open
goes on into the patterns after it, so that rules are lost which match on their own.
-/

namespace QubitScript

theorem Scanner.place_le (scanner : Scanner) : scanner.place ≤ scanner.input.length :=
  Nat.sub_le _ _

/-! ## Ways to the next token -/

/-- One step of a scanner that finds the next token, and the rule for it, in this way. -/
def Scanner.stepBy (omitBlanks : Bool) (find : Scanner → Option (Rule × Span)) (scanner : Scanner) :
    Option (Except LexFault Token) × Scanner :=
  if scanner.failed || scanner.done then (none, scanner)
  else
    let scanner :=
      if omitBlanks then scanner.goTo (blanksAt scanner.input scanner.place).stop else scanner
    match scanner.cursor.rest with
    | [] => (none, scanner)
    | c :: _ =>
      match find scanner with
      | none => (some (.error ⟨scanner.line, ⟨c⟩⟩), { scanner with failed := true })
      | some (rule, span) =>
        let lexeme := String.ofList (span.textIn scanner.input)
        let after := scanner.goTo span.stop
        (some (.ok ⟨rule.name, lexeme, rule.action after lexeme⟩), after)

/-- The match of a rule at a place, its pattern being compiled on its own. -/
def Rule.matchAt? (engine : Engine) (dialect : Pattern.Dialect) (text : List Char) (place : Nat)
    (rule : Rule) : Option Found :=
  (rule.regex? engine dialect).bind (·.matchAt? text place)

namespace Lexer

/-- The first of the rules that matches at a place, and its match. -/
def firstMatch? (engine : Engine) (dialect : Pattern.Dialect) (rules : List Rule) (text : List Char)
    (place : Nat) : Option (Rule × Found) :=
  rules.findSome? fun rule => (rule.matchAt? engine dialect text place).map (rule, ·)

/-- Tries the rules one at a time. The first one that matches at the cursor decides, also when its
match is empty and there is no token. -/
def tryRules? (engine : Engine) (dialect : Pattern.Dialect) (rules : List Rule)
    (scanner : Scanner) :
    Option (Rule × Span) :=
  (firstMatch? engine dialect rules scanner.input scanner.place).bind fun (rule, found) =>
    if found.whole.isEmpty then none else some (rule, found.whole)

variable {engine : Engine} {dialect : Pattern.Dialect} {options : LexerOptions} {rules : List Rule}
  {lexer : Lexer} {text : List Char} {place : Nat} {rule : Rule} {found : Found}

/-! ## The groups of the rules -/

theorem findSome?_foundAt? : rules.findSome? (Rule.foundAt? engine dialect text place) =
    (firstMatch? engine dialect rules text place).map fun (rule, found) =>
      found.named rule.name := by
  rw [firstMatch?, List.map_findSome?]
  congr 1
  funext rule
  rw [Function.comp_apply, Option.map_map]
  rfl

theorem mem_of_firstMatch? (h : firstMatch? engine dialect rules text place = some (rule, found)) :
    rule ∈ rules ∧ rule.matchAt? engine dialect text place = some found := by
  obtain ⟨other, hother, hmatch⟩ := List.exists_of_findSome?_eq_some h
  obtain ⟨_, hfound, ⟨⟩⟩ := Option.map_eq_some_iff.mp hmatch
  exact ⟨hother, hfound⟩

/-- In the match of a rule only groups of the rule have a part. -/
theorem groups_of_matchAt? (laws : engine.LeftmostFirst) (hplace : place ≤ text.length)
    (h : rule.matchAt? engine dialect text place = some found) :
    ∀ group ∈ (found.named rule.name).groups, group.1 ∈ rule.groupNames engine dialect := by
  obtain ⟨regex, hregex, hfound⟩ := Option.bind_eq_some_iff.mp h
  have hknown := (laws.wellFormed (Rule.regex?_eq_some.mp hregex)).known hplace
    (Option.filter_eq_some_iff.mp hfound).1
  rw [Rule.groupNames, hregex]
  exact List.forall_mem_cons.mpr ⟨.head _, fun group hgroup => .tail _ (hknown group hgroup)⟩

/-- Where no two groups have the same name, the groups of one rule tell that rule and no other. -/
theorem findSome?_of_groups {span : Span} :
    (rules.flatMap (Rule.groupNames engine dialect)).Nodup → rule ∈ rules →
    (∀ group ∈ found.groups, group.1 ∈ rule.groupNames engine dialect) →
    found.group? rule.name = some span →
    rules.findSome? (fun other => (found.group? other.name).map (other, ·)) =
      some (rule, span) := by
  induction rules with
  | nil => exact fun _ => nofun
  | cons first rules ih =>
      intro hnodup hrule hgroups hspan
      rw [List.flatMap_cons, List.nodup_append] at hnodup
      obtain ⟨-, hothers, hdisjoint⟩ := hnodup
      rcases List.mem_cons.mp hrule with rfl | hrule
      · rw [List.findSome?_cons, hspan]
        rfl
      · -- All groups of the match are of a later rule, so the first one's is not among them.
        have hfirst : found.group? first.name = none := by
          rw [Found.group?, List.lookup_eq_none_iff]
          intro group hgroup
          rw [bne_iff_ne]
          exact hdisjoint _ (.head _) _ (List.mem_flatMap.mpr ⟨rule, hrule, hgroups group hgroup⟩)
        rw [List.findSome?_cons, hfirst]
        exact ih hothers hrule hgroups hspan

/-! ## One pattern for all rules -/

/-- What the lexer takes at the cursor is what the first rule takes that matches there. -/
theorem match?_eq_tryRules? (laws : engine.LeftmostFirst)
    (h : buildWith engine rules options = .ok lexer)
    (hclosed : ∀ rule ∈ rules, engine.SelfContained options.dialect rule.pattern)
    (scanner : Scanner) :
    lexer.match? scanner = tryRules? engine options.dialect rules scanner := by
  obtain ⟨hrules, hfaultless, rfl, -, hpattern, -⟩ := buildWith_eq_ok.mp h
  obtain ⟨hnames, hmatch⟩ := laws.joined (joins_of_faultless hfaultless hclosed) hrules hpattern
  have hplace := scanner.place_le
  rw [match?, hmatch hplace, findSome?_foundAt?, tryRules?, Option.bind_eq_bind, Option.bind_map]
  cases hfirst : firstMatch? engine options.dialect lexer.rules scanner.input scanner.place with
  | none => rfl
  | some pair =>
      obtain ⟨rule, found⟩ := pair
      obtain ⟨hrule, hfound⟩ := mem_of_firstMatch? hfirst
      -- A pattern has no two groups of one name, so the groups of the match tell its rule.
      have hruleOf : lexer.ruleOf? (found.named rule.name) = some (rule, found.whole) :=
        findSome?_of_groups (hnames ▸ (laws.wellFormed hpattern).distinct) hrule
          (groups_of_matchAt? laws hplace hfound) List.lookup_cons_self
      change (if found.whole.isEmpty then none else lexer.ruleOf? (found.named rule.name)) =
        if found.whole.isEmpty then none else some (rule, found.whole)
      rw [hruleOf]

/-- A lexer that skips blanks as many as there are does one step by what it takes at the cursor. -/
theorem next_eq_stepBy (hblanks : ∀ {text : List Char} {place : Nat}, place ≤ text.length →
      (lexer.blanks.matchAt? text place).map (·.whole) = some (blanksAt text place))
    (scanner : Scanner) :
    lexer.next scanner = scanner.stepBy lexer.options.omitBlanks lexer.match? := by
  obtain ⟨found, hfound, hwhole⟩ := Option.map_eq_some_iff.mp (hblanks scanner.place_le)
  have hskipped : lexer.skipBlanks scanner =
      if lexer.options.omitBlanks then
        scanner.goTo (blanksAt scanner.input scanner.place).stop
      else scanner := by
    rw [skipBlanks, hfound, ← hwhole]
  unfold next
  rw [hskipped]
  rfl

end Lexer

/-- The next token that is found with one pattern for all rules is the one found by trying the rules
one at a time, wherever the scanner is, with any engine that keeps the laws. Every pattern of the
table must stand for itself. -/
theorem next_token_of_first_rule {engine : Engine} (laws : engine.LeftmostFirst) {rules : List Rule}
    {options : LexerOptions} {lexer : Lexer} (h : Lexer.buildWith engine rules options = .ok lexer)
    (hclosed : ∀ rule ∈ rules, engine.SelfContained options.dialect rule.pattern)
    (scanner : Scanner) : lexer.next scanner =
      scanner.stepBy options.omitBlanks (Lexer.tryRules? engine options.dialect rules) := by
  obtain ⟨-, -, -, rfl, -, hblanks⟩ := Lexer.buildWith_eq_ok.mp h
  rw [Lexer.next_eq_stepBy (laws.blanks hblanks), funext (Lexer.match?_eq_tryRules? laws h hclosed)]

/-- What a built lexer evaluates to, as a fact about it. -/
theorem exists_lexer_of_map {α : Type} (rules : List Rule) (options : LexerOptions) (f : Lexer → α)
    {value : α} (h : (Lexer.build rules options).toOption.map f = some value) :
    ∃ lexer, Lexer.build rules options = .ok lexer ∧ f lexer = value := by
  obtain ⟨lexer, hlexer, hvalue⟩ := Option.map_eq_some_iff.mp h
  cases hbuild : Lexer.build rules options with
  | error fault =>
      rw [hbuild] at hlexer
      cases hlexer
  | ok built =>
      rw [hbuild] at hlexer
      cases hlexer
      exact ⟨lexer, rfl, hvalue⟩

/-- Words, which may be empty, before digits. -/
def wordsBeforeDigits : List Rule :=
  [{ name := "WORD", pattern := "[a-z]*" }, { name := "DIGIT", pattern := "[0-9]" }]

/-- An empty word comes before a digit and decides, so the digit is unknown. -/
theorem unknown_after_empty_word : ∃ lexer, Lexer.build wordsBeforeDigits {} = .ok lexer ∧
    (lexer.next ⟨"let 1".toList, (Cursor.start "let 1".toList).skip 0, false⟩).1 =
      some (.ok ⟨"WORD", "let", some "let"⟩) ∧
    (lexer.next ⟨"let 1".toList, (Cursor.start "let 1".toList).skip 3, false⟩).1 =
      some (.error ⟨1, ⟨'1'⟩⟩) := by
  obtain ⟨lexer, hlexer, -⟩ := exists_lexer_of_map wordsBeforeDigits {} Lexer.names
    (show _ = some ["WORD", "DIGIT"] by decide +kernel)
  have hclosed : ∀ rule ∈ wordsBeforeDigits, Pattern.engine.SelfContained
      (LexerOptions.dialect {}) rule.pattern := Pattern.selfContained_of_all (by decide +kernel)
  refine ⟨lexer, hlexer, ?_, ?_⟩
  · rw [next_token_of_first_rule Pattern.engine_leftmostFirst hlexer hclosed]
    decide +kernel
  · rw [next_token_of_first_rule Pattern.engine_leftmostFirst hlexer hclosed]
    decide +kernel

/-- A rule that leaves a comment open, before one that ends the comment. -/
def openComment : List Rule :=
  [{ name := "A", pattern := "(?x)a #" }, { name := "B", pattern := "b\nc" }]

/-- The comment takes the end of the first group, so that of the joined pattern only `ac` is a
match. The first rule alone would find a token. -/
theorem comment_hides_rule : ∃ lexer, Lexer.build openComment {} = .ok lexer ∧
    (lexer.next (.start "a")).1 = some (.error ⟨1, ⟨'a'⟩⟩) ∧
    ((Scanner.start "a").stepBy true
      (Lexer.tryRules? Pattern.engine (LexerOptions.dialect {}) openComment)).1 =
        some (.ok ⟨"A", "a", some "a"⟩) := by
  obtain ⟨lexer, hlexer, hnext⟩ := exists_lexer_of_map openComment {}
    (fun lexer => (lexer.next (.start "a")).1)
    (show _ = some (some (.error ⟨1, ⟨'a'⟩⟩)) by decide +kernel)
  exact ⟨lexer, hlexer, hnext, by decide +kernel⟩

end QubitScript
