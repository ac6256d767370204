import QubitScript.Lexer.Basic
import QubitScript.Text.Blank

/-!
# What is asked of a pattern engine

A lexer joins the texts of its patterns and leaves the rest to an engine. What it may rely on are a
few laws of such engines: what a match looks like, what a group with a name adds to it, and that of
two branches the first one is preferred. They are about texts that are put together, and say nothing
of how a text is read or searched for.
-/

namespace QubitScript

/-! ## Matches -/

/-- The names of the groups are distinct. What is found lies in the text, not before the place that
the search began at, and only groups of the pattern have a part in it. -/
structure Regex.WellFormed (regex : Regex) : Prop where
  distinct : regex.names.Nodup
  span : ∀ {text : List Char} {place : Nat} {found : Found}, place ≤ text.length →
    regex.search? text place = some found →
    place ≤ found.whole.start ∧ found.whole.start ≤ found.whole.stop ∧
      found.whole.stop ≤ text.length
  known : ∀ {text : List Char} {place : Nat} {found : Found}, place ≤ text.length →
    regex.search? text place = some found → ∀ group ∈ found.groups, group.1 ∈ regex.names

/-- The blanks that come next in a text. -/
def blanksAt (text : List Char) (place : Nat) : Span :=
  ⟨place, place + ((text.drop place).takeWhile Text.isBlank).length⟩

namespace Engine

variable (engine : Engine) (dialect : Pattern.Dialect)

/-! ## Texts that are put together -/

/-- A pattern after which a closing parenthesis has nothing to close. In the verbose notation a
pattern can end in a comment instead, which takes the parenthesis and whatever else comes on that
line. -/
structure SelfContained (pattern : String) : Prop where
  compiles : ∃ regex, engine.compile dialect pattern = .ok regex
  closed : ∀ regex, engine.compile dialect (pattern ++ ")") ≠ .ok regex

/-- Groups with names, and bars between them. -/
inductive Branches : String → Prop
  | last {name pattern : String} : isKind name = true → engine.SelfContained dialect pattern →
      Branches (groupText name pattern)
  | more {name pattern others : String} : isKind name = true →
      engine.SelfContained dialect pattern → Branches others →
      Branches (groupText name pattern ++ "|" ++ others)

variable {engine dialect}

/-- The laws of an engine that finds the leftmost match and among the matches there the first
one. -/
structure LeftmostFirst (engine : Engine) : Prop where
  wellFormed : ∀ {dialect : Pattern.Dialect} {text : String} {regex : Regex},
    engine.compile dialect text = .ok regex → regex.WellFormed
  /-- Blanks are those of Unicode, as many as there are. -/
  blanks : ∀ {dialect : Pattern.Dialect} {regex : Regex},
    engine.compile dialect Lexer.blankPattern = .ok regex →
    ∀ {text : List Char} {place : Nat}, place ≤ text.length →
      (regex.matchAt? text place).map (·.whole) = some (blanksAt text place)
  /-- A group with a name matches as its pattern does, and takes the whole match. -/
  group : ∀ {dialect : Pattern.Dialect} {name pattern : String} {regex grouped : Regex},
    isKind name = true → engine.SelfContained dialect pattern →
    engine.compile dialect pattern = .ok regex →
    engine.compile dialect (groupText name pattern) = .ok grouped →
    grouped.names = name :: regex.names ∧ ∀ {text : List Char} {place : Nat}, place ≤ text.length →
      grouped.matchAt? text place = (regex.matchAt? text place).map (Found.named name)
  /-- The branches of a choice are patterns, and the choice matches as its first branch does, or
  else as the others do. -/
  choice : ∀ {dialect : Pattern.Dialect} {name pattern others : String} {regex : Regex},
    isKind name = true → engine.SelfContained dialect pattern → engine.Branches dialect others →
    engine.compile dialect (groupText name pattern ++ "|" ++ others) = .ok regex →
    ∃ first second, engine.compile dialect (groupText name pattern) = .ok first ∧
      engine.compile dialect others = .ok second ∧ regex.names = first.names ++ second.names ∧
      ∀ {text : List Char} {place : Nat}, place ≤ text.length →
        regex.matchAt? text place = (first.matchAt? text place).or (second.matchAt? text place)

end Engine

/-! ## The patterns of a table -/

theorem withBars_cons (part other : String) (others : List String) :
    withBars (part :: other :: others) = part ++ "|" ++ withBars (other :: others) := by
  refine String.toList_inj.mp ?_
  rw [withBars, withBars, String.toList_intercalate, String.toList_append, String.toList_append,
    String.toList_intercalate]
  simp

section Tables

variable {engine : Engine} {dialect : Pattern.Dialect} {rules : List Rule} {regex : Regex}

/-- Every rule may have its name, and its pattern stands for itself. -/
structure Rule.Joins (engine : Engine) (dialect : Pattern.Dialect) (rule : Rule) : Prop where
  kind : isKind rule.name = true
  pattern : engine.SelfContained dialect rule.pattern

/-- The pattern of a rule, compiled on its own. -/
def Rule.regex? (engine : Engine) (dialect : Pattern.Dialect) (rule : Rule) : Option Regex :=
  (engine.compile dialect rule.pattern).toOption

/-- The names of the groups of a rule, its own first. -/
def Rule.groupNames (engine : Engine) (dialect : Pattern.Dialect) (rule : Rule) : List String :=
  rule.name :: ((rule.regex? engine dialect).map (·.names)).getD []

/-- The match of a rule at a place, in the group of the rule. -/
def Rule.foundAt? (engine : Engine) (dialect : Pattern.Dialect) (text : List Char) (place : Nat)
    (rule : Rule) : Option Found :=
  ((rule.regex? engine dialect).bind (·.matchAt? text place)).map (Found.named rule.name)

theorem Rule.regex?_eq_some {rule : Rule} : rule.regex? engine dialect = some regex ↔
    engine.compile dialect rule.pattern = .ok regex := by
  rw [Rule.regex?]
  cases engine.compile dialect rule.pattern <;> simp [Except.toOption]

theorem branches_source (hrules : ∀ rule ∈ rules, rule.Joins engine dialect) :
    rules ≠ [] → engine.Branches dialect (Lexer.source rules) := by
  induction rules with
  | nil => exact fun h => absurd rfl h
  | cons rule rules ih =>
      intro _
      obtain ⟨hrule, hothers⟩ := List.forall_mem_cons.mp hrules
      cases rules with
      | nil => exact .last hrule.kind hrule.pattern
      | cons other others =>
          rw [Lexer.source, List.map_cons, List.map_cons, withBars_cons]
          exact .more hrule.kind hrule.pattern (ih hothers nofun)

/-- The group of a rule matches where the rule does. -/
theorem Engine.LeftmostFirst.rule (laws : engine.LeftmostFirst) {rule : Rule}
    (hrule : rule.Joins engine dialect) (h : engine.compile dialect rule.source = .ok regex) :
    regex.names = rule.groupNames engine dialect ∧
      ∀ {text : List Char} {place : Nat}, place ≤ text.length →
        regex.matchAt? text place = rule.foundAt? engine dialect text place := by
  obtain ⟨alone, halone⟩ := hrule.pattern.compiles
  have hsome := Rule.regex?_eq_some.mpr halone
  obtain ⟨hnames, hmatch⟩ := laws.group hrule.kind hrule.pattern halone h
  refine ⟨?_, fun hplace => ?_⟩
  · rw [hnames, Rule.groupNames, hsome]
    rfl
  · rw [hmatch hplace, Rule.foundAt?, hsome]
    rfl

/-- The joined pattern has the groups of all rules, and matches as the first rule does that
matches. -/
theorem Engine.LeftmostFirst.joined (laws : engine.LeftmostFirst)
    (hrules : ∀ rule ∈ rules, rule.Joins engine dialect) : rules ≠ [] →
    ∀ {regex : Regex}, engine.compile dialect (Lexer.source rules) = .ok regex →
    regex.names = rules.flatMap (Rule.groupNames engine dialect) ∧
      ∀ {text : List Char} {place : Nat}, place ≤ text.length → regex.matchAt? text place =
        rules.findSome? (Rule.foundAt? engine dialect text place) := by
  induction rules with
  | nil => exact fun h => absurd rfl h
  | cons rule rules ih =>
      intro _ regex h
      obtain ⟨hrule, hothers⟩ := List.forall_mem_cons.mp hrules
      cases rules with
      | nil =>
          obtain ⟨hnames, hmatch⟩ := laws.rule hrule h
          refine ⟨?_, fun hplace => ?_⟩
          · rw [hnames, List.flatMap_singleton]
          · rw [hmatch hplace, List.findSome?_singleton]
      | cons other others =>
          rw [Lexer.source, List.map_cons, List.map_cons, withBars_cons] at h
          -- The law takes the first group off, and what is left is the table of the others, joined.
          obtain ⟨first, second, hfirst, hsecond, hnames, hmatch⟩ :=
            laws.choice hrule.kind hrule.pattern (branches_source hothers nofun) h
          obtain ⟨hfirstNames, hfirstMatch⟩ := laws.rule hrule hfirst
          obtain ⟨hsecondNames, hsecondMatch⟩ := ih hothers nofun hsecond
          refine ⟨?_, fun {text place} hplace => ?_⟩
          · rw [hnames, hfirstNames, hsecondNames]
            rfl
          · have htry : (rule :: other :: others).findSome?
                (Rule.foundAt? engine dialect text place) =
                  (rule.foundAt? engine dialect text place).or
                    ((other :: others).findSome? (Rule.foundAt? engine dialect text place)) := by
              rw [List.findSome?_cons]
              cases rule.foundAt? engine dialect text place <;> rfl
            rw [hmatch hplace, hfirstMatch hplace, hsecondMatch hplace, htry]

end Tables

end QubitScript
