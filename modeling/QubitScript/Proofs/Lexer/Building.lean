import Mathlib.Data.List.Induction
import QubitScript.Proofs.Engine.Written
import QubitScript.Proofs.Running

/-!
# Rule tables that make a lexer

Rules are checked in their order, and the first one with a fault decides what is wrong with a table.
A table without such a rule need not make a lexer: its patterns are joined into one, and the engine
may refuse that one though it takes each of them alone.
-/

namespace QubitScript

variable {engine : Engine} {options : LexerOptions}

/-! ## Faults of rules -/

/-- What is wrong with a rule that comes after the rules `before`. Its own name is looked at first,
then the names before it, and its pattern last. -/
inductive Rule.HasFault (engine : Engine) (options : LexerOptions) (before : List Rule)
    (rule : Rule) :
    RuleFault → Prop
  | invalidName :
      isKind rule.name = false → HasFault engine options before rule (.invalidName rule.name)
  | duplicate :
      isKind rule.name = true → rule.name ∈ before.map (·.name) →
      HasFault engine options before rule (.duplicate rule.name)
  | invalidPattern {details : String} :
      isKind rule.name = true → rule.name ∉ before.map (·.name) →
      engine.compile options.dialect rule.pattern = .error details →
      HasFault engine options before rule (.invalidPattern rule.name details)

section Rules

variable {before rules : List Rule} {rule : Rule} {fault : RuleFault}

theorem compileAs_eq_error {name pattern : String} :
    compileAs engine options name pattern = .error fault ↔ ∃ details,
      engine.compile options.dialect pattern = .error details ∧
        RuleFault.invalidPattern name details = fault := mapError_eq_error

theorem compileAs_eq_ok {name pattern : String} {regex : Regex} :
    compileAs engine options name pattern = .ok regex ↔
      engine.compile options.dialect pattern = .ok regex := mapError_eq_ok

theorem Rule.check_eq_error_iff : rule.check engine options (before.map (·.name)) = .error fault ↔
    rule.HasFault engine options before fault := by
  unfold Rule.check
  constructor
  · intro h
    split at h
    next hkind =>
      cases h
      exact .invalidName (by simpa using hkind)
    next hkind =>
      have hkind : isKind rule.name = true := by simpa using hkind
      split at h
      next hseen =>
        cases h
        exact .duplicate hkind (List.contains_iff_mem.mp hseen)
      next hseen =>
        obtain ⟨details, hpattern, rfl⟩ := compileAs_eq_error.mp (map_eq_error.mp h)
        exact .invalidPattern hkind (mt List.contains_iff_mem.mpr hseen) hpattern
  · rintro (hkind | ⟨hkind, hseen⟩ | ⟨hkind, hseen, hpattern⟩)
    · simp [hkind]
    · have hseen := List.contains_iff_mem.mpr hseen
      simp only [hkind, hseen]
      rfl
    · have hseen := Bool.eq_false_iff.mpr (mt List.contains_iff_mem.mp hseen)
      have hcompiled :=
        compileAs_eq_error.mpr ⟨_, hpattern, Eq.refl (RuleFault.invalidPattern rule.name _)⟩
      simp only [hkind, hseen, hcompiled]
      rfl

/-- A rule without faults passes. -/
theorem Rule.check_eq_ok_iff : rule.check engine options (before.map (·.name)) = .ok () ↔
    ∀ fault, ¬ rule.HasFault engine options before fault := by
  simp only [← Rule.check_eq_error_iff]
  cases rule.check engine options (before.map (·.name)) <;> simp

namespace Lexer

/-- No rule of the table has a fault. -/
def Faultless (engine : Engine) (options : LexerOptions) (rules : List Rule) : Prop :=
  ∀ before rule after, rules = before ++ rule :: after →
    ∀ fault, ¬ rule.HasFault engine options before fault

/-- The first rule of the table that has a fault has this one. -/
def FirstFault (engine : Engine) (options : LexerOptions) (rules : List Rule) (fault : RuleFault) :
    Prop :=
  ∃ before rule after, rules = before ++ rule :: after ∧ Faultless engine options before ∧
    rule.HasFault engine options before fault

/-! A table is checked from its first rule to its last, so what is said of it is said by induction
from its end. -/

theorem concat_eq_append_cons {α : Type} {xs before after : List α} {x y : α} :
    xs ++ [x] = before ++ y :: after ↔
      (xs = before ∧ x = y ∧ after = []) ∨
        ∃ rest, after = rest ++ [x] ∧ xs = before ++ y :: rest := by
  constructor
  · intro h
    rcases List.eq_nil_or_concat' after with rfl | ⟨rest, z, rfl⟩
    · obtain ⟨hfront, hlast⟩ := List.append_singleton_inj.mp h
      exact .inl ⟨hfront, hlast, rfl⟩
    · rw [← List.cons_append, ← List.append_assoc] at h
      obtain ⟨hfront, rfl⟩ := List.append_singleton_inj.mp h
      exact .inr ⟨rest, rfl, hfront⟩
  · rintro (⟨rfl, rfl, rfl⟩ | ⟨rest, rfl, rfl⟩)
    · rfl
    · simp

theorem not_firstFault_nil : ¬ FirstFault engine options [] fault := by
  rintro ⟨before, rule, after, h, -⟩
  cases before <;> cases h

theorem faultless_nil : Faultless engine options [] := by
  intro before rule after h
  cases before <;> cases h

theorem faultless_concat : Faultless engine options (rules ++ [rule]) ↔
    Faultless engine options rules ∧ ∀ fault, ¬ rule.HasFault engine options rules fault := by
  constructor
  · intro h
    refine ⟨fun before other after hrules => ?_, h rules rule [] rfl⟩
    apply h before other (after ++ [rule])
    rw [hrules, List.append_assoc, List.cons_append]
  · rintro ⟨hrules, hlast⟩ before other after h
    rcases concat_eq_append_cons.mp h with ⟨rfl, rfl, -⟩ | ⟨rest, -, h⟩
    · exact hlast
    · exact hrules before other rest h

theorem firstFault_concat : FirstFault engine options (rules ++ [rule]) fault ↔
    FirstFault engine options rules fault ∨
      Faultless engine options rules ∧ rule.HasFault engine options rules fault := by
  constructor
  · rintro ⟨before, other, after, h, hbefore, hfault⟩
    rcases concat_eq_append_cons.mp h with ⟨rfl, rfl, -⟩ | ⟨rest, -, h⟩
    · exact .inr ⟨hbefore, hfault⟩
    · exact .inl ⟨before, other, rest, h, hbefore, hfault⟩
  · rintro (⟨before, other, after, rfl, h⟩ | h)
    · exact ⟨before, other, after ++ [rule], by simp, h⟩
    · exact ⟨rules, rule, [], rfl, h⟩

theorem checkRules_concat (seen : List String) :
    checkRules engine options seen (rules ++ [rule]) =
      checkRules engine options seen rules >>= fun _ =>
        rule.check engine options (seen ++ rules.map (·.name)) := by
  induction rules generalizing seen with
  | nil =>
      rw [List.nil_append, checkRules, checkRules, List.map_nil, List.append_nil]
      cases rule.check engine options seen <;> rfl
  | cons first rules ih =>
      rw [List.cons_append, checkRules, checkRules]
      cases first.check engine options seen with
      | error fault => rfl
      | ok _ =>
          have hnames : seen ++ (first :: rules).map (·.name) =
              (seen ++ [first.name]) ++ rules.map (·.name) := by
            rw [List.map_cons, List.append_assoc, List.singleton_append]
          rw [hnames]
          exact ih (seen ++ [first.name])

/-- Of the options only the dialect counts. -/
theorem checkRules_congr {options others : LexerOptions} (h : options.dialect = others.dialect)
    (seen : List String) :
    checkRules engine options seen rules = checkRules engine others seen rules := by
  induction rules generalizing seen with
  | nil => rfl
  | cons rule rules ih =>
      rw [checkRules, checkRules, Rule.check, Rule.check, compileAs, compileAs, h, ih]

/-- All rules pass when none of them has a fault. -/
theorem checkRules_eq_ok_iff :
    checkRules engine options [] rules = .ok () ↔ Faultless engine options rules := by
  -- A rule is checked against the names before it, so the induction takes rules off at the end.
  induction rules using List.reverseRecOn with
  | nil => exact ⟨fun _ => faultless_nil, fun _ => rfl⟩
  | append_singleton rules rule ih =>
      rw [faultless_concat, ← ih, ← Rule.check_eq_ok_iff, checkRules_concat, List.nil_append,
        bind_eq_ok]
      constructor
      · rintro ⟨_, hrules, hrule⟩
        exact ⟨hrules, hrule⟩
      · rintro ⟨hrules, hrule⟩
        exact ⟨(), hrules, hrule⟩

/-- Checking fails with the first fault. -/
theorem checkRules_eq_error_iff : checkRules engine options [] rules = .error fault ↔
    FirstFault engine options rules fault := by
  induction rules using List.reverseRecOn with
  | nil => exact ⟨nofun, fun h => absurd h not_firstFault_nil⟩
  | append_singleton rules rule ih =>
      rw [firstFault_concat, ← ih, ← checkRules_eq_ok_iff, ← Rule.check_eq_error_iff,
        checkRules_concat, List.nil_append, bind_eq_error]
      apply or_congr_right
      constructor
      · rintro ⟨_, hrules, hrule⟩
        exact ⟨hrules, hrule⟩
      · rintro ⟨hrules, hrule⟩
        exact ⟨(), hrules, hrule⟩

end Lexer

end Rules

namespace Lexer

/-! ## Tables -/

section Tables

variable {rules : List Rule} {lexer : Lexer} {fault : RuleFault}

theorem buildWith_eq (h : rules ≠ []) : buildWith engine rules options =
    checkRules engine options [] rules >>= fun _ =>
      compileAs engine options (withBars (rules.map (·.name))) (source rules) >>= fun pattern =>
        compileAs engine options "whitespace" blankPattern >>= fun blanks =>
          .ok ⟨rules, pattern, blanks, options⟩ := by
  rw [buildWith, if_neg (by simpa using h)]
  rfl

/-- A lexer holds its rules, and what the engine has made of the joined pattern and of that of
blanks. -/
theorem buildWith_eq_ok : buildWith engine rules options = .ok lexer ↔
    rules ≠ [] ∧ Faultless engine options rules ∧ lexer.rules = rules ∧ lexer.options = options ∧
      engine.compile options.dialect (source rules) = .ok lexer.pattern ∧
      engine.compile options.dialect blankPattern = .ok lexer.blanks := by
  by_cases hrules : rules = []
  · subst hrules
    exact ⟨nofun, fun h => absurd rfl h.1⟩
  simp only [buildWith_eq hrules, bind_eq_ok, compileAs_eq_ok]
  constructor
  · rintro ⟨_, hchecked, pattern, hpattern, blanks, hblanks, ⟨⟩⟩
    exact ⟨hrules, checkRules_eq_ok_iff.mp hchecked, rfl, rfl, hpattern, hblanks⟩
  · rintro ⟨-, hfaultless, rfl, rfl, hpattern, hblanks⟩
    exact ⟨(), checkRules_eq_ok_iff.mpr hfaultless, lexer.pattern, hpattern, lexer.blanks, hblanks,
      rfl⟩

/-- What is wrong with a table: it is empty, or one of its rules has a fault, or only all patterns
together make no pattern, or the pattern of blanks makes none. -/
theorem buildWith_eq_error : buildWith engine rules options = .error fault ↔
    (rules = [] ∧ fault = .noRules) ∨ FirstFault engine options rules fault ∨
      (rules ≠ [] ∧ Faultless engine options rules ∧ ∃ details,
        engine.compile options.dialect (source rules) = .error details ∧
          fault = .invalidPattern (withBars (rules.map (·.name))) details) ∨
      (rules ≠ [] ∧ Faultless engine options rules ∧
        (∃ pattern, engine.compile options.dialect (source rules) = .ok pattern) ∧ ∃ details,
        engine.compile options.dialect blankPattern = .error details ∧
          fault = .invalidPattern "whitespace" details) := by
  by_cases hrules : rules = []
  · subst hrules
    have hbuild : buildWith engine [] options = .error .noRules := rfl
    simp [hbuild, not_firstFault_nil, eq_comm]
  rw [buildWith_eq hrules, bind_eq_error, checkRules_eq_error_iff]
  simp only [bind_eq_error, compileAs_eq_ok, compileAs_eq_error]
  constructor
  · rintro (hfirst | ⟨_, hchecked, ⟨details, hsource, rfl⟩ | ⟨pattern, hpattern, hrest⟩⟩)
    · exact .inr (.inl hfirst)
    · exact .inr (.inr (.inl
        ⟨hrules, checkRules_eq_ok_iff.mp hchecked, details, hsource, rfl⟩))
    · rcases hrest with ⟨details, hblanks, rfl⟩ | ⟨_, -, ⟨⟩⟩
      exact .inr (.inr (.inr
        ⟨hrules, checkRules_eq_ok_iff.mp hchecked, ⟨pattern, hpattern⟩, details, hblanks, rfl⟩))
  · rintro (⟨hempty, -⟩ | hfirst | ⟨-, hfaultless, details, hsource, rfl⟩ |
      ⟨-, hfaultless, ⟨pattern, hpattern⟩, details, hblanks, rfl⟩)
    · exact absurd hempty hrules
    · exact .inl hfirst
    · exact .inr ⟨(), checkRules_eq_ok_iff.mpr hfaultless, .inl ⟨details, hsource, rfl⟩⟩
    · exact .inr ⟨(), checkRules_eq_ok_iff.mpr hfaultless,
        .inr ⟨pattern, hpattern, .inl ⟨details, hblanks, rfl⟩⟩⟩

theorem exists_buildWith_iff : (∃ lexer, buildWith engine rules options = .ok lexer) ↔
    rules ≠ [] ∧ Faultless engine options rules ∧
      (∃ pattern, engine.compile options.dialect (source rules) = .ok pattern) ∧
      ∃ blanks, engine.compile options.dialect blankPattern = .ok blanks := by
  simp only [buildWith_eq_ok]
  constructor
  · rintro ⟨lexer, hrules, hfaultless, -, -, hpattern, hblanks⟩
    exact ⟨hrules, hfaultless, ⟨_, hpattern⟩, ⟨_, hblanks⟩⟩
  · rintro ⟨hrules, hfaultless, ⟨pattern, hpattern⟩, ⟨blanks, hblanks⟩⟩
    exact ⟨⟨rules, pattern, blanks, options⟩, hrules, hfaultless, rfl, rfl, hpattern, hblanks⟩

/-- What a fault of a pattern can be laid to. -/
theorem name_of_invalidPattern {name details : String}
    (h : buildWith engine rules options = .error (.invalidPattern name details)) :
    name ∈ rules.map (·.name) ∨ name = withBars (rules.map (·.name)) ∨ name = "whitespace" := by
  rcases buildWith_eq_error.mp h with ⟨-, hfault⟩ | hfirst | ⟨-, -, _, -, hfault⟩ |
    ⟨-, -, -, _, -, hfault⟩
  · cases hfault
  · obtain ⟨before, rule, after, rfl, -, hfault⟩ := hfirst
    cases hfault with
    | invalidPattern => exact .inl (by simp)
  · cases hfault
    exact .inr (.inl rfl)
  · cases hfault
    exact .inr (.inr rfl)

theorem isKind_of_faultless {rule : Rule} (h : Faultless engine options rules)
    (hrule : rule ∈ rules) : isKind rule.name = true := by
  obtain ⟨before, after, rfl⟩ := List.append_of_mem hrule
  by_contra hkind
  exact h before rule after rfl _ (.invalidName (Bool.not_eq_true _ ▸ hkind))

/-- The rules of a table without faults join, where their patterns stand for themselves. -/
theorem joins_of_faultless (h : Faultless engine options rules)
    (hclosed : ∀ rule ∈ rules, engine.SelfContained options.dialect rule.pattern) :
    ∀ rule ∈ rules, rule.Joins engine options.dialect :=
  fun rule hrule => ⟨isKind_of_faultless h hrule, hclosed rule hrule⟩

/-- Of groups with one name no pattern is made. The fault is laid to all rules together. -/
theorem buildWith_of_shared_names (laws : engine.LeftmostFirst) (hrules : rules ≠ [])
    (hfaultless : Faultless engine options rules)
    (hclosed : ∀ rule ∈ rules, engine.SelfContained options.dialect rule.pattern)
    (hshared : ¬ (rules.flatMap (Rule.groupNames engine options.dialect)).Nodup) :
    ∃ details, buildWith engine rules options =
      .error (.invalidPattern (withBars (rules.map (·.name))) details) := by
  cases hsource : engine.compile options.dialect (source rules) with
  | error details =>
      exact ⟨details, buildWith_eq_error.mpr
        (.inr (.inr (.inl ⟨hrules, hfaultless, details, hsource, rfl⟩)))⟩
  | ok pattern =>
      -- The pattern would have the groups of all rules, and their names would be distinct.
      obtain ⟨hnames, -⟩ := laws.joined (joins_of_faultless hfaultless hclosed) hrules hsource
      exact absurd (hnames ▸ (laws.wellFormed hsource).distinct) hshared

end Tables

/-- What becomes of a table of rules. It makes a lexer when no rule has a fault and the patterns
make a pattern together. It fails with the first fault otherwise, or, where no rule has one, with a
fault that is laid to all rules together. So it does when groups of different rules share a name. -/
theorem outcome_of_build (engine : Engine) (rules : List Rule) (options : LexerOptions) :
    ((∃ lexer, buildWith engine rules options = .ok lexer) ↔
      rules ≠ [] ∧ Faultless engine options rules ∧
        (∃ pattern, engine.compile options.dialect (source rules) = .ok pattern) ∧
        ∃ blanks, engine.compile options.dialect blankPattern = .ok blanks) ∧
    (∀ fault, buildWith engine rules options = .error fault ↔
      (rules = [] ∧ fault = .noRules) ∨ FirstFault engine options rules fault ∨
        (rules ≠ [] ∧ Faultless engine options rules ∧ ∃ details,
          engine.compile options.dialect (source rules) = .error details ∧
            fault = .invalidPattern (withBars (rules.map (·.name))) details) ∨
        (rules ≠ [] ∧ Faultless engine options rules ∧
          (∃ pattern, engine.compile options.dialect (source rules) = .ok pattern) ∧ ∃ details,
          engine.compile options.dialect blankPattern = .error details ∧
            fault = .invalidPattern "whitespace" details)) ∧
    (∀ name details, buildWith engine rules options = .error (.invalidPattern name details) →
      name ∈ rules.map (·.name) ∨ name = withBars (rules.map (·.name)) ∨ name = "whitespace") ∧
    (engine.LeftmostFirst → rules ≠ [] → Faultless engine options rules →
      (∀ rule ∈ rules, engine.SelfContained options.dialect rule.pattern) →
      ¬ (rules.flatMap (Rule.groupNames engine options.dialect)).Nodup →
      ∃ details, buildWith engine rules options =
        .error (.invalidPattern (withBars (rules.map (·.name))) details)) :=
  ⟨exists_buildWith_iff, fun _ => buildWith_eq_error, fun _ _ => name_of_invalidPattern,
    buildWith_of_shared_names⟩

theorem faultless_of_isSome {rules : List Rule}
    (h : (checkRules engine options [] rules).toOption.isSome = true) :
    Faultless engine options rules := by
  rw [← checkRules_eq_ok_iff]
  cases hchecked : checkRules engine options [] rules with
  | error fault =>
      rw [hchecked] at h
      cases h
  | ok _ => rfl

theorem exists_compile_of_read? {dialect : Pattern.Dialect} {text : String}
    (h : (Pattern.Written.read? dialect text).isSome = true) :
    ∃ regex, Pattern.engine.compile dialect text = .ok regex := by
  obtain ⟨written, hwritten⟩ := Option.isSome_iff_exists.mp h
  exact ⟨_, Pattern.engine_eq_ok.mpr ⟨written, hwritten, rfl⟩⟩

/-- Two rules with groups of different names in their patterns. -/
def distinctGroups : List Rule :=
  [{ name := "A", pattern := "(?P<x>a)" }, { name := "B", pattern := "(?P<y>b)" }]

/-- A rule whose group is never closed, between others. -/
def openGroup : List Rule :=
  [{ name := "A", pattern := "a" }, { name := "B", pattern := "(" },
    { name := "1", pattern := "c" }]

/-- Two rules with groups of the same name in their patterns. -/
def sharedGroup : List Rule :=
  [{ name := "A", pattern := "(?P<x>a)" }, { name := "B", pattern := "(?P<x>b)" }]

/-- Groups of different names can be joined. A group that is never closed is laid to its rule,
whatever is wrong with the rules after it. Of two groups that share a name none is at fault, but
together they make no lexer, and the error names no rule. -/
theorem outcome_of_groups :
    (∃ lexer, buildWith Pattern.engine distinctGroups {} = .ok lexer) ∧
    (∃ details, buildWith Pattern.engine openGroup {} = .error (.invalidPattern "B" details) ∧
      ("B" ∈ openGroup.map (·.name) ∨ "B" = withBars (openGroup.map (·.name)) ∨
        "B" = "whitespace")) ∧
    Faultless Pattern.engine {} sharedGroup ∧
    (∃ details, buildWith Pattern.engine sharedGroup {} =
      .error (.invalidPattern "A|B" details)) ∧
    "A|B" ∉ sharedGroup.map (·.name) := by
  have hdistinct : Faultless Pattern.engine {} distinctGroups :=
    faultless_of_isSome (by decide +kernel)
  have hshared : Faultless Pattern.engine {} sharedGroup := faultless_of_isSome (by decide +kernel)
  have hopen : FirstFault Pattern.engine {} openGroup
      (.invalidPattern "B" "the text is no pattern that can be read") :=
    ⟨[{ name := "A", pattern := "a" }], { name := "B", pattern := "(" },
      [{ name := "1", pattern := "c" }], rfl, faultless_of_isSome (by decide +kernel),
      .invalidPattern (by decide +kernel) (by decide +kernel) (by with_unfolding_all rfl)⟩
  have hbuild := ((outcome_of_build Pattern.engine openGroup {}).2.1 _).mpr (.inr (.inl hopen))
  refine ⟨(outcome_of_build Pattern.engine distinctGroups {}).1.mpr
    ⟨by simp [distinctGroups], hdistinct, exists_compile_of_read? (by decide +kernel),
      exists_compile_of_read? (by decide +kernel)⟩, ⟨_, hbuild, ?_⟩, hshared, ?_, by decide +kernel⟩
  · exact (outcome_of_build Pattern.engine openGroup {}).2.2.1 "B" _ hbuild
  · refine (outcome_of_build Pattern.engine sharedGroup {}).2.2.2 Pattern.engine_leftmostFirst
      (by simp [sharedGroup]) hshared (Pattern.selfContained_of_all (by decide +kernel))
      (by decide +kernel)

end Lexer

end QubitScript
