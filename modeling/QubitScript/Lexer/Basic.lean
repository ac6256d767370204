import QubitScript.Lexer.Rule
import QubitScript.Pattern.Compiled

/-!
# Lexers

A lexer is a rule table with the texts of all its patterns joined into one choice, a named group for
every rule. It holds no state, so one lexer serves any number of inputs.
-/

namespace QubitScript

/-- What is wrong with a rule table. -/
inductive RuleFault
  | noRules
  | invalidName (name : String)
  | duplicate (name : String)
  | invalidPattern (name details : String)
deriving DecidableEq, Repr

def RuleFault.message : RuleFault → String
  | noRules => "A lexer needs at least one rule."
  | invalidName name =>
    "Rule name '" ++ name ++ "' must start with a letter or underscore and contain only word " ++
      "characters."
  | duplicate name => "Rule '" ++ name ++ "' is defined more than once."
  | invalidPattern name details => "Rule '" ++ name ++ "' has an invalid pattern: " ++ details

structure LexerOptions where
  caseSensitive : Bool := true
  omitBlanks : Bool := true
deriving DecidableEq, Repr

/-- Lexer patterns see the start and the end of every line. -/
def LexerOptions.dialect (options : LexerOptions) : Pattern.Dialect :=
  ⟨true, !options.caseSensitive⟩

/-- Rules with their patterns joined into one, which has a group for every rule, named after it, and
the pattern of the blanks between tokens. -/
structure Lexer where
  rules : List Rule
  pattern : Regex
  blanks : Regex
  options : LexerOptions

/-- Whether a rule may have this name, which is also the name of a group. -/
def isKind (name : String) : Bool :=
  match name.toList with
  | [] => false
  | c :: rest => (c.isAlpha || c == '_') && rest.all fun c => c.isAlphanum || c == '_'

/-- A pattern text in a group with a name. -/
def groupText (name pattern : String) : String := "(?P<" ++ name ++ ">" ++ pattern ++ ")"

/-- The pattern of a rule in the group of the rule. -/
def Rule.source (rule : Rule) : String := groupText rule.name rule.pattern

/-- The names of all rules in one, or their patterns: with bars between them. -/
def withBars (parts : List String) : String := "|".intercalate parts

/-- Compiles a pattern that a fault is laid to under this name. -/
def compileAs (engine : Engine) (options : LexerOptions) (name pattern : String) :
    Except RuleFault Regex :=
  (engine.compile options.dialect pattern).mapError (.invalidPattern name)

/-- Checks a rule on its own, `seen` being the names of the rules before it. -/
def Rule.check (engine : Engine) (options : LexerOptions) (seen : List String) (rule : Rule) :
    Except RuleFault Unit :=
  if !isKind rule.name then .error (.invalidName rule.name)
  else if seen.contains rule.name then .error (.duplicate rule.name)
  else (compileAs engine options rule.name rule.pattern).map fun _ => ()

/-- Checks all rules on their own, up to the first one with a fault. -/
def checkRules (engine : Engine) (options : LexerOptions) (seen : List String) :
    List Rule → Except RuleFault Unit
  | [] => .ok ()
  | rule :: rules => do
    rule.check engine options seen
    checkRules engine options (seen ++ [rule.name]) rules

namespace Lexer

/-- The names of the rules, in order. -/
def names (lexer : Lexer) : List String := lexer.rules.map (·.name)

/-- The choice between the patterns of all rules, as a text. -/
def source (rules : List Rule) : String := withBars (rules.map Rule.source)

/-- The pattern of the blanks between tokens. -/
def blankPattern : String := "\\s*"

/-- Builds a lexer with a pattern engine. The joined pattern may be at fault where no rule is, and
such a fault is laid to all rules together. -/
def buildWith (engine : Engine) (rules : List Rule) (options : LexerOptions) :
    Except RuleFault Lexer :=
  if rules.isEmpty then .error .noRules
  else do
    checkRules engine options [] rules
    let pattern ← compileAs engine options (withBars (rules.map (·.name))) (source rules)
    let blanks ← compileAs engine options "whitespace" blankPattern
    return { rules, pattern, blanks, options }

/-- Builds a lexer with the engine for written patterns. -/
def build (rules : List Rule) (options : LexerOptions) : Except RuleFault Lexer :=
  buildWith Pattern.engine rules options

end Lexer

end QubitScript
