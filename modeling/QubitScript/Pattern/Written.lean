import QubitScript.Pattern.Size
import QubitScript.Pattern.Numbering

/-!
# Written patterns

What is known of a pattern text once it has been read: its form, how deeply it is nested, and the
names of its groups. A pattern is accepted when no two groups have the same name, and when it is
neither too deep nor too large.
-/

namespace QubitScript.Pattern

/-- A pattern as it was written. The names are in order of their opening parentheses. -/
structure Written where
  form : Form
  nesting : Nat
  names : List String
deriving DecidableEq, Repr

namespace Written

/-- A pattern without parts. -/
def leaf (form : Form) : Written := ⟨form, 0, []⟩

/-- The nesting of patterns that stand beside each other. -/
def nestingOf (written : List Written) : Nat := (written.map (·.nesting)).foldl max 0 + 1

/-- One pattern after the other. Only two or more parts make a level. -/
def concat : List Written → Written
  | [written] => written
  | [] => leaf .empty
  | parts =>
    ⟨Form.concat (parts.map (·.form)), nestingOf parts, parts.flatMap (·.names)⟩

/-- The choice between patterns, earlier ones preferred. Only two or more branches make a level. -/
def choice : List Written → Written
  | [written] => written
  | branches =>
    ⟨Form.choice (branches.map (·.form)), nestingOf branches, branches.flatMap (·.names)⟩

def rounds (bounds : Bounds) (greedy : Bool) (body : Written) : Written :=
  { body with form := Form.rounds bounds greedy body.form, nesting := body.nesting + 1 }

/-- A group that keeps what it takes, with or without a name. -/
def group (name : Option String) (body : Written) : Written :=
  ⟨.group name body.form, body.nesting + 1, name.toList ++ body.names⟩

/-- A group that only holds its parts together. -/
def enclosed (body : Written) : Written := { body with nesting := body.nesting + 1 }

/-- The deepest nesting. -/
def nestingLimit : Nat := 250

/-- Whether the pattern can be matched. -/
def isAccepted (written : Written) : Bool :=
  decide written.names.Nodup && decide (written.nesting ≤ nestingLimit) && written.form.fits

end Written

end QubitScript.Pattern
