/-!
# Lines of a session

Tokens and faults carry the number of the line they belong to. The lines of a session count from
one.
-/

namespace QubitScript

/-- Something with the number of its line. -/
structure Located (α : Type) where
  line : Nat
  item : α
deriving DecidableEq, Repr

/-- The text of a fault found on a line. -/
def Located.report (describe : α → String) (fault : Located α) : String :=
  "Error on line " ++ toString fault.line ++ ": " ++ describe fault.item

end QubitScript
