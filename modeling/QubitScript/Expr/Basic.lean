/-!
# Expressions

The syntax trees of expressions and assignments. Every node carries the line that its operator,
sign, name or literal stands on.
-/

namespace QubitScript

inductive BinaryOp
  | add
  | sub
  | mul
  | div
deriving DecidableEq, Repr

/-- Both slashes divide; division is written with the backslash. -/
def BinaryOp.symbol : BinaryOp → String
  | add => "+"
  | sub => "-"
  | mul => "*"
  | div => "\\"

inductive Literal
  | integer (value : Int64)
  | real (value : Float)
  | text (value : String)
deriving Repr

inductive Expr
  | literal (value : Literal) (line : Nat)
  | variable (name : String) (line : Nat)
  | negate (operand : Expr) (line : Nat)
  | binary (op : BinaryOp) (left right : Expr) (line : Nat)
  | call (name : String) (arguments : List Expr) (line : Nat)
deriving Repr

/-- The line of the outermost node. -/
def Expr.line : Expr → Nat
  | .literal _ line => line
  | .variable _ line => line
  | .negate _ line => line
  | .binary _ _ _ line => line
  | .call _ _ line => line

/-- `name = value`. -/
structure Assignment where
  name : String
  value : Expr
  line : Nat
deriving Repr

end QubitScript
