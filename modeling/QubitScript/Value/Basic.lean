import QubitScript.Expr.Basic
import QubitScript.Number.Complex
import QubitScript.Quantum.Gate

/-!
# Values

The values of expressions, what can go wrong while they are computed, and the promotions of mixed
arithmetic. An integer becomes a real only when it is small enough to stay exact.
-/

namespace QubitScript

inductive Value
  | integer (value : Int64)
  | real (value : Float)
  | complex (value : Complex Float)
  | text (value : String)
deriving Repr

/-- Why an evaluation fails. -/
inductive EvalFault
  | unknownVariable (name : String)
  | unknownFunction (name : String)
  | gateInExpression (gate : Gate)
  | operandKinds (op : BinaryOp) (left right : Value)
  | scalarOperands (op : BinaryOp) (left right : Value)
  | notFinite (value : Float)
  | expectedNumber
  | argumentCount
  | overflow
  | divisionByZero
  | tooLarge
  | repeatedQubit (name : String)
  | tooManyQubits (limit : Nat)
deriving Repr

namespace Value

def ofLiteral : Literal → Value
  | .integer value => .integer value
  | .real value => .real value
  | .text value => .text value

/-- The name of the kind of a value, for messages. -/
def kind : Value → String
  | integer _ => "integer"
  | real _ => "real"
  | complex _ => "complex"
  | text _ => "string"

def isInteger : Value → Bool
  | integer _ => true
  | _ => false

def isText : Value → Bool
  | text _ => true
  | _ => false

/-- How a value is printed. A text has no quotes. -/
def write : Value → String
  | integer value => toString value.toInt
  | real value => Number.write value
  | complex value => value.write
  | text value => value

/-- Whether two values are of one kind and equal. -/
def same : Value → Value → Bool
  | integer x, integer y => x == y
  | real x, real y => x == y
  | complex z, complex w => z.same w
  | text s, text t => s == t
  | _, _ => false

/-- The largest magnitude of an integer that becomes a real. -/
def maxExactInteger : Nat := 2 ^ 53 - 1

/-- The real that is exactly the integer, when there is no smaller gap between reals around it than
between integers. -/
def realOfInteger? (value : Int64) : Option Float :=
  if value.toInt.natAbs ≤ maxExactInteger then some value.toFloat else none

/-- The integer of a real that has no fraction. -/
def integerOfReal (value : Float) : Except EvalFault Int64 :=
  if !value.isFinite then .error (.notFinite value)
  else if value < -9223372036854775808 || value ≥ 9223372036854775808 then .error .tooLarge
  else .ok value.toInt64

def toReal : Value → Except EvalFault Float
  | real value => .ok value
  | integer value => (realOfInteger? value).elim (.error .tooLarge) .ok
  | _ => .error .expectedNumber

def toComplex : Value → Except EvalFault (Complex Float)
  | complex value => .ok value
  | value => value.toReal.map .ofReal

/-- Makes an integer next to a real a real. -/
def promoteReal : Value → Value → Except EvalFault (Value × Value)
  | left@(real _), right@(integer _) => return (left, real (← right.toReal))
  | left@(integer _), right@(real _) => return (real (← left.toReal), right)
  | left, right => return (left, right)

/-- Makes a number next to a complex number complex. -/
def promoteComplex : Value → Value → Except EvalFault (Value × Value)
  | left@(complex _), right@(complex _) => return (left, right)
  | left@(complex _), right => return (left, complex (← right.toComplex))
  | left, right@(complex _) => return (complex (← left.toComplex), right)
  | left, right => return (left, right)

/-- A complex number without an imaginary part is a real. -/
def ofComplex (value : Complex Float) : Value :=
  if value.im == 0 then real value.re else complex value

end Value

namespace EvalFault

def describe : EvalFault → String
  | unknownVariable name => "Unknown variable '" ++ name ++ "'."
  | unknownFunction name => "Unknown function '" ++ name ++ "'."
  | gateInExpression gate =>
    "Type error: gate " ++ gate.name ++ " can only be called on its own."
  | operandKinds op left right =>
    "Type error: Cannot use " ++ op.symbol ++ " on " ++ left.kind ++ " and " ++ right.kind ++ "."
  | scalarOperands op left right =>
    "Type error: Invalid scalar operands: " ++ left.write ++ " " ++ op.symbol ++ " " ++
      right.write ++ "."
  | notFinite value =>
    "Type error: Cannot convert non-finite value " ++ Number.write value ++ " to an integer."
  | expectedNumber => "Expected number."
  | argumentCount => "Argument count mismatch."
  | overflow => "Integer overflow while trying to compute result."
  | divisionByZero => "Division by zero."
  | tooLarge => "Literal is too large."
  | repeatedQubit name => "Qubit '" ++ name ++ "' is used twice in one gate."
  | tooManyQubits limit => "The register is limited to " ++ toString limit ++ " qubits."

end EvalFault

end QubitScript
