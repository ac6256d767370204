import QubitScript.Value.Basic

/-!
# Arithmetic

Integer arithmetic is exact: a result outside the 64-bit range is an overflow. A quotient of
integers is an integer when the division leaves nothing, and a real otherwise.
-/

namespace QubitScript

namespace Value

/-- The integer as a value, when it fits into 64 bits. -/
def ofInt (value : Int) : Except EvalFault Value :=
  if -2 ^ 63 ≤ value ∧ value < 2 ^ 63 then .ok (integer (.ofInt value)) else .error .overflow

def negate : Value → Except EvalFault Value
  | integer value => ofInt (-value.toInt)
  | real value => .ok (real (-value))
  | complex value => .ok (complex value.neg)
  | text _ => .error .expectedNumber

/-- The absolute value; that of a complex number is its magnitude. -/
def abs : Value → Except EvalFault Value
  | integer value => ofInt value.toInt.natAbs
  | complex value => .ok (real value.abs)
  | value => return real (← value.toReal).abs

end Value

namespace BinaryOp

open Value

def onIntegers (op : BinaryOp) (left right : Int64) : Except EvalFault Value :=
  match op with
  | add => ofInt (left.toInt + right.toInt)
  | sub => ofInt (left.toInt - right.toInt)
  | mul => ofInt (left.toInt * right.toInt)
  | div =>
    if right.toInt = 0 then .error .divisionByZero
    else if left.toInt.tmod right.toInt = 0 then ofInt (left.toInt.tdiv right.toInt)
    else return real ((← (integer left).toReal) / (← (integer right).toReal))

def onReals (op : BinaryOp) (left right : Float) : Except EvalFault Float :=
  match op with
  | add => .ok (left + right)
  | sub => .ok (left - right)
  | mul => .ok (left * right)
  | div => if right == 0 then .error .divisionByZero else .ok (left / right)

def onComplexes (op : BinaryOp) (left right : Complex Float) :
    Except EvalFault (Complex Float) :=
  match op with
  | add => .ok (left.add right)
  | sub => .ok (left.sub right)
  | mul => .ok (left.mul right)
  | div => if right.same .zero then .error .divisionByZero else .ok (left.div right)

/-- Arithmetic on two complex operands after promotion. -/
def promotedComplex (op : BinaryOp) (left right : Value) : Except EvalFault Value := do
  let (left, right) ← promoteComplex left right
  return complex (← op.onComplexes (← left.toComplex) (← right.toComplex))

/-- Arithmetic on two real operands after promotion. -/
def promotedReal (op : BinaryOp) (left right : Value) : Except EvalFault Value := do
  let (left, right) ← promoteReal left right
  return real (← op.onReals (← left.toReal) (← right.toReal))

/-- Arithmetic on numbers. The widest kind among the operands decides. -/
def onNumbers (op : BinaryOp) : Value → Value → Except EvalFault Value
  | left@(complex _), right => op.promotedComplex left right
  | left, right@(complex _) => op.promotedComplex left right
  | left@(real _), right => op.promotedReal left right
  | left, right@(real _) => op.promotedReal left right
  | integer left, integer right => op.onIntegers left right
  | left, right => .error (.scalarOperands op left right)

/-- Applies an operator. Two texts can be joined, and nothing else can be done with a text. -/
def apply (op : BinaryOp) (left right : Value) : Except EvalFault Value :=
  match op, left, right with
  | add, text left, text right => .ok (text (left ++ right))
  | op, text left, right => .error (.operandKinds op (text left) right)
  | op, left, text right => .error (.operandKinds op left (text right))
  | op, left, right => op.onNumbers left right

end BinaryOp

end QubitScript
