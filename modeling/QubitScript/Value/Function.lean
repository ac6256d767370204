import QubitScript.Value.Arithmetic

/-!
# Functions

The functions that expressions can call. Each takes one argument. Printing is the only effect that
an evaluation has: it adds to the printed text and gives its argument back.
-/

namespace QubitScript

inductive Function
  | sqrt
  | conj
  | abs
  | sin
  | cos
  | exp
  | ln
  | floor
  | ceil
  | round
  | print
deriving DecidableEq, Repr

/-- What can fail and can print. The text printed before a failure stays. -/
abbrev Printing (ε α : Type) := ExceptT ε (StateM String) α

namespace Function

/-- All functions with their names, in the order in which they are listed. -/
def table : List (String × Function) :=
  [("sqrt", sqrt), ("conj", conj), ("abs", abs), ("sin", sin), ("cos", cos), ("exp", exp),
   ("ln", ln), ("floor", floor), ("ceil", ceil), ("round", round), ("print", print)]

def names : List String := table.map (·.1)

def ofName? (name : String) : Option Function := table.lookup name

/-- Applies a function that takes reals to reals and complex numbers to complex numbers. An integer
counts as a real. -/
def onPlane (onReal : Float → Float) (onComplex : Complex Float → Complex Float) :
    Value → Except EvalFault Value
  | .complex value => .ok (.complex (onComplex value))
  | value => return .real (onReal (← value.toReal))

/-- The square root. That of a negative number is imaginary. -/
def applySqrt : Value → Except EvalFault Value
  | .complex value => .ok (.ofComplex value.sqrt)
  | value => do
    let x ← value.toReal
    if x ≥ 0 then return .real x.sqrt else return .complex ⟨0, (-x).sqrt⟩

/-- The natural logarithm. That of a negative number is complex, and that of zero is infinite. -/
def applyLn : Value → Except EvalFault Value
  | .complex value => .ok (.complex value.log)
  | value => do
    let x ← value.toReal
    if x < 0 then return .ofComplex (Complex.ofReal x).log else return .real x.log

/-- Conjugates a complex number and keeps any other number. -/
def applyConj : Value → Except EvalFault Value
  | .complex value => .ok (.complex value.conj)
  | .text _ => .error .expectedNumber
  | value => .ok value

/-- Rounds a real to an integer and keeps an integer. -/
def applyRounding (rounding : Float → Float) : Value → Except EvalFault Value
  | .integer value => .ok (.integer value)
  | .real value => (Value.integerOfReal (rounding value)).map .integer
  | _ => .error .expectedNumber

/-- Prints a value on a line of its own. -/
def applyPrint {ε : Type} (value : Value) : Printing ε Value := do
  modify (· ++ value.write ++ "\n")
  return value

def apply : Function → Value → Printing EvalFault Value
  | sqrt, value => liftExcept (applySqrt value)
  | conj, value => liftExcept (applyConj value)
  | abs, value => liftExcept value.abs
  | sin, value => liftExcept (onPlane Float.sin Complex.sin value)
  | cos, value => liftExcept (onPlane Float.cos Complex.cos value)
  | exp, value => liftExcept (onPlane Float.exp Complex.exp value)
  | ln, value => liftExcept (applyLn value)
  | floor, value => liftExcept (applyRounding Float.floor value)
  | ceil, value => liftExcept (applyRounding Float.ceil value)
  | round, value => liftExcept (applyRounding Float.round value)
  | print, value => applyPrint value

/-- Calls a function, which requires exactly one argument. -/
def call (function : Function) : List Value → Printing EvalFault Value
  | [value] => function.apply value
  | _ => throw .argumentCount

end Function

end QubitScript
