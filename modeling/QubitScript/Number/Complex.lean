import QubitScript.Number.Notation
import QubitScript.Number.Scalar

/-!
# Complex numbers

Complex numbers over any scalars, and the functions on complex doubles. A product rounds each part
once after the first multiplication, through `mulAdd`.
-/

namespace QubitScript

structure Complex (R : Type) where
  re : R
  im : R
deriving DecidableEq, Repr

namespace Complex

section Arithmetic

variable {R : Type} [Scalar R]

open Scalar

def zero : Complex R := ⟨Scalar.zero, Scalar.zero⟩

def one : Complex R := ⟨Scalar.one, Scalar.zero⟩

/-- The imaginary unit. -/
def unit : Complex R := ⟨Scalar.zero, Scalar.one⟩

def ofReal (x : R) : Complex R := ⟨x, Scalar.zero⟩

def add (z w : Complex R) : Complex R := ⟨Scalar.add z.re w.re, Scalar.add z.im w.im⟩

def sub (z w : Complex R) : Complex R := ⟨Scalar.sub z.re w.re, Scalar.sub z.im w.im⟩

def neg (z : Complex R) : Complex R := ⟨Scalar.neg z.re, Scalar.neg z.im⟩

def mul (z w : Complex R) : Complex R :=
  ⟨mulAdd z.re w.re (Scalar.neg (Scalar.mul z.im w.im)), mulAdd z.re w.im (Scalar.mul z.im w.re)⟩

def conj (z : Complex R) : Complex R := ⟨z.re, Scalar.neg z.im⟩

/-- The squared magnitude, which is the weight of an amplitude. -/
def normSq (z : Complex R) : R := mulAdd z.re z.re (Scalar.mul z.im z.im)

end Arithmetic

/-! ## Complex doubles -/

def div (z w : Complex Float) : Complex Float :=
  let norm := w.normSq
  ⟨Number.mulAdd z.re w.re (z.im * w.im) / norm, Number.mulAdd z.im w.re (-(z.re * w.im)) / norm⟩

/-- The number with the given magnitude and angle. -/
def polar (magnitude angle : Float) : Complex Float :=
  ⟨magnitude * angle.cos, magnitude * angle.sin⟩

def abs (z : Complex Float) : Float := Number.hypot z.re z.im

/-- The angle in radians. -/
def arg (z : Complex Float) : Float := Float.atan2 z.im z.re

/-- The principal square root. -/
def sqrt (z : Complex Float) : Complex Float :=
  let r := z.abs
  ⟨(Number.midpoint r z.re).sqrt, Number.copySign ((r - z.re) / 2).sqrt z.im⟩

def sin (z : Complex Float) : Complex Float :=
  ⟨z.re.sin * z.im.cosh, z.re.cos * z.im.sinh⟩

def cos (z : Complex Float) : Complex Float :=
  ⟨z.re.cos * z.im.cosh, -z.re.sin * z.im.sinh⟩

def exp (z : Complex Float) : Complex Float := polar z.re.exp z.im

/-- The principal logarithm. -/
def log (z : Complex Float) : Complex Float := ⟨z.abs.log, z.arg⟩

/-- Whether two doubles are the same number; NaN is the same as itself. -/
def samePart (x y : Float) : Bool := x == y || (x.isNaN && y.isNaN)

def same (z w : Complex Float) : Bool := samePart z.re w.re && samePart z.im w.im

/-- How a complex number is written: a part that is zero is left out, and so is its sign. -/
def write (z : Complex Float) : String :=
  if z.im == 0 then if z.re == 0 then "0" else Number.write z.re
  else if z.re == 0 then Number.write z.im ++ "i"
  else if z.im > 0 then Number.write z.re ++ " + " ++ Number.write z.im ++ "i"
  else Number.write z.re ++ " - " ++ Number.write (-z.im) ++ "i"

/-- The numbers without repetitions. -/
def distinct (numbers : List (Complex Float)) : List (Complex Float) :=
  numbers.foldl (fun found z => if found.any z.same then found else found ++ [z]) []

end Complex

end QubitScript
