import QubitScript.Number.Double

/-!
# Scalars

The numbers that the parts of amplitudes are made of. All arithmetic on amplitudes goes through this
class, so that it can be read over doubles, as it runs, and over any exact numbers.
-/

namespace QubitScript

/-- Numbers with the operations and constants that gates need. -/
class Scalar (R : Type) where
  zero : R
  one : R
  add : R → R → R
  sub : R → R → R
  mul : R → R → R
  neg : R → R
  /-- `mulAdd x y z` is `x * y + z` in one step. -/
  mulAdd : R → R → R → R
  /-- One over the square root of two. -/
  invSqrtTwo : R
  /-- The cosine of an eighth of a turn. -/
  cosEighth : R
  /-- The sine of an eighth of a turn. -/
  sinEighth : R

/-- The double nearest to the ratio of a circle's circumference to its diameter. -/
def pi : Float := 3.141592653589793

instance : Scalar Float where
  zero := 0
  one := 1
  add := (· + ·)
  sub := (· - ·)
  mul := (· * ·)
  neg := (- ·)
  mulAdd := Number.mulAdd
  invSqrtTwo := 0.7071067811865476
  cosEighth := Float.cos (pi / 4)
  sinEighth := Float.sin (pi / 4)

end QubitScript
