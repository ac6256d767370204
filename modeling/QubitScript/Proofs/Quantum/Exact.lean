import Mathlib.Data.ZMod.Defs
import Mathlib.LinearAlgebra.UnitaryGroup
import Mathlib.Tactic.Ring
import QubitScript.Proofs.Quantum.Tensor

/-!
# Exact amplitudes

Over a commutative ring in place of the doubles nothing is rounded. The complex numbers over the
ring are a commutative ring again, with the conjugation as its star, and multiplying the state by a
matrix is the product of a matrix and a vector in every block.
-/

namespace QubitScript

/-- The numbers that the matrices of gates are written with. -/
class GateConstants (R : Type) where
  invSqrtTwo : R
  cosEighth : R
  sinEighth : R

/-- The arithmetic of a commutative ring, for any choice of the constants. -/
instance (priority := low) exactScalar {R : Type} [CommRing R] [GateConstants R] : Scalar R where
  zero := 0
  one := 1
  add := (· + ·)
  sub := (· - ·)
  mul := (· * ·)
  neg := (- ·)
  mulAdd x y z := x * y + z
  invSqrtTwo := GateConstants.invSqrtTwo
  cosEighth := GateConstants.cosEighth
  sinEighth := GateConstants.sinEighth

/-- Modulo seven the square of 2 is a half, so that 2 stands for all of the constants. -/
instance : GateConstants (ZMod 7) := ⟨(2 : Nat), (2 : Nat), (2 : Nat)⟩

variable {R : Type} [CommRing R]

/-! ## Complex numbers over a ring -/

namespace Complex

attribute [ext] Complex

instance : Zero (Complex R) := ⟨⟨0, 0⟩⟩

instance : One (Complex R) := ⟨⟨1, 0⟩⟩

instance : Add (Complex R) := ⟨fun z w => ⟨z.re + w.re, z.im + w.im⟩⟩

instance : Neg (Complex R) := ⟨fun z => ⟨-z.re, -z.im⟩⟩

instance : Mul (Complex R) :=
  ⟨fun z w => ⟨z.re * w.re + -(z.im * w.im), z.re * w.im + z.im * w.re⟩⟩

instance : Star (Complex R) := ⟨fun z => ⟨z.re, -z.im⟩⟩

section Parts

variable (z w : Complex R)

@[simp]
theorem re_zero : (0 : Complex R).re = 0 := rfl

@[simp]
theorem im_zero : (0 : Complex R).im = 0 := rfl

@[simp]
theorem re_one : (1 : Complex R).re = 1 := rfl

@[simp]
theorem im_one : (1 : Complex R).im = 0 := rfl

@[simp]
theorem re_add : (z + w).re = z.re + w.re := rfl

@[simp]
theorem im_add : (z + w).im = z.im + w.im := rfl

@[simp]
theorem re_neg : (-z).re = -z.re := rfl

@[simp]
theorem im_neg : (-z).im = -z.im := rfl

@[simp]
theorem re_mul : (z * w).re = z.re * w.re + -(z.im * w.im) := rfl

@[simp]
theorem im_mul : (z * w).im = z.re * w.im + z.im * w.re := rfl

@[simp]
theorem re_star : (star z).re = z.re := rfl

@[simp]
theorem im_star : (star z).im = -z.im := rfl

end Parts

instance : CommRing (Complex R) where
  add_assoc z w v := by ext <;> simp <;> ring
  zero_add z := by ext <;> simp
  add_zero z := by ext <;> simp
  nsmul := nsmulRec
  zsmul := zsmulRec
  neg_add_cancel z := by ext <;> simp
  add_comm z w := by ext <;> simp [add_comm]
  left_distrib z w v := by ext <;> simp <;> ring
  right_distrib z w v := by ext <;> simp <;> ring
  zero_mul z := by ext <;> simp
  mul_zero z := by ext <;> simp
  mul_assoc z w v := by ext <;> simp <;> ring
  one_mul z := by ext <;> simp
  mul_one z := by ext <;> simp
  mul_comm z w := by ext <;> simp <;> ring

instance : StarRing (Complex R) where
  star_involutive z := by ext <;> simp
  star_mul z w := by ext <;> simp <;> ring
  star_add z w := by ext <;> simp [add_comm]

/-- The real part of a sum is the sum of the real parts. -/
def reHom : Complex R →+ R where
  toFun := re
  map_zero' := rfl
  map_add' _ _ := rfl

variable [GateConstants R] (z : Complex R)

theorem neg_eq : z.neg = -z := rfl

theorem zero_eq : (zero : Complex R) = 0 := rfl

theorem normSq_eq : z.normSq = reHom (star z * z) := by
  show z.re * z.re + z.im * z.im = z.re * z.re + -(-z.im * z.im)
  ring

end Complex

namespace Register

open Matrix

/-- The entries of a matrix that acts on some qubits. -/
def square (matrix : List (Complex R)) (qubits : Nat) :
    Matrix (Fin (2 ^ qubits)) (Fin (2 ^ qubits)) (Complex R) :=
  .of fun row column => matrix.getD (row * 2 ^ qubits + column) 0

/-- The amplitudes of a block, in the order of its rows. -/
def blockOf (targets : List Nat) (amplitudes : Array (Complex R)) (base : Nat) :
    Fin (2 ^ targets.length) → Complex R :=
  fun row => amplitudes.getD (blockIndex targets base row) 0

theorem tensorEntry_eq_sum [GateConstants R] (matrix : List (Complex R)) (targets : List Nat)
    (amplitudes : Array (Complex R)) (index : Nat) :
    tensorEntry matrix targets amplitudes index =
      ∑ column ∈ Finset.range (2 ^ targets.length),
        matrix.getD (readBits targets index * 2 ^ targets.length + column) 0 *
          amplitudes.getD (replaceBits targets column index) 0 := by
  let entry : Nat → Complex R := fun column =>
    matrix.getD (readBits targets index * 2 ^ targets.length + column) 0 *
      amplitudes.getD (replaceBits targets column index) 0
  calc
    tensorEntry matrix targets amplitudes index =
        (List.range (2 ^ targets.length)).foldl (fun sum column => sum + entry column) 0 := rfl
    _ = ((List.range (2 ^ targets.length)).map entry).sum := by
      rw [List.sum_eq_foldl, List.foldl_map]
    _ = ∑ column ∈ Finset.range (2 ^ targets.length), entry column := rfl

/-- In every block the matrix is multiplied by the vector of the old amplitudes. -/
theorem tensorEntry_eq_mulVec [GateConstants R] {targets : List Nat} (hdistinct : targets.Nodup)
    (matrix : List (Complex R)) (amplitudes : Array (Complex R)) (index : Nat) :
    tensorEntry matrix targets amplitudes index =
      (square matrix targets.length *ᵥ blockOf targets amplitudes (blockBase targets index))
        ⟨readBits targets index, readBits_lt⟩ := by
  rw [tensorEntry_eq_sum, Finset.sum_range]
  simp only [← blockIndex_blockBase hdistinct]
  rfl

end Register

end QubitScript
