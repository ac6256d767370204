import QubitScript.Number.Complex

/-!
# Gates

The gates that a line can apply to qubits, the names that they go by, and their matrices.
-/

namespace QubitScript

inductive Gate
  | h
  | x
  | y
  | z
  | p
  | t
  | cnot
  | cz
  | swap
  | toffoli
  | entangle
deriving DecidableEq, Repr

namespace Gate

/-- The names of the gates in lower case. The case of a name does not matter. -/
def aliases : List (String × Gate) :=
  [("h", h), ("had", h), ("hadamard", h), ("x", x), ("not", x), ("pauli_x", x), ("y", y),
   ("pauli_y", y), ("z", z), ("pauli_z", z), ("p", p), ("s", p), ("phase", p), ("t", t),
   ("cnot", cnot), ("cx", cnot), ("cz", cz), ("swap", swap), ("toffoli", toffoli),
   ("ccx", toffoli), ("ccnot", toffoli), ("e", entangle), ("entangle", entangle)]

def ofName? (name : String) : Option Gate := aliases.lookup name.toLower

/-- The number of qubits that the gate acts on. -/
def arity : Gate → Nat
  | h | x | y | z | p | t => 1
  | cnot | cz | swap | entangle => 2
  | toffoli => 3

/-- The name that instructions show. -/
def name : Gate → String
  | h => "H"
  | x => "X"
  | y => "Y"
  | z => "Z"
  | p => "P"
  | t => "T"
  | cnot => "CNOT"
  | cz => "CZ"
  | swap => "SWAP"
  | toffoli => "TOFFOLI"
  | entangle => "ENTANGLE"

section Matrices

variable {R : Type} [Scalar R]

/-- The matrix that sends basis state `i` to basis state `images[i]`, row by row. -/
def permutation (images : List Nat) : List (Complex R) :=
  (List.range images.length).flatMap fun row =>
    images.map fun image => if image = row then Complex.one else Complex.zero

/-- The matrix of a gate, row by row. The first qubit is the highest bit of the row number. A gate
that is made up of others has no matrix of its own. -/
def matrix? : Gate → Option (List (Complex R))
  | h =>
    let a : Complex R := .ofReal Scalar.invSqrtTwo
    some [a, a, a, a.neg]
  | x => some [.zero, .one, .one, .zero]
  | y => some [.zero, Complex.unit.neg, .unit, .zero]
  | z => some [.one, .zero, .zero, Complex.one.neg]
  | p => some [.one, .zero, .zero, .unit]
  | t => some [.one, .zero, .zero, ⟨Scalar.cosEighth, Scalar.sinEighth⟩]
  | cnot => some (permutation [0, 1, 3, 2])
  | swap => some (permutation [0, 2, 1, 3])
  | toffoli => some (permutation [0, 1, 2, 3, 4, 5, 7, 6])
  | cz => some ((permutation [0, 1, 2, 3]).set 15 Complex.one.neg)
  | entangle => none

end Matrices

end Gate

end QubitScript
