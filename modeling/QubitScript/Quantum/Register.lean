import QubitScript.Quantum.Gate
import QubitScript.Value.Basic

/-!
# Registers

A register of named qubits. Its state is the vector of the amplitudes of all basis states: qubit
`k`, counted in the order in which the qubits were first named, is bit `k` of the number of a basis
state. A qubit comes into being as zero when a gate first names it.
-/

namespace QubitScript

/-- A gate applied to qubits. -/
structure Instruction where
  gate : Gate
  qubits : List String
deriving DecidableEq, Repr

/-- The call that applies the instruction. -/
def Instruction.write (instruction : Instruction) : String :=
  instruction.gate.name ++ "(" ++ ",".intercalate instruction.qubits ++ ")"

structure Register (R : Type) where
  names : List String
  amplitudes : Array (Complex R)
  instructions : List Instruction

namespace Register

variable {R : Type} [Scalar R]

/-- The largest number of qubits of a register. -/
def maxQubits : Nat := 12

def empty : Register R := ⟨[], #[.one], []⟩

/-! ## Applying a matrix -/

/-- The number of a basis state with the bits at `targets` set as in `sub`, whose highest bit
belongs to the first target, when they are clear in `base`. -/
def blockIndex (targets : List Nat) (base sub : Nat) : Nat :=
  (targets.zipIdx.filter fun (_, j) => sub.testBit (targets.length - 1 - j)).foldl
    (fun index (target, _) => index ||| 1 <<< target) base

/-- Row `row` of the matrix times a vector, summed up from the first column on. -/
def rowProduct (matrix : List (Complex R)) (dimension row : Nat) (vector : List (Complex R)) :
    Complex R :=
  vector.zipIdx.foldl
    (fun sum (amplitude, column) =>
      sum.add ((matrix.getD (row * dimension + column) .zero).mul amplitude))
    .zero

/-- Multiplies the block of amplitudes that belongs to `base` by the matrix, in place. -/
def updateBlock (matrix : List (Complex R)) (targets : List Nat) (amplitudes : Array (Complex R))
    (base : Nat) : Array (Complex R) :=
  let dimension := 2 ^ targets.length
  let indices := (List.range dimension).map (blockIndex targets base)
  let old := indices.map fun index => amplitudes.getD index .zero
  indices.zipIdx.foldl
    (fun amplitudes (index, row) =>
      amplitudes.setIfInBounds index (rowProduct matrix dimension row old))
    amplitudes

/-- Multiplies the state by a matrix that acts on the qubits at `targets`. There is a block for
every basis state that has all target bits clear. -/
def applyMatrix (matrix : List (Complex R)) (targets : List Nat)
    (amplitudes : Array (Complex R)) : Array (Complex R) :=
  let mask := targets.foldl (fun mask target => mask ||| 1 <<< target) 0
  (List.range amplitudes.size).foldl
    (fun amplitudes base =>
      if base &&& mask = 0 then updateBlock matrix targets amplitudes base else amplitudes)
    amplitudes

/-- Applies the matrix of a gate, if it has one. -/
def applyOwnMatrix (gate : Gate) (targets : List Nat) (amplitudes : Array (Complex R)) :
    Array (Complex R) :=
  match (gate.matrix? : Option (List (Complex R))) with
  | some matrix => applyMatrix matrix targets amplitudes
  | none => amplitudes

/-- Applies a gate to the qubits at `targets`. Entangling is the Hadamard gate on the first qubit
and then a controlled NOT from the first to the second. -/
def transform (gate : Gate) (targets : List Nat) (amplitudes : Array (Complex R)) :
    Array (Complex R) :=
  match gate with
  | .entangle => applyOwnMatrix .cnot targets (applyOwnMatrix .h (targets.take 1) amplitudes)
  | gate => applyOwnMatrix gate targets amplitudes

/-! ## Applying gates to names -/

def indexOf? (register : Register R) (name : String) : Option Nat := register.names.idxOf? name

/-- Adds a qubit, which is zero. -/
def addQubit (register : Register R) (name : String) : Register R :=
  { register with
    names := register.names ++ [name]
    amplitudes := register.amplitudes ++ Array.replicate register.amplitudes.size .zero }

/-- Adds the qubits that the register does not have yet. -/
def addQubits (register : Register R) (qubits : List String) : Register R :=
  qubits.foldl (fun register name =>
    if (register.indexOf? name).isSome then register else register.addQubit name) register

/-- The first name that occurs before it in the list too. -/
def firstRepeated? (names : List String) : Option String :=
  (names.zipIdx.find? fun (name, i) => (names.take i).contains name).map (·.1)

/-- The number of the given qubits that the register does not have yet. -/
def freshCount (register : Register R) (qubits : List String) : Nat :=
  (qubits.filter fun name => (register.indexOf? name).isNone).length

/-- Applies a gate to named qubits and records it. A failed application leaves nothing behind. -/
def apply (register : Register R) (gate : Gate) (qubits : List String) :
    Except EvalFault (Register R) := do
  if qubits.length ≠ gate.arity then throw .argumentCount
  if let some name := firstRepeated? qubits then throw (.repeatedQubit name)
  if maxQubits < register.names.length + register.freshCount qubits then
    throw (.tooManyQubits maxQubits)
  let register := register.addQubits qubits
  let targets := qubits.filterMap register.indexOf?
  return { register with
    amplitudes := transform gate targets register.amplitudes
    instructions := register.instructions ++ [⟨gate, qubits⟩] }

/-- The probability of measuring the qubit as one, for a qubit that the register has. -/
def probabilityOfOne? (register : Register R) (name : String) : Option R :=
  (register.indexOf? name).map fun bit =>
    (register.amplitudes.toList.zipIdx.filter fun (_, index) => index.testBit bit).foldl
      (fun sum (amplitude, _) => Scalar.add sum amplitude.normSq) Scalar.zero

end Register

end QubitScript
