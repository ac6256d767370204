import Mathlib.Data.List.Basic
import QubitScript.Quantum.Register

/-!
# Gates stay within their arrays

Applying a gate reads entries of matrices, reads and writes amplitudes, and sets bits of their
numbers. The checked functions do the same and give nothing where an index is out of range. On a
register whose amplitudes are as many as its qubits need they always give something, which is what
the unchecked functions give.
-/

namespace QubitScript

namespace Register

variable {R : Type} [Scalar R]

/-! ## Checked functions -/

def rowProductChecked (matrix : List (Complex R)) (dimension row : Nat)
    (vector : List (Complex R)) : Option (Complex R) :=
  vector.zipIdx.foldlM
    (fun sum (amplitude, column) => do
      let entry ← matrix[row * dimension + column]?
      return sum.add (entry.mul amplitude))
    .zero

def setChecked (amplitudes : Array (Complex R)) (index : Nat) (amplitude : Complex R) :
    Option (Array (Complex R)) :=
  if h : index < amplitudes.size then some (amplitudes.set index amplitude h) else none

def updateBlockChecked (matrix : List (Complex R)) (targets : List Nat)
    (amplitudes : Array (Complex R)) (base : Nat) : Option (Array (Complex R)) := do
  let dimension := 2 ^ targets.length
  let indices := (List.range dimension).map (blockIndex targets base)
  let old ← indices.mapM fun index => amplitudes[index]?
  indices.zipIdx.foldlM
    (fun amplitudes (index, row) => do
      let sum ← rowProductChecked matrix dimension row old
      setChecked amplitudes index sum)
    amplitudes

/-- A target is in range if its bit occurs in the numbers of basis states. -/
def applyMatrixChecked (matrix : List (Complex R)) (targets : List Nat)
    (amplitudes : Array (Complex R)) : Option (Array (Complex R)) :=
  if ∀ target ∈ targets, 1 <<< target < amplitudes.size then
    let mask := targets.foldl (fun mask target => mask ||| 1 <<< target) 0
    (List.range amplitudes.size).foldlM
      (fun amplitudes base =>
        if base &&& mask = 0 then updateBlockChecked matrix targets amplitudes base
        else some amplitudes)
      amplitudes
  else none

def applyOwnMatrixChecked (gate : Gate) (targets : List Nat) (amplitudes : Array (Complex R)) :
    Option (Array (Complex R)) :=
  match (gate.matrix? : Option (List (Complex R))) with
  | some matrix => applyMatrixChecked matrix targets amplitudes
  | none => some amplitudes

def transformChecked (gate : Gate) (targets : List Nat) (amplitudes : Array (Complex R)) :
    Option (Array (Complex R)) :=
  match gate with
  | .entangle => do
    let first ← targets[0]?
    let amplitudes ← applyOwnMatrixChecked .h [first] amplitudes
    applyOwnMatrixChecked .cnot targets amplitudes
  | gate => applyOwnMatrixChecked gate targets amplitudes

/-! ## Steps that all succeed -/

section Steps

variable {α β : Type}

theorem mapM_eq_some {f : α → Option β} {g : α → β} {xs : List α}
    (h : ∀ x ∈ xs, f x = some (g x)) : xs.mapM f = some (xs.map g) := by
  induction xs with
  | nil => rfl
  | cons x xs ih =>
      rw [List.forall_mem_cons] at h
      rw [List.mapM_cons, h.1, ih h.2]
      rfl

/-- Steps that succeed wherever an invariant holds, which they keep, succeed one after another. -/
theorem foldlM_eq_some {P : β → Prop} {f : β → α → Option β} {g : β → α → β} {xs : List α}
    (step : ∀ b, P b → ∀ x ∈ xs, f b x = some (g b x) ∧ P (g b x)) : ∀ {b : β}, P b →
    xs.foldlM f b = some (xs.foldl g b) ∧ P (xs.foldl g b) := by
  induction xs with
  | nil => exact fun hb => ⟨rfl, hb⟩
  | cons x xs ih =>
      intro b hb
      obtain ⟨hstep, hnext⟩ := step b hb x (.head xs)
      rw [List.foldlM_cons, hstep]
      exact ih (fun b hb y hy => step b hb y (.tail x hy)) hnext

end Steps

/-! ## Indices in range -/

variable {matrix vector : List (Complex R)} {targets : List Nat} {amplitudes : Array (Complex R)}
  {dimension row base sub qubits : Nat}

theorem entry_lt {column : Nat} (hrow : row < dimension) (hcolumn : column < dimension) :
    row * dimension + column < dimension * dimension :=
  calc
    row * dimension + column < row * dimension + dimension := Nat.add_lt_add_left hcolumn _
    _ = (row + 1) * dimension := (Nat.succ_mul row dimension).symm
    _ ≤ dimension * dimension := Nat.mul_le_mul_right dimension hrow

theorem rowProductChecked_eq (hmatrix : matrix.length = dimension * dimension)
    (hrow : row < dimension) (hvector : vector.length = dimension) :
    rowProductChecked matrix dimension row vector =
      some (rowProduct matrix dimension row vector) := by
  refine (foldlM_eq_some (P := fun _ => True) (fun sum _ => ?_) trivial).1
  rintro ⟨amplitude, column⟩ hcolumn
  have hcolumn : column < dimension := by
    simpa [hvector] using List.snd_lt_of_mem_zipIdx hcolumn
  have hentry : row * dimension + column < matrix.length :=
    hmatrix ▸ entry_lt hrow hcolumn
  refine ⟨?_, trivial⟩
  simp only
  rw [List.getD_eq_getElem?_getD, List.getElem?_eq_getElem hentry]
  rfl

/-- The numbers of a block are numbers of basis states, as its first number is and as its targets
are bits of such numbers. -/
theorem blockIndex_lt (htargets : ∀ target ∈ targets, target < qubits)
    (hbase : base < 2 ^ qubits) : blockIndex targets base sub < 2 ^ qubits := by
  refine List.foldlRecOn (motive := (· < 2 ^ qubits)) _ _ hbase ?_
  rintro index hindex ⟨target, j⟩ htarget
  have hmem : target ∈ targets :=
    List.fst_mem_of_mem_zipIdx (List.mem_filter.mp htarget).1
  simp only [Nat.one_shiftLeft]
  exact Nat.or_lt_two_pow hindex (Nat.pow_lt_pow_right Nat.one_lt_two (htargets target hmem))

omit [Scalar R] in
theorem setChecked_eq {index : Nat} {amplitude : Complex R} (h : index < amplitudes.size) :
    setChecked amplitudes index amplitude = some (amplitudes.setIfInBounds index amplitude) := by
  rw [setChecked, dif_pos h, Array.setIfInBounds_def, dif_pos h]

theorem updateBlockChecked_eq (hmatrix : matrix.length = 2 ^ targets.length * 2 ^ targets.length)
    (htargets : ∀ target ∈ targets, target < qubits) (hsize : amplitudes.size = 2 ^ qubits)
    (hbase : base < 2 ^ qubits) :
    updateBlockChecked matrix targets amplitudes base =
        some (updateBlock matrix targets amplitudes base) ∧
      (updateBlock matrix targets amplitudes base).size = 2 ^ qubits := by
  have hold : ((List.range (2 ^ targets.length)).map (blockIndex targets base)).mapM
      (fun index => amplitudes[index]?) = some
        (((List.range (2 ^ targets.length)).map (blockIndex targets base)).map
          fun index => amplitudes.getD index .zero) := by
    refine mapM_eq_some fun index hindex => ?_
    obtain ⟨sub, -, rfl⟩ := List.mem_map.mp hindex
    have hlt : blockIndex targets base sub < amplitudes.size :=
      hsize ▸ blockIndex_lt htargets hbase
    rw [Array.getElem?_eq_getElem hlt, Array.getD_eq_getD_getElem?, Array.getElem?_eq_getElem hlt]
    rfl
  rw [updateBlockChecked, hold]
  refine foldlM_eq_some (P := fun current : Array (Complex R) => current.size = 2 ^ qubits) ?_ hsize
  rintro current hcurrent ⟨index, row⟩ hindex
  have hrow : row < 2 ^ targets.length := by
    simpa using List.snd_lt_of_mem_zipIdx hindex
  obtain ⟨sub, -, rfl⟩ := List.mem_map.mp (List.fst_mem_of_mem_zipIdx hindex)
  -- Replacing amplitudes keeps their number, and with it what is in range.
  refine ⟨?_, by rw [Array.size_setIfInBounds, hcurrent]⟩
  simp only
  rw [rowProductChecked_eq hmatrix hrow (by simp)]
  exact setChecked_eq (hcurrent ▸ blockIndex_lt htargets hbase)

theorem applyMatrixChecked_eq (hmatrix : matrix.length = 2 ^ targets.length * 2 ^ targets.length)
    (htargets : ∀ target ∈ targets, target < qubits) (hsize : amplitudes.size = 2 ^ qubits) :
    applyMatrixChecked matrix targets amplitudes =
        some (applyMatrix matrix targets amplitudes) ∧
      (applyMatrix matrix targets amplitudes).size = 2 ^ qubits := by
  have hbits : ∀ target ∈ targets, 1 <<< target < amplitudes.size := by
    intro target htarget
    rw [hsize, Nat.one_shiftLeft]
    exact Nat.pow_lt_pow_right Nat.one_lt_two (htargets target htarget)
  rw [applyMatrixChecked, if_pos hbits]
  refine foldlM_eq_some (P := fun current : Array (Complex R) => current.size = 2 ^ qubits) ?_ hsize
  intro current hcurrent base hbase
  split
  · exact updateBlockChecked_eq hmatrix htargets hcurrent (hsize ▸ List.mem_range.mp hbase)
  · exact ⟨rfl, hcurrent⟩

/-- The matrix of a gate is a square with a row for every state of the qubits that it acts on. -/
theorem length_of_matrix {gate : Gate} (h : gate.matrix? = some matrix) :
    matrix.length = 2 ^ gate.arity * 2 ^ gate.arity := by
  cases gate <;> cases h <;> rfl

theorem applyOwnMatrixChecked_eq {gate : Gate} (harity : targets.length = gate.arity)
    (htargets : ∀ target ∈ targets, target < qubits) (hsize : amplitudes.size = 2 ^ qubits) :
    applyOwnMatrixChecked gate targets amplitudes =
        some (applyOwnMatrix gate targets amplitudes) ∧
      (applyOwnMatrix gate targets amplitudes).size = 2 ^ qubits := by
  rw [applyOwnMatrixChecked, applyOwnMatrix]
  cases hgate : (gate.matrix? : Option (List (Complex R))) with
  | none => exact ⟨rfl, hsize⟩
  | some matrix =>
      exact applyMatrixChecked_eq (harity ▸ length_of_matrix hgate) htargets hsize

theorem transformChecked_eq {gate : Gate} (harity : targets.length = gate.arity)
    (htargets : ∀ target ∈ targets, target < qubits) (hsize : amplitudes.size = 2 ^ qubits) :
    transformChecked gate targets amplitudes = some (transform gate targets amplitudes) ∧
      (transform gate targets amplitudes).size = 2 ^ qubits := by
  cases gate with
  | entangle =>
      obtain ⟨first, second, rfl⟩ := List.length_eq_two.mp harity
      have hfirst : ∀ target ∈ [first], target < qubits :=
        List.forall_mem_singleton.mpr (htargets first (.head _))
      have hadamard : [first].length = Gate.h.arity := rfl
      obtain ⟨hchecked, hhalf⟩ := applyOwnMatrixChecked_eq hadamard hfirst hsize
      have cnot : [first, second].length = Gate.cnot.arity := rfl
      obtain ⟨hrest, hwhole⟩ := applyOwnMatrixChecked_eq cnot htargets hhalf
      refine ⟨?_, hwhole⟩
      calc
        transformChecked .entangle [first, second] amplitudes =
            (applyOwnMatrixChecked .h [first] amplitudes).bind
              (applyOwnMatrixChecked .cnot [first, second]) := rfl
        _ = applyOwnMatrixChecked .cnot [first, second]
            (applyOwnMatrix .h [first] amplitudes) := by rw [hchecked]; rfl
        _ = some (transform .entangle [first, second] amplitudes) := hrest
  | _ => exact applyOwnMatrixChecked_eq harity htargets hsize

end Register

end QubitScript
