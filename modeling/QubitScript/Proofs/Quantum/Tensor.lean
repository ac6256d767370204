import QubitScript.Proofs.Quantum.Blocks

/-!
# The action of a matrix on some bits

Multiplying the state by a matrix in place leaves at every number the matching row of the matrix
times the old amplitudes of its block. A block is rewritten when its base is reached, and no other
block is touched then, so that what has been done below a base and what is still to do do not meet.
-/

namespace QubitScript

namespace Register

variable {R : Type} [Scalar R] {matrix : List (Complex R)} {targets : List Nat}
  {amplitudes : Array (Complex R)} {base i : Nat}

/-- A row of the matrix times the vector with the given entries, summed up from the first column
on. -/
def sumRow (matrix : List (Complex R)) (width row : Nat) (entry : Nat → Complex R) : Complex R :=
  (List.range width).foldl
    (fun sum column => sum.add ((matrix.getD (row * width + column) .zero).mul (entry column)))
    .zero

/-- The new amplitude with the number `index`: the row that its target bits spell, times the old
amplitudes of its block. -/
def tensorEntry (matrix : List (Complex R)) (targets : List Nat) (amplitudes : Array (Complex R))
    (index : Nat) : Complex R :=
  sumRow matrix (2 ^ targets.length) (readBits targets index) fun column =>
    amplitudes.getD (replaceBits targets column index) .zero

/-! ## One block -/

section Writing

variable {α : Type} {place : Nat → Nat} {value : Nat → α} {rows : List Nat}

theorem getElem?_foldl_set_of_ne (h : ∀ row ∈ rows, place row ≠ i) {entries : Array α} :
    (rows.foldl (fun entries row => entries.setIfInBounds (place row) (value row)) entries)[i]? =
      entries[i]? := by
  induction rows generalizing entries with
  | nil => rfl
  | cons row rows ih =>
      rw [List.forall_mem_cons] at h
      rw [List.foldl_cons, ih h.2, Array.getElem?_setIfInBounds_ne h.1]

theorem size_foldl_set {entries : Array α} :
    (rows.foldl (fun entries row => entries.setIfInBounds (place row) (value row)) entries).size =
      entries.size := by
  induction rows generalizing entries with
  | nil => rfl
  | cons row rows ih => rw [List.foldl_cons, ih, Array.size_setIfInBounds]

/-- Entries at different places, written one after another, are all there in the end. -/
theorem getElem?_foldl_set (value : Nat → α) (hrows : rows.Nodup)
    (hplaces : ∀ row ∈ rows, ∀ other ∈ rows, place row = place other → row = other)
    {row : Nat} (hrow : row ∈ rows) {entries : Array α} (hsize : place row < entries.size) :
    (rows.foldl (fun entries row => entries.setIfInBounds (place row) (value row))
      entries)[place row]? = some (value row) := by
  induction rows generalizing entries with
  | nil => cases hrow
  | cons first rows ih =>
      obtain ⟨hfirst, hrows⟩ := List.nodup_cons.mp hrows
      rw [List.foldl_cons]
      rcases List.mem_cons.mp hrow with rfl | hrow
      · -- No later row has the place of the first one.
        have hlater : ∀ other ∈ rows, place other ≠ place row := fun other hother heq =>
          hfirst (hplaces other (.tail _ hother) row (.head _) heq ▸ hother)
        rw [getElem?_foldl_set_of_ne hlater, Array.getElem?_setIfInBounds_self_of_lt hsize]
      · refine ih hrows (fun a ha b hb => hplaces a (.tail _ ha) b (.tail _ hb)) hrow ?_
        rwa [Array.size_setIfInBounds]

end Writing

theorem zipIdx_range {n : Nat} : (List.range n).zipIdx = (List.range n).map fun i => (i, i) := by
  refine List.ext_getElem (by simp) fun i _ _ => ?_
  simp

theorem rowProduct_map_range {width row : Nat} {entry : Nat → Complex R} :
    rowProduct matrix width row ((List.range width).map entry) = sumRow matrix width row entry := by
  rw [rowProduct, sumRow, List.zipIdx_map, zipIdx_range, List.map_map, List.foldl_map]
  rfl

/-- A block is updated row by row, each row with the amplitudes that were there before. -/
theorem updateBlock_eq :
    updateBlock matrix targets amplitudes base =
      (List.range (2 ^ targets.length)).foldl
        (fun entries row =>
          entries.setIfInBounds (blockIndex targets base row)
            (sumRow matrix (2 ^ targets.length) row fun column =>
              amplitudes.getD (blockIndex targets base column) .zero))
        amplitudes := by
  rw [updateBlock, List.map_map, List.zipIdx_map, zipIdx_range, List.map_map, List.foldl_map]
  simp only [← rowProduct_map_range]
  rfl

theorem size_updateBlock :
    (updateBlock matrix targets amplitudes base).size = amplitudes.size := by
  rw [updateBlock_eq, size_foldl_set]

/-- Updating a block leaves the other blocks as they are. -/
theorem getElem?_updateBlock_of_ne (hdistinct : targets.Nodup)
    (hbase : ∀ target ∈ targets, base.testBit target = false) (h : blockBase targets i ≠ base) :
    (updateBlock matrix targets amplitudes base)[i]? = amplitudes[i]? := by
  rw [updateBlock_eq]
  refine getElem?_foldl_set_of_ne fun row _ heq => h ?_
  rw [← heq, blockBase_blockIndex hdistinct hbase]

/-- Updating the block of a number leaves the tensor action there. -/
theorem getElem?_updateBlock_blockBase (hdistinct : targets.Nodup) (hi : i < amplitudes.size) :
    (updateBlock matrix targets amplitudes (blockBase targets i))[i]? =
      some (tensorEntry matrix targets amplitudes i) := by
  have hself : blockIndex targets (blockBase targets i) (readBits targets i) = i := by
    rw [blockIndex_blockBase hdistinct, replaceBits_readBits hdistinct]
  have hplaces : ∀ row ∈ List.range (2 ^ targets.length), ∀ other ∈ List.range (2 ^ targets.length),
      blockIndex targets (blockBase targets i) row =
        blockIndex targets (blockBase targets i) other → row = other := by
    intro row hrow other hother
    exact blockIndex_inj hdistinct (testBit_blockBase hdistinct) (List.mem_range.mp hrow)
      (List.mem_range.mp hother)
  have hrow : readBits targets i ∈ List.range (2 ^ targets.length) := List.mem_range.mpr readBits_lt
  have hsize : blockIndex targets (blockBase targets i) (readBits targets i) < amplitudes.size := by
    rwa [hself]
  have hwritten := getElem?_foldl_set
    (fun row => sumRow matrix (2 ^ targets.length) row fun column =>
      amplitudes.getD (blockIndex targets (blockBase targets i) column) .zero)
    List.nodup_range hplaces hrow hsize
  rw [hself] at hwritten
  simpa only [updateBlock_eq, tensorEntry, blockIndex_blockBase hdistinct] using hwritten

/-! ## All blocks -/

/-- What is done at a number on the way through the state: if it is the base of a block, the block
is updated. -/
def visit (matrix : List (Complex R)) (targets : List Nat) (amplitudes : Array (Complex R))
    (base : Nat) : Array (Complex R) :=
  if base &&& targets.foldl (fun mask target => mask ||| 1 <<< target) 0 = 0 then
    updateBlock matrix targets amplitudes base
  else amplitudes

theorem applyMatrix_eq :
    applyMatrix matrix targets amplitudes =
      (List.range amplitudes.size).foldl (visit matrix targets) amplitudes := rfl

theorem size_visit : (visit matrix targets amplitudes base).size = amplitudes.size := by
  unfold visit
  split
  · exact size_updateBlock
  · rfl

theorem size_foldl_visit {bases : List Nat} :
    (bases.foldl (visit matrix targets) amplitudes).size = amplitudes.size := by
  induction bases generalizing amplitudes with
  | nil => rfl
  | cons base bases ih => rw [List.foldl_cons, ih, size_visit]

theorem getElem?_visit_of_ne (hdistinct : targets.Nodup) (h : blockBase targets i ≠ base) :
    (visit matrix targets amplitudes base)[i]? = amplitudes[i]? := by
  unfold visit
  split
  · next hbase => exact getElem?_updateBlock_of_ne hdistinct (and_mask_eq_zero.mp hbase) h
  · rfl

theorem getElem?_visit_blockBase (hdistinct : targets.Nodup) (hi : i < amplitudes.size) :
    (visit matrix targets amplitudes (blockBase targets i))[i]? =
      some (tensorEntry matrix targets amplitudes i) := by
  rw [visit, if_pos (and_mask_eq_zero.mpr (testBit_blockBase hdistinct))]
  exact getElem?_updateBlock_blockBase hdistinct hi

/-- The tensor action at a number looks only at the amplitudes of its block. -/
theorem tensorEntry_congr (hdistinct : targets.Nodup) {other : Array (Complex R)}
    (h : ∀ j, blockBase targets j = blockBase targets i → other[j]? = amplitudes[j]?) :
    tensorEntry matrix targets other i = tensorEntry matrix targets amplitudes i := by
  have hentry : ∀ column, other.getD (replaceBits targets column i) .zero =
      amplitudes.getD (replaceBits targets column i) .zero := by
    intro column
    have hblock : blockBase targets (replaceBits targets column i) = blockBase targets i := by
      rw [← blockIndex_blockBase hdistinct,
        blockBase_blockIndex hdistinct (testBit_blockBase hdistinct)]
    rw [Array.getD_eq_getD_getElem?, h _ hblock, Array.getD_eq_getD_getElem?]
  simp only [tensorEntry, hentry]

/-- After the numbers below a bound have been visited, the blocks with their base below the bound
are new, and the others are as they were. -/
theorem getElem?_foldl_visit (hdistinct : targets.Nodup) {bound : Nat} :
    ∀ i < amplitudes.size,
      ((List.range bound).foldl (visit matrix targets) amplitudes)[i]? =
        if blockBase targets i < bound then some (tensorEntry matrix targets amplitudes i)
        else amplitudes[i]? := by
  induction bound with
  | zero =>
      intro i _
      rw [if_neg (Nat.not_lt_zero _)]
      rfl
  | succ bound ih =>
      intro i hi
      rw [List.range_succ, List.foldl_append, List.foldl_cons, List.foldl_nil]
      rcases Nat.lt_trichotomy (blockBase targets i) bound with hlt | rfl | hgt
      · rw [getElem?_visit_of_ne hdistinct (by omega), ih i hi, if_pos hlt, if_pos (by omega)]
      · -- The block of `i` is still as it was, so that its action is the one on the old state.
        rw [getElem?_visit_blockBase hdistinct (by rwa [size_foldl_visit]), if_pos (by omega)]
        refine congrArg some (tensorEntry_congr hdistinct fun j hj => ?_)
        by_cases hsize : j < amplitudes.size
        · rw [ih j hsize, if_neg (by omega)]
        · rw [Array.getElem?_eq_none (by rw [size_foldl_visit]; omega),
            Array.getElem?_eq_none (by omega)]
      · rw [getElem?_visit_of_ne hdistinct (by omega), ih i hi, if_neg (by omega),
          if_neg (by omega)]

theorem size_applyMatrix : (applyMatrix matrix targets amplitudes).size = amplitudes.size := by
  rw [applyMatrix_eq, size_foldl_visit]

/-- Multiplying the state in place is the tensor action. -/
theorem getElem?_applyMatrix {qubits : Nat} (hdistinct : targets.Nodup)
    (htargets : ∀ target ∈ targets, target < qubits) (hsize : amplitudes.size = 2 ^ qubits)
    (hi : i < 2 ^ qubits) :
    (applyMatrix matrix targets amplitudes)[i]? =
      some (tensorEntry matrix targets amplitudes i) := by
  have hbase : blockBase targets i < amplitudes.size := hsize ▸ replaceBits_lt htargets hi
  rw [applyMatrix_eq, getElem?_foldl_visit hdistinct i (hsize ▸ hi), if_pos hbase]

end Register

end QubitScript
