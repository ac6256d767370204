import QubitScript.Proofs.Quantum.Exact

/-!
# Gates that permute the basis states

The matrices of some gates have a single one in each row and each column, so that such a gate moves
every amplitude to another basis state. Others are diagonal and multiply every amplitude by a number
that its target bits tell.
-/

namespace QubitScript

namespace Register

open Matrix

variable {R : Type} [CommRing R] [GateConstants R]

/-! ## Matrices of permutations -/

theorem getElem?_flatMap_range {α : Type} {f : Nat → List α} {width : Nat}
    (hf : ∀ row, (f row).length = width) {rows row column : Nat} (hrow : row < rows)
    (hcolumn : column < width) :
    ((List.range rows).flatMap f)[row * width + column]? = (f row)[column]? := by
  have hlength : ∀ rows, ((List.range rows).flatMap f).length = rows * width := by
    intro rows
    simp [List.length_flatMap, hf]
  induction rows with
  | zero => cases hrow
  | succ rows ih =>
      rw [List.range_succ, List.flatMap_append, List.flatMap_singleton]
      rcases Nat.lt_succ_iff_lt_or_eq.mp hrow with hlt | rfl
      · have hbefore : row * width + column < rows * width := by
          calc
            row * width + column < row * width + width := by omega
            _ = (row + 1) * width := by rw [Nat.add_mul, Nat.one_mul]
            _ ≤ rows * width := Nat.mul_le_mul_right width hlt
        rw [List.getElem?_append_left (by rwa [hlength]), ih hlt]
      · rw [List.getElem?_append_right (by rw [hlength]; omega), hlength, Nat.add_sub_cancel_left]

/-- A column of the matrix of a permutation has a one in the row of its image, and zeros else. -/
theorem square_permutation {images : List Nat} {qubits : Nat} (hlength : images.length = 2 ^ qubits)
    (row column : Fin (2 ^ qubits)) :
    square (Gate.permutation images : List (Complex R)) qubits row column =
      if images[column.val]? = some row.val then 1 else 0 := by
  have hrow : row.val < images.length := row.isLt.trans_eq hlength.symm
  have hcolumn : column.val < images.length := column.isLt.trans_eq hlength.symm
  have hentry := getElem?_flatMap_range
    (f := fun row => images.map fun image =>
      if image = row then (Complex.one : Complex R) else .zero)
    (fun row => List.length_map _) hrow hcolumn
  rw [List.getElem?_map, hlength] at hentry
  show (Gate.permutation images).getD (row * 2 ^ qubits + column) 0 = _
  rw [List.getD_eq_getElem?_getD, Gate.permutation, hlength, hentry,
    List.getElem?_eq_getElem hcolumn]
  simp only [Option.map_some, Option.getD_some, Option.some.injEq]
  rfl

theorem mulVec_permutation {images : List Nat} {qubits : Nat} (hlength : images.length = 2 ^ qubits)
    (hdistinct : images.Nodup) (vector : Fin (2 ^ qubits) → Complex R)
    (row column : Fin (2 ^ qubits))
    (himage : images[column.val]? = some row.val) :
    (square (Gate.permutation images : List (Complex R)) qubits *ᵥ vector) row = vector column := by
  have hinjective : ∀ other : Fin (2 ^ qubits),
      images[other.val]? = some row.val ↔ other = column := by
    intro other
    constructor
    · intro hother
      have hlt : other.val < images.length := other.isLt.trans_eq hlength.symm
      exact Fin.ext ((List.getElem?_inj hlt hdistinct).mp (hother.trans himage.symm))
    · rintro rfl
      exact himage
  rw [mulVec, dotProduct]
  simp only [square_permutation hlength, hinjective, ite_mul, one_mul, zero_mul]
  exact Fintype.sum_ite_eq' column vector

/-! ## Matrices of phases -/

/-- The diagonal matrix with ones and, for the state in which all qubits are set, a factor. -/
def phase (qubits : Nat) (factor : Complex R) :
    Matrix (Fin (2 ^ qubits)) (Fin (2 ^ qubits)) (Complex R) :=
  diagonal fun row => if row.val + 1 = 2 ^ qubits then factor else 1

/-- The factors of the gates that only change phases. -/
def phaseFactor? : Gate → Option (Complex R)
  | .z | .cz => some (-1)
  | .p => some .unit
  | .t => some ⟨Scalar.cosEighth, Scalar.sinEighth⟩
  | _ => none

theorem square_of_phaseFactor? (gate : Gate) {factor : Complex R} {matrix : List (Complex R)}
    (hfactor : phaseFactor? gate = some factor) (hmatrix : gate.matrix? = some matrix) :
    square matrix gate.arity = phase gate.arity factor := by
  -- The matrices are small, so their entries are compared one by one.
  refine Matrix.ext fun row column => ?_
  cases gate <;> cases hfactor <;> cases hmatrix <;>
    (simp only [Gate.arity] at row column; fin_cases row <;> fin_cases column <;> rfl)

/-- The bits of a number spell the last row exactly when they are all set. -/
theorem readBits_eq_last {targets : List Nat} {index : Nat} :
    readBits targets index + 1 = 2 ^ targets.length ↔
      ∀ target ∈ targets, index.testBit target = true := by
  induction targets with
  | nil => simp [readBits]
  | cons target targets ih =>
      have hlt : readBits targets index < 2 ^ targets.length := readBits_lt
      rw [List.forall_mem_cons, ← ih, readBits, List.length_cons, Nat.pow_succ]
      cases index.testBit target
      · simp only [Bool.toNat_false, Bool.false_eq_true, false_and, iff_false]
        omega
      · simp only [Bool.toNat_true, true_and]
        omega

/-! ## What becomes of an amplitude -/

section Amplitudes

variable {qubits : Nat} {targets : List Nat} {amplitudes : Array (Complex R)} {index : Nat}

/-- Two numbers that agree outside of the targets are in the same block. -/
theorem replaceBits_readBits_of_agree (hdistinct : targets.Nodup) {source : Nat}
    (hrest : ∀ bit ∉ targets, source.testBit bit = index.testBit bit) :
    replaceBits targets (readBits targets source) index = source := by
  refine eq_of_testBit_targets targets (fun bit hbit => ?_) fun j hj => ?_
  · rw [testBit_replaceBits_of_notMem hbit, hrest bit hbit]
  · rw [testBit_replaceBits_getElem hdistinct hj, testBit_readBits hj]

section Acting

variable (hdistinct : targets.Nodup) (htargets : ∀ target ∈ targets, target < qubits)
  (hsize : amplitudes.size = 2 ^ qubits) (hindex : index < 2 ^ qubits)

include hdistinct htargets hsize hindex

/-- The matrix of a permutation brings the amplitude of the number whose target bits are sent to
those of the index. -/
theorem getElem?_applyMatrix_permutation {images : List Nat}
    (hlength : images.length = 2 ^ targets.length) (himages : images.Nodup) {source : Nat}
    (hrest : ∀ bit ∉ targets, source.testBit bit = index.testBit bit)
    (himage : images[readBits targets source]? = some (readBits targets index)) :
    (applyMatrix (Gate.permutation images) targets amplitudes)[index]? = amplitudes[source]? := by
  -- The source is in the block of the index, so the product sees it.
  have hblock : replaceBits targets (readBits targets source) index = source :=
    replaceBits_readBits_of_agree hdistinct hrest
  have hsource : source < amplitudes.size := by
    rw [hsize, ← hblock]
    exact replaceBits_lt htargets hindex
  have hmoved := mulVec_permutation hlength himages
    (blockOf targets amplitudes (blockBase targets index))
    ⟨readBits targets index, readBits_lt⟩ ⟨readBits targets source, readBits_lt⟩ himage
  rw [getElem?_applyMatrix hdistinct htargets hsize hindex, tensorEntry_eq_mulVec hdistinct, hmoved,
    blockOf, blockIndex_blockBase hdistinct, hblock, Array.getD_eq_getD_getElem?,
    Array.getElem?_eq_getElem hsource, Option.getD_some]

/-- A phase gate multiplies the amplitudes of the states in which all target bits are set. -/
theorem getElem?_applyMatrix_phase {matrix : List (Complex R)} {factor : Complex R}
    (hmatrix : square matrix targets.length = phase targets.length factor) :
    (applyMatrix matrix targets amplitudes)[index]? =
      amplitudes[index]?.map fun z =>
        if ∀ target ∈ targets, index.testBit target = true then factor * z else z := by
  have hlt : index < amplitudes.size := hsize.symm ▸ hindex
  rw [getElem?_applyMatrix hdistinct htargets hsize hindex, tensorEntry_eq_mulVec hdistinct,
    hmatrix, phase, mulVec_diagonal, blockOf, blockIndex_blockBase hdistinct,
    replaceBits_readBits hdistinct, Array.getD_eq_getD_getElem?, Array.getElem?_eq_getElem hlt,
    Option.getD_some, Option.map_some]
  simp only [readBits_eq_last]
  split
  · rfl
  · rw [one_mul]

end Acting

end Amplitudes

/-! ## The gates -/

/-- The number with one bit flipped. -/
def flipBit (index bit : Nat) : Nat := withBit index bit (!index.testBit bit)

/-- The number with two bits exchanged. -/
def swapBits (index first second : Nat) : Nat :=
  withBit (withBit index first (index.testBit second)) second (index.testBit first)

theorem testBit_flipBit {index bit other : Nat} :
    (flipBit index bit).testBit other =
      if other = bit then !index.testBit bit else index.testBit other :=
  testBit_withBit

theorem testBit_swapBits {index first second other : Nat} :
    (swapBits index first second).testBit other =
      if other = second then index.testBit first
      else if other = first then index.testBit second else index.testBit other := by
  rw [swapBits, testBit_withBit, testBit_withBit]

theorem testBit_ite_flipBit {condition : Bool} {index bit other : Nat} :
    (if condition then flipBit index bit else index).testBit other =
      if other = bit then condition ^^ index.testBit bit else index.testBit other := by
  cases condition
  · by_cases h : other = bit <;> simp [h]
  · rw [if_pos rfl, testBit_flipBit, Bool.true_xor]

section Reading

variable {index a b c : Nat}

theorem readBits_one : readBits [a] index = (index.testBit a).toNat := by
  simp [readBits]

theorem readBits_two :
    readBits [a, b] index = 2 * (index.testBit a).toNat + (index.testBit b).toNat := by
  simp [readBits]

theorem readBits_three : readBits [a, b, c] index =
    4 * (index.testBit a).toNat + (2 * (index.testBit b).toNat + (index.testBit c).toNat) := by
  simp [readBits]

end Reading

section Gates

variable {qubits : Nat} {amplitudes : Array (Complex R)} {index a b c : Nat}
  (hsize : amplitudes.size = 2 ^ qubits) (hindex : index < 2 ^ qubits) (ha : a < qubits)

include hsize hindex ha

theorem getElem?_transform_x :
    (transform .x [a] amplitudes)[index]? = amplitudes[flipBit index a]? := by
  show (applyMatrix (Gate.permutation [1, 0]) [a] amplitudes)[index]? = _
  refine getElem?_applyMatrix_permutation (List.nodup_singleton a) (by simpa) hsize hindex rfl
    (by decide) (fun bit hbit => ?_) ?_
  · rw [testBit_flipBit, if_neg (by simpa using hbit)]
  · rw [readBits_one, readBits_one, testBit_flipBit, if_pos rfl]
    cases index.testBit a <;> rfl

theorem getElem?_transform_z : (transform .z [a] amplitudes)[index]? =
    amplitudes[index]?.map fun z => if index.testBit a then z.neg else z := by
  have hphase := square_of_phaseFactor? (R := R) .z rfl rfl
  show (applyMatrix _ [a] amplitudes)[index]? = _
  rw [getElem?_applyMatrix_phase (List.nodup_singleton a) (by simpa) hsize hindex hphase]
  simp [Complex.neg_eq]

variable (hb : b < qubits) (hab : a ≠ b)

include hb hab

theorem getElem?_transform_cnot : (transform .cnot [a, b] amplitudes)[index]? =
    amplitudes[if index.testBit a then flipBit index b else index]? := by
  show (applyMatrix (Gate.permutation [0, 1, 3, 2]) [a, b] amplitudes)[index]? = _
  refine getElem?_applyMatrix_permutation (by simpa) (by simp [ha, hb]) hsize hindex rfl
    (by decide) (fun bit hbit => ?_) ?_
  · rw [testBit_ite_flipBit, if_neg fun h => hbit (by simp [h])]
  · rw [readBits_two, readBits_two, testBit_ite_flipBit, testBit_ite_flipBit, if_neg hab,
      if_pos rfl]
    cases index.testBit a <;> cases index.testBit b <;> rfl

theorem getElem?_transform_swap :
    (transform .swap [a, b] amplitudes)[index]? = amplitudes[swapBits index a b]? := by
  show (applyMatrix (Gate.permutation [0, 2, 1, 3]) [a, b] amplitudes)[index]? = _
  refine getElem?_applyMatrix_permutation (by simpa) (by simp [ha, hb]) hsize hindex rfl
    (by decide) (fun bit hbit => ?_) ?_
  · rw [testBit_swapBits, if_neg fun h => hbit (by simp [h]), if_neg fun h => hbit (by simp [h])]
  · rw [readBits_two, readBits_two, testBit_swapBits, testBit_swapBits, if_neg hab, if_pos rfl,
      if_pos rfl]
    cases index.testBit a <;> cases index.testBit b <;> rfl

theorem getElem?_transform_cz : (transform .cz [a, b] amplitudes)[index]? =
    amplitudes[index]?.map fun z =>
      if index.testBit a && index.testBit b then z.neg else z := by
  have hphase := square_of_phaseFactor? (R := R) .cz rfl rfl
  show (applyMatrix _ [a, b] amplitudes)[index]? = _
  rw [getElem?_applyMatrix_phase (by simpa) (by simp [ha, hb]) hsize hindex hphase]
  simp [Complex.neg_eq]

variable (hc : c < qubits) (hac : a ≠ c) (hbc : b ≠ c)

include hc hac hbc

theorem getElem?_transform_toffoli : (transform .toffoli [a, b, c] amplitudes)[index]? =
    amplitudes[if index.testBit a && index.testBit b then flipBit index c else index]? := by
  show (applyMatrix (Gate.permutation [0, 1, 2, 3, 4, 5, 7, 6]) [a, b, c] amplitudes)[index]? = _
  refine getElem?_applyMatrix_permutation (by simp [hab, hac, hbc]) (by simp [ha, hb, hc]) hsize
    hindex rfl (by decide) (fun bit hbit => ?_) ?_
  · rw [testBit_ite_flipBit, if_neg fun h => hbit (by simp [h])]
  · rw [readBits_three, readBits_three, testBit_ite_flipBit, testBit_ite_flipBit,
      testBit_ite_flipBit, if_neg hac, if_neg hbc, if_pos rfl]
    cases index.testBit a <;> cases index.testBit b <;> cases index.testBit c <;> rfl

end Gates

/-- With exact amplitudes and for any distinct qubits of a register of any size: the NOT gate flips
its bit, the controlled gates flip the last of their bits where all the others are set, the exchange
swaps two bits, and the phase flips negate the amplitudes of the states in which all their bits are
set and leave the others. -/
theorem transform_of_basis_states {qubits : Nat} {amplitudes : Array (Complex R)}
    (hsize : amplitudes.size = 2 ^ qubits) {index : Nat} (hindex : index < 2 ^ qubits) :
    (∀ t < qubits,
      (transform .x [t] amplitudes)[index]? = amplitudes[flipBit index t]? ∧
      (transform .z [t] amplitudes)[index]? =
        amplitudes[index]?.map fun z => if index.testBit t then z.neg else z) ∧
    (∀ a < qubits, ∀ b < qubits, a ≠ b →
      (transform .cnot [a, b] amplitudes)[index]? =
        amplitudes[if index.testBit a then flipBit index b else index]? ∧
      (transform .swap [a, b] amplitudes)[index]? = amplitudes[swapBits index a b]? ∧
      (transform .cz [a, b] amplitudes)[index]? =
        amplitudes[index]?.map fun z =>
          if index.testBit a && index.testBit b then z.neg else z) ∧
    ∀ a < qubits, ∀ b < qubits, ∀ t < qubits, a ≠ b → a ≠ t → b ≠ t →
      (transform .toffoli [a, b, t] amplitudes)[index]? =
        amplitudes[if index.testBit a && index.testBit b then flipBit index t else index]? := by
  refine ⟨fun t ht => ⟨?_, ?_⟩, fun a ha b hb hab => ⟨?_, ?_, ?_⟩,
    fun a ha b hb t ht hab hat hbt => ?_⟩
  · exact getElem?_transform_x hsize hindex ht
  · exact getElem?_transform_z hsize hindex ht
  · exact getElem?_transform_cnot hsize hindex ha hb hab
  · exact getElem?_transform_swap hsize hindex ha hb hab
  · exact getElem?_transform_cz hsize hindex ha hb hab
  · exact getElem?_transform_toffoli hsize hindex ha hb hab ht hat hbt

/-- Both controls are the outer bits of three, in either order, and the target is between them. -/
theorem toffoli_between_controls :
    let amplitudes : Array (Complex (ZMod 7)) :=
      #[⟨0, 0⟩, ⟨1, 0⟩, ⟨2, 0⟩, ⟨3, 0⟩, ⟨4, 1⟩, ⟨5, 1⟩, ⟨6, 1⟩, ⟨0, 1⟩]
    amplitudes.size = 2 ^ (3 : Nat) ∧ 5 < 2 ^ (3 : Nat) ∧
      (transform .toffoli [2, 0, 1] amplitudes)[5]? = some ⟨0, 1⟩ := by
  intro amplitudes
  have hsize : amplitudes.size = 2 ^ (3 : Nat) := rfl
  have hindex : 5 < 2 ^ (3 : Nat) := by decide
  have hflip :=
    (transform_of_basis_states hsize hindex).2.2 2 (by decide) 0 (by decide) 1 (by decide)
    (by decide) (by decide) (by decide)
  exact ⟨hsize, hindex, hflip.trans rfl⟩

end Register

end QubitScript
