import QubitScript.Proofs.Quantum.Checked
import QubitScript.Proofs.Quantum.Tensor

/-!
# Amplitudes are replaced in place

The state is multiplied by a matrix within one array. The recorded functions do the same steps and
note every read and every write of an amplitude. Every amplitude is written exactly once, and none
is read after that, so that the new amplitudes are made of old ones only.
-/

namespace QubitScript

namespace Register

variable {R : Type} [Scalar R]

/-! ## Recorded functions -/

/-- A read or a write of the amplitude with a number. -/
inductive Access
  | read (index : Nat)
  | write (index : Nat)
deriving DecidableEq, Repr

/-- The number of the amplitude that is written, if one is. -/
def Access.written? : Access → Option Nat
  | .read _ => none
  | .write index => some index

/-- The amplitudes and the accesses to them so far, from the first on. -/
structure Recording (R : Type) where
  amplitudes : Array (Complex R)
  accesses : List Access

def readRecorded (index : Nat) : StateM (Recording R) (Complex R) :=
  modifyGet fun recording =>
    (recording.amplitudes.getD index .zero,
      { recording with accesses := recording.accesses ++ [.read index] })

def writeRecorded (index : Nat) (amplitude : Complex R) : StateM (Recording R) Unit :=
  modify fun recording =>
    { amplitudes := recording.amplitudes.setIfInBounds index amplitude
      accesses := recording.accesses ++ [.write index] }

def updateBlockRecorded (matrix : List (Complex R)) (targets : List Nat) (base : Nat) :
    StateM (Recording R) Unit := do
  let dimension := 2 ^ targets.length
  let indices := (List.range dimension).map (blockIndex targets base)
  let old ← indices.mapM readRecorded
  forM indices.zipIdx fun (index, row) =>
    writeRecorded index (rowProduct matrix dimension row old)

def applyMatrixRecorded (matrix : List (Complex R)) (targets : List Nat) :
    StateM (Recording R) Unit := do
  let mask := targets.foldl (fun mask target => mask ||| 1 <<< target) 0
  forM (List.range (← get).amplitudes.size) fun base =>
    if base &&& mask = 0 then updateBlockRecorded matrix targets base else pure ()

/-! ## What a recorded run does -/

variable {matrix : List (Complex R)} {targets : List Nat} {amplitudes : Array (Complex R)}
  {accesses : List Access} {base : Nat}

omit [Scalar R] in
theorem run_bind_of_run {σ α β : Type} {first : StateM σ α} {rest : α → StateM σ β} {s s' : σ}
    {a : α}
    (h : first.run s = (a, s')) : (first >>= rest).run s = (rest a).run s' := by
  rw [StateT.run_bind, h]
  rfl

theorem run_mapM_readRecorded {indices : List Nat} :
    (indices.mapM readRecorded).run ⟨amplitudes, accesses⟩ =
      (indices.map fun index => amplitudes.getD index .zero,
        ⟨amplitudes, accesses ++ indices.map .read⟩) := by
  induction indices generalizing accesses with
  | nil =>
      rw [List.map_nil, List.map_nil, List.append_nil]
      rfl
  | cons index indices ih =>
      have hread : (readRecorded index).run ⟨amplitudes, accesses⟩ =
          (amplitudes.getD index .zero, ⟨amplitudes, accesses ++ [.read index]⟩) := rfl
      rw [List.mapM_cons, run_bind_of_run hread, run_bind_of_run ih, List.append_assoc]
      rfl

omit [Scalar R] in
theorem run_forM_writeRecorded {marks : List (Nat × Nat)} (value : Nat → Complex R) :
    (forM marks fun (index, row) => writeRecorded index (value row)).run ⟨amplitudes, accesses⟩ =
      ((), ⟨marks.foldl (fun entries (index, row) => entries.setIfInBounds index (value row))
        amplitudes, accesses ++ (marks.map Prod.fst).map .write⟩) := by
  induction marks generalizing amplitudes accesses with
  | nil =>
      rw [List.map_nil, List.map_nil, List.append_nil]
      rfl
  | cons mark marks ih =>
      obtain ⟨index, row⟩ := mark
      have hwrite : (writeRecorded index (value row)).run ⟨amplitudes, accesses⟩ =
          ((), ⟨amplitudes.setIfInBounds index (value row), accesses ++ [.write index]⟩) := rfl
      rw [List.forM_cons, run_bind_of_run hwrite, ih, List.append_assoc]
      rfl

/-- The numbers of a block, row by row. -/
def blockIndices (targets : List Nat) (base : Nat) : List Nat :=
  (List.range (2 ^ targets.length)).map (blockIndex targets base)

/-- The accesses of updating a block: all of it is read before any of it is written. -/
def blockAccesses (targets : List Nat) (base : Nat) : List Access :=
  (blockIndices targets base).map .read ++ (blockIndices targets base).map .write

theorem run_updateBlockRecorded :
    (updateBlockRecorded matrix targets base).run ⟨amplitudes, accesses⟩ =
      ((), ⟨updateBlock matrix targets amplitudes base,
        accesses ++ blockAccesses targets base⟩) := by
  rw [updateBlockRecorded, run_bind_of_run run_mapM_readRecorded]
  refine (run_forM_writeRecorded fun row => rowProduct matrix _ row _).trans ?_
  rw [List.zipIdx_map_fst, List.append_assoc]
  rfl

/-- The bases of the blocks below a bound. -/
def bases (targets : List Nat) (bound : Nat) : List Nat :=
  (List.range bound).filter fun base =>
    base &&& targets.foldl (fun mask target => mask ||| 1 <<< target) 0 = 0

/-- The accesses of multiplying a state of some size. -/
def applyAccesses (targets : List Nat) (size : Nat) : List Access :=
  (bases targets size).flatMap (blockAccesses targets)

theorem run_forM_visit {numbers : List Nat} :
    (forM numbers fun base =>
        if base &&& targets.foldl (fun mask target => mask ||| 1 <<< target) 0 = 0 then
          updateBlockRecorded matrix targets base
        else pure ()).run ⟨amplitudes, accesses⟩ =
      ((), ⟨numbers.foldl (visit matrix targets) amplitudes,
        accesses ++ (numbers.filter fun base =>
          base &&& targets.foldl (fun mask target => mask ||| 1 <<< target) 0 = 0).flatMap
            (blockAccesses targets)⟩) := by
  induction numbers generalizing amplitudes accesses with
  | nil =>
      rw [List.filter_nil, List.flatMap_nil, List.append_nil]
      rfl
  | cons base numbers ih =>
      rw [List.forM_cons, List.foldl_cons, visit, List.filter_cons]
      by_cases hbase : base &&& targets.foldl (fun mask target => mask ||| 1 <<< target) 0 = 0
      · rw [if_pos hbase, if_pos hbase, if_pos (decide_eq_true hbase),
          run_bind_of_run run_updateBlockRecorded, ih, List.flatMap_cons, List.append_assoc]
      · rw [if_neg hbase, if_neg hbase, if_neg (by simpa using hbase)]
        exact ih

/-- The recorded run gives what the unrecorded one gives. -/
theorem run_applyMatrixRecorded :
    (applyMatrixRecorded matrix targets).run ⟨amplitudes, accesses⟩ =
      ((), ⟨applyMatrix matrix targets amplitudes,
        accesses ++ applyAccesses targets amplitudes.size⟩) := run_forM_visit

/-! ## The order of the accesses -/

theorem mem_bases {bound : Nat} : base ∈ bases targets bound ↔
    base < bound ∧ ∀ target ∈ targets, base.testBit target = false := by
  rw [bases, List.mem_filter, List.mem_range, decide_eq_true_iff, and_mask_eq_zero]

theorem nodup_bases {bound : Nat} : (bases targets bound).Nodup := List.nodup_range.filter _

theorem filterMap_written?_blockAccesses :
    (blockAccesses targets base).filterMap Access.written? = blockIndices targets base := by
  have hreads : (blockIndices targets base).filterMap (Access.written? ∘ Access.read) = [] :=
    List.filterMap_eq_nil_iff.mpr fun _ _ => rfl
  have hwrites : (blockIndices targets base).filterMap (Access.written? ∘ Access.write) =
      blockIndices targets base := List.filterMap_some
  rw [blockAccesses, List.filterMap_append, List.filterMap_map, List.filterMap_map]
  exact (congrArg₂ (· ++ ·) hreads hwrites).trans (List.nil_append _)

section Order

variable {qubits bound : Nat} (hdistinct : targets.Nodup)

include hdistinct

/-- A number is in one block only. -/
theorem base_of_mem_blockIndices {i : Nat} (hbase : base ∈ bases targets bound)
    (hi : i ∈ blockIndices targets base) : base = blockBase targets i := by
  obtain ⟨row, -, rfl⟩ := List.mem_map.mp hi
  rw [blockBase_blockIndex hdistinct (mem_bases.mp hbase).2]

theorem nodup_blockIndices (hbase : base ∈ bases targets bound) :
    (blockIndices targets base).Nodup := by
  refine List.nodup_range.map_on fun row hrow other hother => ?_
  exact blockIndex_inj hdistinct (mem_bases.mp hbase).2 (List.mem_range.mp hrow)
    (List.mem_range.mp hother)

/-- The blocks are disjoint and make up all numbers. -/
theorem blocks_perm (htargets : ∀ target ∈ targets, target < qubits) :
    ((bases targets (2 ^ qubits)).flatMap (blockIndices targets)).Perm
      (List.range (2 ^ qubits)) := by
  have hdisjoint : (bases targets (2 ^ qubits)).Pairwise fun base other =>
      (blockIndices targets base).Disjoint (blockIndices targets other) := by
    refine nodup_bases.imp_of_mem fun {base other} hbase hother hne i hi hi' => hne ?_
    rw [base_of_mem_blockIndices hdistinct hbase hi, base_of_mem_blockIndices hdistinct hother hi']
  have hnodup : ((bases targets (2 ^ qubits)).flatMap (blockIndices targets)).Nodup :=
    List.nodup_flatMap.mpr ⟨fun base hbase => nodup_blockIndices hdistinct hbase, hdisjoint⟩
  refine (List.perm_ext_iff_of_nodup hnodup List.nodup_range).mpr fun i => ?_
  rw [List.mem_flatMap, List.mem_range]
  constructor
  · rintro ⟨base, hbase, hi⟩
    obtain ⟨row, -, rfl⟩ := List.mem_map.mp hi
    exact blockIndex_lt htargets (mem_bases.mp hbase).1
  · -- A number is in the block of its own base, in the row that its target bits spell.
    intro hi
    refine ⟨blockBase targets i,
      mem_bases.mpr ⟨replaceBits_lt htargets hi, testBit_blockBase hdistinct⟩, ?_⟩
    refine List.mem_map.mpr ⟨readBits targets i, List.mem_range.mpr readBits_lt, ?_⟩
    rw [blockIndex_blockBase hdistinct, replaceBits_readBits hdistinct]

/-- Every amplitude is written once. -/
theorem written_perm (htargets : ∀ target ∈ targets, target < qubits) :
    ((applyAccesses targets (2 ^ qubits)).filterMap Access.written?).Perm
      (List.range (2 ^ qubits)) := by
  rw [applyAccesses, List.filterMap_flatMap]
  simp only [filterMap_written?_blockAccesses]
  exact blocks_perm hdistinct htargets

/-- No amplitude is read after it was written. -/
theorem no_read_after_write :
    (applyAccesses targets bound).Pairwise fun earlier later =>
      ∀ i, earlier = .write i → later ≠ .read i := by
  refine List.pairwise_flatMap.mpr ⟨fun base _ => List.pairwise_append.mpr ⟨?_, ?_, ?_⟩, ?_⟩
  · -- Within a block the reads come first, before anything was written.
    refine List.pairwise_of_forall_mem_list fun earlier hearlier later _ i hwrite => ?_
    obtain ⟨j, -, rfl⟩ := List.mem_map.mp hearlier
    cases hwrite
  · -- Of two writes, or of a read and a write, the later one is no read.
    refine List.pairwise_of_forall_mem_list fun earlier _ later hlater i _ hread => ?_
    obtain ⟨j, -, rfl⟩ := List.mem_map.mp hlater
    cases hread
  · intro earlier _ later hlater i _ hread
    obtain ⟨j, -, rfl⟩ := List.mem_map.mp hlater
    cases hread
  · -- A later block reads no number of an earlier one.
    refine nodup_bases.imp_of_mem fun {base other} hbase hother hne => ?_
    rintro earlier hearlier later hlater i rfl rfl
    have hi : i ∈ blockIndices targets base := by simpa [blockAccesses] using hearlier
    have hi' : i ∈ blockIndices targets other := by simpa [blockAccesses] using hlater
    rw [base_of_mem_blockIndices hdistinct hbase hi,
      base_of_mem_blockIndices hdistinct hother hi'] at hne
    exact hne rfl

end Order

/-! ## The action in place -/

/-- Multiplying the amplitudes in place by a matrix on distinct targets is its tensor action: the
amplitude with the number `i` becomes the row that the target bits of `i` spell, the first target's
bit being the highest, times the old amplitudes whose numbers are `i` with other target bits. Every
amplitude is written once, and none is read after that. -/
theorem applyMatrix_in_place {matrix : List (Complex R)} {targets : List Nat}
    {amplitudes : Array (Complex R)} {qubits : Nat} (hmatrix : matrix.length = 4 ^ targets.length)
    (hdistinct : targets.Nodup) (htargets : ∀ target ∈ targets, target < qubits)
    (hsize : amplitudes.size = 2 ^ qubits) :
    (applyMatrix matrix targets amplitudes).size = amplitudes.size ∧
    (∀ i < 2 ^ qubits,
      (applyMatrix matrix targets amplitudes)[i]? =
        some ((List.range (2 ^ targets.length)).foldl
          (fun sum column =>
            sum.add
              ((matrix.getD (readBits targets i * 2 ^ targets.length + column) .zero).mul
                (amplitudes.getD (replaceBits targets column i) .zero)))
          .zero) ∧
      readBits targets i < 2 ^ targets.length ∧
      (∀ j (_ : j < targets.length),
        (readBits targets i).testBit (targets.length - 1 - j) = i.testBit targets[j]) ∧
      ∀ column < 2 ^ targets.length,
        readBits targets i * 2 ^ targets.length + column < matrix.length ∧
        replaceBits targets column i < amplitudes.size ∧
        (∀ j (_ : j < targets.length),
          (replaceBits targets column i).testBit targets[j] =
            column.testBit (targets.length - 1 - j)) ∧
        ∀ bit ∉ targets, (replaceBits targets column i).testBit bit = i.testBit bit) ∧
    ∃ accesses,
      (applyMatrixRecorded matrix targets).run ⟨amplitudes, []⟩ =
        ((), ⟨applyMatrix matrix targets amplitudes, accesses⟩) ∧
      (accesses.filterMap Access.written?).Perm (List.range (2 ^ qubits)) ∧
      accesses.Pairwise fun earlier later => ∀ i, earlier = .write i → later ≠ .read i := by
  have hentries : matrix.length = 2 ^ targets.length * 2 ^ targets.length := by
    rw [hmatrix, ← Nat.mul_pow]
  refine ⟨size_applyMatrix, fun i hi => ⟨?_, readBits_lt, fun j hj => testBit_readBits hj,
    fun column hcolumn => ⟨?_, ?_, ?_, ?_⟩⟩, applyAccesses targets amplitudes.size, ?_, ?_, ?_⟩
  · exact getElem?_applyMatrix hdistinct htargets hsize hi
  · exact hentries ▸ entry_lt readBits_lt hcolumn
  · exact hsize ▸ replaceBits_lt htargets hi
  · exact fun j hj => testBit_replaceBits_getElem hdistinct hj
  · exact fun bit hbit => testBit_replaceBits_of_notMem hbit
  · rw [run_applyMatrixRecorded, List.nil_append]
  · exact hsize ▸ written_perm hdistinct htargets
  · exact no_read_after_write hdistinct

/-- A controlled NOT from the third qubit to the first, of three. -/
theorem applyMatrix_in_place_descending :
    (Gate.permutation [0, 1, 3, 2] : List (Complex Float)).length = 4 ^ [2, 0].length ∧
    [2, 0].Nodup ∧ (∀ target ∈ [2, 0], target < 3) ∧
    (#[.zero, .one, .zero, .zero, .unit, .one, .unit, .zero] : Array (Complex Float)).size =
      2 ^ (3 : Nat) ∧
    (applyMatrix (Gate.permutation [0, 1, 3, 2]) [2, 0]
        (#[.zero, .one, .zero, .zero, .unit, .one, .unit, .zero] : Array (Complex Float)))[5]? =
      some ((((Complex.zero.add (Complex.zero.mul .zero)).add (Complex.zero.mul .one)).add
        (Complex.one.mul .unit)).add (Complex.zero.mul .one)) := by
  have hdistinct : [2, 0].Nodup := by decide
  have htargets : ∀ target ∈ [2, 0], target < 3 := by decide
  exact ⟨rfl, hdistinct, htargets, rfl,
    ((applyMatrix_in_place rfl hdistinct htargets rfl).2.1 5 (by decide)).1⟩

end Register

end QubitScript
