import Mathlib.Data.List.Nodup
import Mathlib.Data.Nat.Bitwise
import QubitScript.Quantum.Register

/-!
# Blocks of basis states

The numbers of the basis states that differ only at the target bits form a block. A number is told
by its block, which is named after the member with all target bits clear, and by its row, which is
what its target bits spell. Distinct targets are assumed wherever a bit must not be written twice.
-/

namespace QubitScript

namespace Register

variable {targets : List Nat} {base sub index bit : Nat}

/-! ## Reading and replacing bits -/

/-- The number with one bit set as given. -/
def withBit (index bit : Nat) (value : Bool) : Nat :=
  if index.testBit bit = value then index else index ^^^ 2 ^ bit

/-- The number with the bits at `targets` set as in `sub`, whose highest bit belongs to the first
target. -/
def replaceBits : List Nat → Nat → Nat → Nat
  | [], _, index => index
  | target :: targets, sub, index =>
    withBit (replaceBits targets sub index) target (sub.testBit targets.length)

/-- What the bits at `targets` spell, the bit of the first target being the highest. -/
def readBits : List Nat → Nat → Nat
  | [], _ => 0
  | target :: targets, index =>
    2 ^ targets.length * (index.testBit target).toNat + readBits targets index

/-- The member of the block of a number that has all target bits clear. -/
def blockBase (targets : List Nat) (index : Nat) : Nat := replaceBits targets 0 index

theorem testBit_withBit {value : Bool} {other : Nat} :
    (withBit index bit value).testBit other =
      if other = bit then value else index.testBit other := by
  unfold withBit
  by_cases hother : other = bit
  · subst hother
    rw [if_pos rfl]
    split
    · assumption
    · next hbit => simpa [Nat.testBit_xor] using Bool.eq_not.mpr hbit
  · rw [if_neg hother]
    split
    · rfl
    · rw [Nat.testBit_xor, Nat.testBit_two_pow_of_ne (Ne.symm hother), Bool.xor_false]

theorem testBit_replaceBits_of_notMem (h : bit ∉ targets) :
    (replaceBits targets sub index).testBit bit = index.testBit bit := by
  induction targets with
  | nil => rfl
  | cons target targets ih =>
      rw [List.mem_cons, not_or] at h
      rw [replaceBits, testBit_withBit, if_neg h.1, ih h.2]

theorem testBit_replaceBits_getElem (hdistinct : targets.Nodup) {j : Nat}
    (hj : j < targets.length) :
    (replaceBits targets sub index).testBit targets[j] = sub.testBit (targets.length - 1 - j) := by
  induction targets generalizing j with
  | nil => cases hj
  | cons target targets ih =>
      obtain ⟨htarget, hdistinct⟩ := List.nodup_cons.mp hdistinct
      rw [replaceBits, testBit_withBit]
      cases j with
      | zero => simp
      | succ j =>
          rw [List.length_cons, Nat.succ_lt_succ_iff] at hj
          have hne : targets[j] ≠ target := fun heq => htarget (heq ▸ List.getElem_mem hj)
          rw [List.getElem_cons_succ, if_neg hne, ih hdistinct hj, List.length_cons]
          congr 1
          omega

theorem readBits_lt : readBits targets index < 2 ^ targets.length := by
  induction targets with
  | nil => exact Nat.one_pos
  | cons target targets ih =>
      rw [readBits, List.length_cons, Nat.pow_succ]
      cases index.testBit target
      · simp only [Bool.toNat_false]
        omega
      · simp only [Bool.toNat_true]
        omega

theorem testBit_readBits {j : Nat} (hj : j < targets.length) :
    (readBits targets index).testBit (targets.length - 1 - j) = index.testBit targets[j] := by
  induction targets generalizing j with
  | nil => cases hj
  | cons target targets ih =>
      rw [readBits, Nat.testBit_two_pow_mul_add _ readBits_lt]
      cases j with
      | zero => cases h : index.testBit target <;> simp [h]
      | succ j =>
          rw [List.length_cons, Nat.succ_lt_succ_iff] at hj
          have hplace : targets.length + 1 - 1 - (j + 1) = targets.length - 1 - j := by omega
          rw [List.length_cons, hplace, if_pos (by omega), ih hj, List.getElem_cons_succ]

/-! ## The numbers that a block is made of -/

/-- Numbers are equal if they agree at the targets and at all other bits. -/
theorem eq_of_testBit_targets (targets : List Nat) {other : Nat}
    (hrest : ∀ bit ∉ targets, index.testBit bit = other.testBit bit)
    (htargets : ∀ j (hj : j < targets.length), index.testBit targets[j] =
      other.testBit targets[j]) :
    index = other := by
  refine Nat.eq_of_testBit_eq fun bit => ?_
  by_cases hbit : bit ∈ targets
  · obtain ⟨j, hj, rfl⟩ := List.getElem_of_mem hbit
    exact htargets j hj
  · exact hrest bit hbit

/-- The numbers of rows are equal if they agree at the bits that belong to the targets. -/
theorem eq_of_testBit_rows {row other : Nat} (hrow : row < 2 ^ targets.length)
    (hother : other < 2 ^ targets.length)
    (h : ∀ j < targets.length,
      row.testBit (targets.length - 1 - j) = other.testBit (targets.length - 1 - j)) :
    row = other := by
  refine Nat.eq_of_testBit_eq fun bit => ?_
  by_cases hbit : bit < targets.length
  · have hplace : targets.length - 1 - (targets.length - 1 - bit) = bit := by omega
    simpa only [hplace] using h (targets.length - 1 - bit) (by omega)
  · have hle : 2 ^ targets.length ≤ 2 ^ bit := Nat.pow_le_pow_right Nat.two_pos (by omega)
    rw [Nat.testBit_lt_two_pow (hrow.trans_le hle), Nat.testBit_lt_two_pow (hother.trans_le hle)]

/-- Setting some bits of a number. -/
theorem testBit_foldl_or {marks : List (Nat × Nat)} {start : Nat} :
    (marks.foldl (fun index (target, _) => index ||| 1 <<< target) start).testBit bit =
      (start.testBit bit || marks.any fun (target, _) => target == bit) := by
  induction marks generalizing start with
  | nil => simp
  | cons mark marks ih =>
      rw [List.foldl_cons, ih, List.any_cons, Nat.testBit_or, Nat.one_shiftLeft,
        Nat.testBit_two_pow, Bool.or_assoc]
      rfl

theorem testBit_blockIndex_of_notMem (h : bit ∉ targets) :
    (blockIndex targets base sub).testBit bit = base.testBit bit := by
  rw [blockIndex, testBit_foldl_or]
  have hnone : (targets.zipIdx.filter fun (_, j) => sub.testBit (targets.length - 1 - j)).any
      (fun (target, _) => target == bit) = false := by
    rw [List.any_eq_false]
    rintro ⟨target, j⟩ hmark heq
    have hmem : target ∈ targets := List.fst_mem_of_mem_zipIdx (List.mem_filter.mp hmark).1
    exact h (beq_iff_eq.mp heq ▸ hmem)
  rw [hnone, Bool.or_false]

theorem testBit_blockIndex_getElem (hdistinct : targets.Nodup) {j : Nat} (hj : j < targets.length) :
    (blockIndex targets base sub).testBit targets[j] =
      (base.testBit targets[j] || sub.testBit (targets.length - 1 - j)) := by
  rw [blockIndex, testBit_foldl_or]
  congr 1
  rw [Bool.eq_iff_iff, List.any_eq_true]
  constructor
  · rintro ⟨⟨target, i⟩, hmark, heq⟩
    obtain ⟨hmem, hset⟩ := List.mem_filter.mp hmark
    obtain ⟨hi, rfl⟩ := List.getElem?_eq_some_iff.mp (List.mk_mem_zipIdx_iff_getElem?.mp hmem)
    -- A target stands only once in the list, so that the bit is the one of its own place.
    obtain rfl : i = j := (List.Nodup.getElem_inj_iff hdistinct).mp (beq_iff_eq.mp heq)
    exact hset
  · intro hset
    refine ⟨(targets[j], j), List.mem_filter.mpr ⟨?_, hset⟩, beq_self_eq_true _⟩
    exact List.mk_mem_zipIdx_iff_getElem?.mpr (List.getElem?_eq_getElem hj)

/-! ## Bases -/

/-- The mask that the state is walked with has the target bits set. -/
theorem testBit_mask {start : Nat} :
    (targets.foldl (fun mask target => mask ||| 1 <<< target) start).testBit bit =
      (start.testBit bit || decide (bit ∈ targets)) := by
  induction targets generalizing start with
  | nil => simp
  | cons target targets ih =>
      rw [List.foldl_cons, ih, Nat.testBit_or, Nat.one_shiftLeft, Nat.testBit_two_pow,
        Bool.or_assoc]
      simp only [List.mem_cons, Bool.decide_or, eq_comm]

/-- A number is walked over unless all its target bits are clear. -/
theorem and_mask_eq_zero :
    base &&& targets.foldl (fun mask target => mask ||| 1 <<< target) 0 = 0 ↔
      ∀ target ∈ targets, base.testBit target = false := by
  constructor
  · intro h target htarget
    have hbit := congrArg (Nat.testBit · target) h
    simpa only [Nat.testBit_and, testBit_mask, Nat.zero_testBit, htarget, decide_true,
      Bool.false_or, Bool.and_true] using hbit
  · intro h
    refine Nat.eq_of_testBit_eq fun bit => ?_
    rw [Nat.testBit_and, testBit_mask, Nat.zero_testBit, Bool.false_or]
    by_cases hbit : bit ∈ targets
    · rw [h bit hbit, Bool.false_and]
    · simp [hbit]

theorem testBit_blockBase (hdistinct : targets.Nodup) :
    ∀ target ∈ targets, (blockBase targets index).testBit target = false := by
  intro target htarget
  obtain ⟨j, hj, rfl⟩ := List.getElem_of_mem htarget
  rw [blockBase, testBit_replaceBits_getElem hdistinct hj, Nat.zero_testBit]

/-- The members of the block of a number are found by replacing its target bits. -/
theorem blockIndex_blockBase (hdistinct : targets.Nodup) :
    blockIndex targets (blockBase targets index) sub = replaceBits targets sub index := by
  refine eq_of_testBit_targets targets (fun bit hbit => ?_) fun j hj => ?_
  · rw [testBit_blockIndex_of_notMem hbit, blockBase, testBit_replaceBits_of_notMem hbit,
      testBit_replaceBits_of_notMem hbit]
  · rw [testBit_blockIndex_getElem hdistinct hj,
      testBit_blockBase hdistinct _ (List.getElem_mem hj), Bool.false_or,
      testBit_replaceBits_getElem hdistinct hj]

/-- A number has the target bits that it spells. -/
theorem replaceBits_readBits (hdistinct : targets.Nodup) :
    replaceBits targets (readBits targets index) index = index := by
  refine eq_of_testBit_targets targets (fun bit hbit => ?_) fun j hj => ?_
  · rw [testBit_replaceBits_of_notMem hbit]
  · rw [testBit_replaceBits_getElem hdistinct hj, testBit_readBits hj]

section Members

variable (hdistinct : targets.Nodup) (hbase : ∀ target ∈ targets, base.testBit target = false)

include hdistinct hbase

theorem blockBase_blockIndex : blockBase targets (blockIndex targets base sub) = base := by
  refine eq_of_testBit_targets targets (fun bit hbit => ?_) fun j hj => ?_
  · rw [blockBase, testBit_replaceBits_of_notMem hbit, testBit_blockIndex_of_notMem hbit]
  · rw [testBit_blockBase hdistinct _ (List.getElem_mem hj), hbase _ (List.getElem_mem hj)]

theorem readBits_blockIndex (hsub : sub < 2 ^ targets.length) :
    readBits targets (blockIndex targets base sub) = sub := by
  refine eq_of_testBit_rows readBits_lt hsub fun j hj => ?_
  rw [testBit_readBits hj, testBit_blockIndex_getElem hdistinct hj, hbase _ (List.getElem_mem hj),
    Bool.false_or]

/-- Different rows of a block have different numbers. -/
theorem blockIndex_inj {other : Nat} (hsub : sub < 2 ^ targets.length)
    (hother : other < 2 ^ targets.length)
    (h : blockIndex targets base sub = blockIndex targets base other) : sub = other := by
  rw [← readBits_blockIndex hdistinct hbase hsub, h, readBits_blockIndex hdistinct hbase hother]

end Members

/-- Replacing bits of the number of a basis state gives one. -/
theorem replaceBits_lt {qubits : Nat} (htargets : ∀ target ∈ targets, target < qubits)
    (hindex : index < 2 ^ qubits) : replaceBits targets sub index < 2 ^ qubits := by
  refine Nat.lt_pow_two_of_testBit _ fun bit hbit => ?_
  have hnotMem : bit ∉ targets := fun hmem => absurd (htargets bit hmem) (by omega)
  have hle : 2 ^ qubits ≤ 2 ^ bit := Nat.pow_le_pow_right Nat.two_pos hbit
  rw [testBit_replaceBits_of_notMem hnotMem, Nat.testBit_lt_two_pow (hindex.trans_le hle)]

end Register

end QubitScript
