import QubitScript.Proofs.Quantum.Exact
import QubitScript.Proofs.Quantum.Run

/-!
# Gates on different qubits

A matrix finds the amplitudes that it reads by the bits of its targets. Where the targets of two
matrices are disjoint, neither changes the bits that the other spells, so that with exact amplitudes
every new amplitude is the same double sum in both orders. Calls on different qubits that a register
has already may therefore change places, since neither changes the names of the register.
-/

namespace QubitScript

namespace Register

/-! ## Bits of disjoint targets -/

section Bits

variable {first second targets : List Nat} {sub other index bit : Nat}

/-- A bit of the result is either one of the replaced bits or the same bit of the number. -/
theorem testBit_replaceBits_congr (h : index.testBit bit = other.testBit bit) :
    (replaceBits targets sub index).testBit bit = (replaceBits targets sub other).testBit bit := by
  induction targets with
  | nil => exact h
  | cons target targets ih =>
      rw [replaceBits, replaceBits, testBit_withBit, testBit_withBit, ih]

theorem readBits_replaceBits_of_disjoint (hdisjoint : first.Disjoint second) :
    readBits first (replaceBits second sub index) = readBits first index := by
  refine eq_of_testBit_rows readBits_lt readBits_lt fun j hj => ?_
  have hother : first[j] ∉ second := hdisjoint (List.getElem_mem hj)
  rw [testBit_readBits hj, testBit_readBits hj, testBit_replaceBits_of_notMem hother]

theorem replaceBits_comm_of_disjoint (hdisjoint : first.Disjoint second) :
    replaceBits first sub (replaceBits second other index) =
      replaceBits second other (replaceBits first sub index) := by
  refine Nat.eq_of_testBit_eq fun bit => ?_
  by_cases hbit : bit ∈ first
  · have hother : bit ∉ second := hdisjoint hbit
    rw [testBit_replaceBits_of_notMem hother]
    exact testBit_replaceBits_congr (testBit_replaceBits_of_notMem hother)
  · rw [testBit_replaceBits_of_notMem hbit]
    exact testBit_replaceBits_congr (testBit_replaceBits_of_notMem hbit).symm

end Bits

/-! ## Targets -/

/-- Distinct targets among the qubits of a state. -/
structure AreTargets (targets : List Nat) (qubits : Nat) : Prop where
  distinct : targets.Nodup
  bounded : ∀ target ∈ targets, target < qubits

theorem AreTargets.take {targets : List Nat} {qubits : Nat} (h : AreTargets targets qubits)
    (count : Nat) : AreTargets (targets.take count) qubits where
  distinct := h.distinct.sublist (List.take_sublist count targets)
  bounded target htarget := h.bounded target (List.mem_of_mem_take htarget)

theorem areTargets {R : Type} {register : Register R} {qubits : List String}
    (hdistinct : qubits.Nodup) :
    AreTargets (qubits.filterMap register.indexOf?) register.names.length where
  distinct := nodup_targets hdistinct
  bounded target htarget := by
    obtain ⟨name, -, hname⟩ := List.mem_filterMap.mp htarget
    exact lt_of_indexOf? hname

theorem disjoint_targets {R : Type} {register : Register R} {qubits others : List String}
    (h : qubits.Disjoint others) :
    (qubits.filterMap register.indexOf?).Disjoint (others.filterMap register.indexOf?) := by
  intro target hfirst hsecond
  obtain ⟨name, hname, hindex⟩ := List.mem_filterMap.mp hfirst
  obtain ⟨name', hname', hindex'⟩ := List.mem_filterMap.mp hsecond
  exact h hname (eq_of_indexOf? hindex hindex' ▸ hname')

theorem size_applyOwnMatrix {R : Type} [Scalar R] {gate : Gate} {targets : List Nat}
    {amplitudes : Array (Complex R)} :
    (applyOwnMatrix gate targets amplitudes).size = amplitudes.size := by
  unfold applyOwnMatrix
  split
  · exact size_applyMatrix
  · rfl

theorem transform_eq_applyOwnMatrix {R : Type} [Scalar R] {gate : Gate} (h : gate ≠ .entangle)
    (targets : List Nat) (amplitudes : Array (Complex R)) :
    transform gate targets amplitudes = applyOwnMatrix gate targets amplitudes := by
  cases gate with
  | entangle => exact absurd rfl h
  | _ => rfl

/-! ## Registers that differ in their instructions only -/

section Calls

variable {R : Type}

/-- Registers that agree in everything that gates look at. -/
structure SameState (register other : Register R) : Prop where
  names : register.names = other.names
  amplitudes : register.amplitudes = other.amplitudes

/-- What a gate needs concerns the names alone. -/
theorem Admits.of_names_eq {register other : Register R} {gate : Gate} {qubits : List String}
    (h : register.Admits gate qubits) (hnames : register.names = other.names) :
    other.Admits gate qubits where
  arity := h.arity
  distinct := h.distinct
  room := by
    rw [freshCount_eq, ← hnames, ← freshCount_eq]
    exact h.room

theorem indexOf?_of_names_eq {register other : Register R} (hnames : register.names = other.names) :
    register.indexOf? = other.indexOf? := by
  funext name
  rw [indexOf?, indexOf?, hnames]

variable [Scalar R]

theorem attempt_of_admits {register : Register R} {call : Instruction}
    (h : register.Admits call.gate call.qubits) :
    register.attempt call = register.applied call.gate call.qubits := by
  rw [attempt, apply_eq_ok.mpr ⟨h, rfl⟩]

theorem attempt_of_not_admits {register : Register R} {call : Instruction}
    (h : ¬ register.Admits call.gate call.qubits) : register.attempt call = register := by
  unfold attempt
  split
  next after hafter => exact absurd (apply_eq_ok.mp hafter).1 h
  next => rfl

theorem SameState.addQubits {qubits : List String} : ∀ {register other : Register R},
    SameState register other → SameState (register.addQubits qubits) (other.addQubits qubits) := by
  induction qubits with
  | nil => exact fun h => h
  | cons name qubits ih =>
      intro register other h
      rw [addQubits_cons, addQubits_cons, ← indexOf?_of_names_eq h.names]
      by_cases hname : (register.indexOf? name).isSome
      · rw [if_pos hname, if_pos hname]
        exact ih h
      · rw [if_neg hname, if_neg hname]
        refine ih ⟨?_, ?_⟩
        · rw [addQubit, addQubit, h.names]
        · rw [addQubit, addQubit, h.amplitudes]

theorem SameState.attempt {register other : Register R} (h : SameState register other)
    (call : Instruction) : SameState (register.attempt call) (other.attempt call) := by
  by_cases hadmits : register.Admits call.gate call.qubits
  · rw [attempt_of_admits hadmits, attempt_of_admits (hadmits.of_names_eq h.names)]
    have hgrown : SameState (register.addQubits call.qubits) (other.addQubits call.qubits) :=
      h.addQubits
    refine ⟨hgrown.names, ?_⟩
    show transform _ _ _ = transform _ _ _
    rw [indexOf?_of_names_eq hgrown.names, hgrown.amplitudes]
  · rw [attempt_of_not_admits hadmits,
      attempt_of_not_admits fun h' => hadmits (h'.of_names_eq h.names.symm)]
    exact h

theorem SameState.attemptAll {register other : Register R} (h : SameState register other)
    (calls : List Instruction) :
    SameState (calls.foldl Register.attempt register) (calls.foldl Register.attempt other) := by
  induction calls generalizing register other with
  | nil => exact h
  | cons call calls ih => exact ih (h.attempt call)

/-! ## Calls on qubits that are there -/

variable {register : Register R} {call other : Instruction}

theorem addQubits_of_known {qubits : List String} (h : ∀ name ∈ qubits, name ∈ register.names) :
    register.addQubits qubits = register := by
  induction qubits with
  | nil => rfl
  | cons name qubits ih =>
      rw [List.forall_mem_cons] at h
      rw [addQubits_cons, if_pos (isSome_indexOf?.mpr h.1), ih h.2]

theorem names_attempt_of_known (h : ∀ name ∈ call.qubits, name ∈ register.names) :
    (register.attempt call).names = register.names := by
  by_cases hadmits : register.Admits call.gate call.qubits
  · rw [attempt_of_admits hadmits, applied, addQubits_of_known h]
  · rw [attempt_of_not_admits hadmits]

/-- A call on known qubits acts on the amplitudes by its gate. -/
theorem amplitudes_attempt_of_known (h : ∀ name ∈ call.qubits, name ∈ register.names)
    (hadmits : register.Admits call.gate call.qubits) :
    (register.attempt call).amplitudes =
      transform call.gate (call.qubits.filterMap register.indexOf?) register.amplitudes := by
  rw [attempt_of_admits hadmits, applied, addQubits_of_known h]

/-- A call that fails changes nothing, and the other one makes no difference to its failing. -/
theorem attempt_attempt_of_not_admits (hother : ∀ name ∈ other.qubits, name ∈ register.names)
    (h : ¬ register.Admits call.gate call.qubits) :
    SameState ((register.attempt call).attempt other) ((register.attempt other).attempt call) := by
  have hlater : ¬ (register.attempt other).Admits call.gate call.qubits := fun h' =>
    h (h'.of_names_eq (names_attempt_of_known hother))
  rw [attempt_of_not_admits h, attempt_of_not_admits hlater]
  exact ⟨rfl, rfl⟩

end Calls

/-! ## Two matrices -/

variable {R : Type} [CommRing R] [GateConstants R]

section Matrices

variable {first second : List Nat} {qubits index : Nat} {amplitudes : Array (Complex R)}

/-- The amplitude with the number `index` after a matrix on `first` and another one on `second`. -/
def doubleSum (matrix other : List (Complex R)) (first second : List Nat)
    (amplitudes : Array (Complex R)) (index : Nat) : Complex R :=
  ∑ column ∈ Finset.range (2 ^ second.length), ∑ sub ∈ Finset.range (2 ^ first.length),
    other.getD (readBits second index * 2 ^ second.length + column) 0 *
      (matrix.getD (readBits first index * 2 ^ first.length + sub) 0 *
        amplitudes.getD (replaceBits first sub (replaceBits second column index)) 0)

omit [GateConstants R] in
theorem doubleSum_comm (hdisjoint : first.Disjoint second) (matrix other : List (Complex R)) :
    doubleSum matrix other first second amplitudes index =
      doubleSum other matrix second first amplitudes index := by
  unfold doubleSum
  rw [Finset.sum_comm]
  refine Finset.sum_congr rfl fun sub _ => Finset.sum_congr rfl fun column _ => ?_
  rw [replaceBits_comm_of_disjoint hdisjoint]
  ring

theorem tensorEntry_applyMatrix (hfirst : AreTargets first qubits)
    (hsecond : AreTargets second qubits) (hdisjoint : first.Disjoint second)
    (hsize : amplitudes.size = 2 ^ qubits) (hindex : index < 2 ^ qubits)
    (matrix other : List (Complex R)) :
    tensorEntry other second (applyMatrix matrix first amplitudes) index =
      doubleSum matrix other first second amplitudes index := by
  rw [tensorEntry_eq_sum, doubleSum]
  refine Finset.sum_congr rfl fun column _ => ?_
  have hlt : replaceBits second column index < 2 ^ qubits := replaceBits_lt hsecond.bounded hindex
  rw [Array.getD_eq_getD_getElem?, getElem?_applyMatrix hfirst.distinct hfirst.bounded hsize hlt,
    Option.getD_some, tensorEntry_eq_sum, readBits_replaceBits_of_disjoint hdisjoint,
    Finset.mul_sum]

/-- Matrices on disjoint targets may be applied in either order. -/
theorem applyMatrix_comm (hfirst : AreTargets first qubits) (hsecond : AreTargets second qubits)
    (hdisjoint : first.Disjoint second) (hsize : amplitudes.size = 2 ^ qubits)
    (matrix other : List (Complex R)) :
    applyMatrix other second (applyMatrix matrix first amplitudes) =
      applyMatrix matrix first (applyMatrix other second amplitudes) := by
  have hafter : (applyMatrix matrix first amplitudes).size = 2 ^ qubits :=
    size_applyMatrix.trans hsize
  have hafter' : (applyMatrix other second amplitudes).size = 2 ^ qubits :=
    size_applyMatrix.trans hsize
  refine Array.ext_getElem? fun index => ?_
  by_cases hindex : index < 2 ^ qubits
  · rw [getElem?_applyMatrix hsecond.distinct hsecond.bounded hafter hindex,
      getElem?_applyMatrix hfirst.distinct hfirst.bounded hafter' hindex,
      tensorEntry_applyMatrix hfirst hsecond hdisjoint hsize hindex,
      tensorEntry_applyMatrix hsecond hfirst hdisjoint.symm hsize hindex,
      doubleSum_comm hdisjoint]
  · rw [Array.getElem?_eq_none, Array.getElem?_eq_none]
    · rw [size_applyMatrix, hafter']
      omega
    · rw [size_applyMatrix, hafter]
      omega

/-! ## Two gates -/

variable (hfirst : AreTargets first qubits) (hsecond : AreTargets second qubits)
  (hdisjoint : first.Disjoint second) (hsize : amplitudes.size = 2 ^ qubits)

include hfirst hsecond hdisjoint hsize

theorem applyOwnMatrix_comm (gate other : Gate) :
    applyOwnMatrix other second (applyOwnMatrix gate first amplitudes) =
      applyOwnMatrix gate first (applyOwnMatrix other second amplitudes) := by
  unfold applyOwnMatrix
  cases (gate.matrix? : Option (List (Complex R))) with
  | none => rfl
  | some matrix =>
      cases (other.matrix? : Option (List (Complex R))) with
      | none => rfl
      | some matrix' => exact applyMatrix_comm hfirst hsecond hdisjoint hsize matrix matrix'

/-- The steps of an entangling gate act on targets of their own, so that a matrix passes them one
after the other. -/
theorem transform_applyOwnMatrix (gate other : Gate) :
    transform other second (applyOwnMatrix gate first amplitudes) =
      applyOwnMatrix gate first (transform other second amplitudes) := by
  by_cases hother : other = .entangle
  · -- The Hadamard gate acts on the first target alone, the controlled NOT on both.
    subst hother
    have hstep : first.Disjoint (second.take 1) :=
      List.disjoint_of_subset_right (List.take_subset 1 second) hdisjoint
    show applyOwnMatrix .cnot second (applyOwnMatrix .h (second.take 1)
        (applyOwnMatrix gate first amplitudes)) = _
    rw [applyOwnMatrix_comm hfirst (hsecond.take 1) hstep hsize,
      applyOwnMatrix_comm hfirst hsecond hdisjoint (size_applyOwnMatrix.trans hsize)]
    rfl
  · rw [transform_eq_applyOwnMatrix hother, transform_eq_applyOwnMatrix hother]
    exact applyOwnMatrix_comm hfirst hsecond hdisjoint hsize gate other

theorem transform_comm (gate other : Gate) :
    transform other second (transform gate first amplitudes) =
      transform gate first (transform other second amplitudes) := by
  by_cases hgate : gate = .entangle
  · subst hgate
    have hstep : (first.take 1).Disjoint second :=
      List.disjoint_of_subset_left (List.take_subset 1 first) hdisjoint
    show transform other second (applyOwnMatrix .cnot first
        (applyOwnMatrix .h (first.take 1) amplitudes)) = _
    rw [transform_applyOwnMatrix hfirst hsecond hdisjoint (size_applyOwnMatrix.trans hsize),
      transform_applyOwnMatrix (hfirst.take 1) hsecond hstep hsize]
    rfl
  · rw [transform_eq_applyOwnMatrix hgate, transform_eq_applyOwnMatrix hgate]
    exact transform_applyOwnMatrix hfirst hsecond hdisjoint hsize gate other

end Matrices

/-! ## Two calls -/

/-- Calls on different known qubits may change places. -/
theorem attempt_comm {register : Register R} {call other : Instruction}
    (hregister : register.WellFormed) (hcall : ∀ name ∈ call.qubits, name ∈ register.names)
    (hother : ∀ name ∈ other.qubits, name ∈ register.names)
    (hdisjoint : call.qubits.Disjoint other.qubits) :
    SameState ((register.attempt call).attempt other) ((register.attempt other).attempt call) := by
  by_cases hadmits : register.Admits call.gate call.qubits
  case neg => exact attempt_attempt_of_not_admits hother hadmits
  by_cases hadmits' : register.Admits other.gate other.qubits
  case neg =>
    obtain ⟨hnames, hamplitudes⟩ := attempt_attempt_of_not_admits hcall hadmits'
    exact ⟨hnames.symm, hamplitudes.symm⟩
  have hnames := names_attempt_of_known hcall
  have hnames' := names_attempt_of_known hother
  -- Neither call adds a qubit, so each finds its targets where they are without the other one.
  have hlater : ∀ name ∈ other.qubits, name ∈ (register.attempt call).names := by rwa [hnames]
  have hlater' : ∀ name ∈ call.qubits, name ∈ (register.attempt other).names := by rwa [hnames']
  constructor
  case names => rw [names_attempt_of_known hlater, names_attempt_of_known hlater', hnames, hnames']
  case amplitudes =>
    rw [amplitudes_attempt_of_known hlater (hadmits'.of_names_eq hnames.symm),
      amplitudes_attempt_of_known hlater' (hadmits.of_names_eq hnames'.symm),
      indexOf?_of_names_eq hnames, indexOf?_of_names_eq hnames',
      amplitudes_attempt_of_known hcall hadmits, amplitudes_attempt_of_known hother hadmits']
    exact transform_comm (areTargets hadmits.distinct) (areTargets hadmits'.distinct)
      (disjoint_targets hdisjoint) hregister.size _ _

/-- With exact amplitudes two matrices on disjoint lists of distinct targets may be applied to a
state in either order. So two calls that stand next to each other anywhere among the calls on a
fresh register may change places if their qubits are different and the register has them all by
then: the names and the amplitudes at the end are the same. -/
theorem disjoint_gates_commute :
    (∀ (qubits : Nat) (amplitudes : Array (Complex R)) (first second : List Nat)
      (matrix other : List (Complex R)), amplitudes.size = 2 ^ qubits →
      first.Nodup → (∀ target ∈ first, target < qubits) →
      second.Nodup → (∀ target ∈ second, target < qubits) → first.Disjoint second →
      applyMatrix other second (applyMatrix matrix first amplitudes) =
        applyMatrix matrix first (applyMatrix other second amplitudes)) ∧
    ∀ (before after : List Instruction) (call other : Instruction),
      (∀ name ∈ call.qubits, name ∈ (afterCalls before : Register R).names) →
      (∀ name ∈ other.qubits, name ∈ (afterCalls before : Register R).names) →
      call.qubits.Disjoint other.qubits →
      let register : Register R := afterCalls (before ++ call :: other :: after)
      let swapped : Register R := afterCalls (before ++ other :: call :: after)
      register.names = swapped.names ∧ register.amplitudes = swapped.amplitudes := by
  constructor
  · intro qubits amplitudes first second matrix other hsize hfirst hbounded hsecond hbounded'
      hdisjoint
    exact applyMatrix_comm ⟨hfirst, hbounded⟩ ⟨hsecond, hbounded'⟩ hdisjoint hsize matrix other
  · intro before after call other hcall hother hdisjoint register swapped
    have hbefore : (afterCalls before : Register R).WellFormed := wellFormed_afterCalls before
    have hsame : SameState register swapped := by
      show SameState ((before ++ call :: other :: after).foldl attempt empty)
        ((before ++ other :: call :: after).foldl attempt empty)
      rw [List.foldl_append, List.foldl_append]
      -- The two orders differ in the log, which the calls after them do not look at.
      exact (attempt_comm hbefore hcall hother hdisjoint).attemptAll after
    exact ⟨hsame.names, hsame.amplitudes⟩

/-- The target of one matrix lies between those of the other, and a qubit is turned before or after
the two others are entangled. -/
theorem swap_past_entangled_pair :
    let amplitudes : Array (Complex (ZMod 7)) := #[1, 2, 3, 4, 5, 6, 0, .unit]
    let permuting : List (Complex (ZMod 7)) := Gate.permutation [0, 2, 3, 1]
    let before : List Instruction := [⟨.cnot, ["a", "b"]⟩, ⟨.x, ["c"]⟩]
    let after : List Instruction := [⟨.toffoli, ["c", "b", "d"]⟩]
    let first : Register (ZMod 7) :=
      afterCalls (before ++ ⟨.entangle, ["c", "a"]⟩ :: ⟨.y, ["b"]⟩ :: after)
    let second : Register (ZMod 7) :=
      afterCalls (before ++ ⟨.y, ["b"]⟩ :: ⟨.entangle, ["c", "a"]⟩ :: after)
    applyMatrix [3, 1, 4, 1] [1] (applyMatrix permuting [2, 0] amplitudes) =
        applyMatrix permuting [2, 0] (applyMatrix [3, 1, 4, 1] [1] amplitudes) ∧
      (afterCalls before : Register (ZMod 7)).names = ["a", "b", "c"] ∧
      first.names = second.names ∧ first.amplitudes = second.amplitudes := by
  intro amplitudes permuting before after first second
  have hnames : (afterCalls before : Register (ZMod 7)).names = ["a", "b", "c"] := by decide
  refine ⟨?_, hnames, ?_⟩
  · exact disjoint_gates_commute.1 3 amplitudes [2, 0] [1] _ _ rfl (by decide) (by decide)
      (by decide) (by decide) (List.disjoint_singleton.mpr (by decide))
  · refine disjoint_gates_commute.2 before after _ _ ?_ ?_ (List.disjoint_singleton.mpr (by decide))
    · rw [hnames]
      decide
    · rw [hnames]
      decide

end Register

end QubitScript
