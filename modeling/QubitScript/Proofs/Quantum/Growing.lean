import QubitScript.Proofs.Quantum.Exact
import QubitScript.Proofs.Quantum.Run

/-!
# Gates and new qubits

A new qubit doubles the state with zeros. With exact amplitudes it does not matter whether it is
added before or after a gate on other qubits, because the blocks of the gate lie either in the old
half or in the new one, which stays zero. An entangling gate, which adds both of its qubits first,
is therefore the same as its two steps, which add them one at a time.
-/

namespace QubitScript

namespace Register

open Matrix

variable {R : Type} [CommRing R]

/-! ## Zeros behind the state -/

section Doubling

variable {targets : List Nat} {qubits : Nat} {amplitudes : Array (Complex R)} {index : Nat}

/-- The state with a new qubit that is zero. -/
def doubled (amplitudes : Array (Complex R)) : Array (Complex R) :=
  amplitudes ++ Array.replicate amplitudes.size 0

theorem size_doubled (hsize : amplitudes.size = 2 ^ qubits) :
    (doubled amplitudes).size = 2 ^ (qubits + 1) := by
  rw [doubled, Array.size_append, Array.size_replicate, hsize, Nat.pow_succ, Nat.mul_two]

theorem getElem?_doubled_of_lt (h : index < amplitudes.size) :
    (doubled amplitudes)[index]? = amplitudes[index]? :=
  Array.getElem?_append_left h

theorem getElem?_doubled_of_le (h : amplitudes.size ≤ index)
    (hlt : index < amplitudes.size + amplitudes.size) : (doubled amplitudes)[index]? = some 0 := by
  rw [doubled, Array.getElem?_append_right h, Array.getElem?_replicate, if_pos (by omega)]

theorem getD_doubled_of_le (h : amplitudes.size ≤ index) :
    (doubled amplitudes).getD index 0 = 0 := by
  rw [doubled, Array.getD_eq_getD_getElem?, Array.getElem?_append_right h, Array.getElem?_replicate]
  split <;> rfl

variable [GateConstants R] (hdistinct : targets.Nodup)
  (htargets : ∀ target ∈ targets, target < qubits) (hsize : amplitudes.size = 2 ^ qubits)

include htargets hsize

/-- In the old half a gate reads the old amplitudes. -/
theorem tensorEntry_doubled_of_lt (matrix : List (Complex R)) (hindex : index < 2 ^ qubits) :
    tensorEntry matrix targets (doubled amplitudes) index =
      tensorEntry matrix targets amplitudes index := by
  have hentry : ∀ column, (doubled amplitudes).getD (replaceBits targets column index) .zero =
      amplitudes.getD (replaceBits targets column index) .zero := by
    intro column
    have hlt : replaceBits targets column index < amplitudes.size :=
      hsize ▸ replaceBits_lt htargets hindex
    rw [Array.getD_eq_getD_getElem?, getElem?_doubled_of_lt hlt, Array.getD_eq_getD_getElem?]
  simp only [tensorEntry, hentry]

include hdistinct

/-- In the new half a gate on the old qubits reads nothing but zeros. -/
theorem tensorEntry_doubled_of_testBit (matrix : List (Complex R))
    (hindex : index.testBit qubits = true) :
    tensorEntry matrix targets (doubled amplitudes) index = 0 := by
  have hblock : blockOf targets (doubled amplitudes) (blockBase targets index) = 0 := by
    funext row
    refine getD_doubled_of_le ?_
    rw [blockIndex_blockBase hdistinct, hsize]
    refine Nat.ge_two_pow_of_testBit ?_
    rwa [testBit_replaceBits_of_notMem fun hmem => Nat.lt_irrefl _ (htargets qubits hmem)]
  rw [tensorEntry_eq_mulVec hdistinct, hblock, mulVec_zero, Pi.zero_apply]

theorem applyMatrix_doubled (matrix : List (Complex R)) :
    applyMatrix matrix targets (doubled amplitudes) =
      doubled (applyMatrix matrix targets amplitudes) := by
  have hwider : ∀ target ∈ targets, target < qubits + 1 := fun target htarget =>
    Nat.lt_succ_of_lt (htargets target htarget)
  have hafter : (applyMatrix matrix targets amplitudes).size = 2 ^ qubits :=
    size_applyMatrix.trans hsize
  refine Array.ext_getElem? fun index => ?_
  by_cases hindex : index < 2 ^ (qubits + 1)
  · rw [getElem?_applyMatrix hdistinct hwider (size_doubled hsize) hindex]
    by_cases hold : index < 2 ^ qubits
    · rw [tensorEntry_doubled_of_lt htargets hsize matrix hold,
        getElem?_doubled_of_lt (by omega), getElem?_applyMatrix hdistinct htargets hsize hold]
    · have hbit : index.testBit qubits = true :=
        Nat.testBit_of_two_pow_le_and_two_pow_add_one_gt (by omega) hindex
      rw [tensorEntry_doubled_of_testBit hdistinct htargets hsize matrix hbit,
        getElem?_doubled_of_le (by omega) (by rw [hafter]; omega)]
  · rw [Array.getElem?_eq_none, Array.getElem?_eq_none]
    · rw [size_doubled hafter]
      omega
    · rw [size_applyMatrix, size_doubled hsize]
      omega

theorem applyOwnMatrix_doubled (gate : Gate) :
    applyOwnMatrix gate targets (doubled amplitudes) =
      doubled (applyOwnMatrix gate targets amplitudes) := by
  unfold applyOwnMatrix
  split
  · exact applyMatrix_doubled hdistinct htargets hsize _
  · rfl

end Doubling

/-! ## New qubits -/

variable [GateConstants R] {register : Register R} {name : String} {qubits : List String}

/-- The register with a gate applied to qubits that it has, and with the given instructions. -/
def acted (register : Register R) (gate : Gate) (targets : List Nat)
    (instructions : List Instruction) : Register R :=
  { register with amplitudes := applyOwnMatrix gate targets register.amplitudes, instructions }

/-- A qubit keeps its index when others are added. -/
theorem indexOf?_addQubits_of_mem (hname : name ∈ register.names) (qubits : List String) :
    (register.addQubits qubits).indexOf? name = register.indexOf? name := by
  refine List.foldlRecOn (motive := fun after : Register R =>
    after.indexOf? name = register.indexOf? name) _ _ rfl ?_
  intro after hafter other _
  split
  · exact hafter
  · obtain ⟨index, hindex⟩ := Option.isSome_iff_exists.mp (isSome_indexOf?.mpr hname)
    have hold : after.names.findIdx? (· == name) = some index := hafter.trans hindex
    show (after.names ++ [other]).findIdx? (· == name) = _
    rw [List.findIdx?_append, hold, Option.some_or, hindex]

theorem size_addQubit (hsize : register.amplitudes.size = 2 ^ register.names.length) :
    (register.addQubit name).amplitudes.size = 2 ^ (register.addQubit name).names.length := by
  rw [addQubit, List.length_append]
  exact size_doubled hsize

section Acting

variable {gate : Gate} {targets : List Nat} {instructions : List Instruction}
  (hdistinct : targets.Nodup)

include hdistinct

theorem addQubit_acted (hsize : register.amplitudes.size = 2 ^ register.names.length)
    (htargets : ∀ target ∈ targets, target < register.names.length) :
    (register.acted gate targets instructions).addQubit name =
      (register.addQubit name).acted gate targets instructions := by
  have hdoubled := applyOwnMatrix_doubled hdistinct htargets hsize gate
  unfold acted addQubit
  simp only [Register.mk.injEq, true_and, and_true]
  exact hdoubled.symm

/-- Qubits can be added before a gate on others as well as after it. -/
theorem addQubits_acted : ∀ {register : Register R},
    register.amplitudes.size = 2 ^ register.names.length →
    (∀ target ∈ targets, target < register.names.length) →
    (register.acted gate targets instructions).addQubits qubits =
      (register.addQubits qubits).acted gate targets instructions := by
  induction qubits with
  | nil => exact fun _ _ => rfl
  | cons name qubits ih =>
      intro register hsize htargets
      have hwider : ∀ target ∈ targets, target < (register.addQubit name).names.length := by
        intro target htarget
        rw [addQubit, List.length_append]
        exact Nat.lt_succ_of_lt (htargets target htarget)
      -- A gate leaves the names as they are, so the same ones are new before it and after it.
      have hnames : (register.acted gate targets instructions).indexOf? name =
          register.indexOf? name := rfl
      rw [addQubits_cons, addQubits_cons, hnames]
      by_cases hname : (register.indexOf? name).isSome
      · rw [if_pos hname, if_pos hname, ih hsize htargets]
      · rw [if_neg hname, if_neg hname, addQubit_acted hdistinct hsize htargets,
          ih (size_addQubit hsize) hwider]

end Acting

/-! ## Entangling -/

section Entangling

variable {a b : String}

omit [CommRing R] [GateConstants R] in
theorem admits_hadamard (h : register.Admits .entangle [a, b]) : register.Admits .h [a] where
  arity := rfl
  distinct := List.nodup_singleton a
  room := by
    have hroom := h.room
    have hfewer : register.freshCount [a] ≤ register.freshCount [a, b] :=
      ((List.Sublist.refl [a]).append (List.nil_sublist [b])).filter _ |>.length_le
    omega

/-- After the Hadamard gate the second qubit comes to the place where the entangling gate puts it,
and the state is the one that the entangling gate has come to by then. -/
theorem addQubits_applied_hadamard (hregister : register.WellFormed) (a b : String) :
    let grown := register.addQubits [a, b]
    let targets := [a, b].filterMap grown.indexOf?
    (register.applied .h [a]).addQubits [a, b] =
      grown.acted .h (targets.take 1) (register.instructions ++ [⟨.h, [a]⟩]) := by
  intro grown targets
  let first := register.addQubits [a]
  have hfirst : a ∈ first.names := mem_names_addQubits (List.nodup_singleton a) (.head _)
  obtain ⟨index, hindex⟩ := Option.isSome_iff_exists.mp (isSome_indexOf?.mpr hfirst)
  have hgrown : first.addQubits [a, b] = grown := by
    rw [addQubits_cons, if_pos (isSome_indexOf?.mpr hfirst)]
    rfl
  have htargets : targets.take 1 = [index] := by
    have hkept : grown.indexOf? a = some index :=
      (indexOf?_addQubits_of_mem hfirst [b]).trans hindex
    show ([a, b].filterMap grown.indexOf?).take 1 = [index]
    rw [List.filterMap_cons_some hkept]
    rfl
  have hhadamard : register.applied .h [a] =
      first.acted .h [index] (register.instructions ++ [⟨.h, [a]⟩]) := by
    have hsingle : [a].filterMap first.indexOf? = [index] := by
      rw [List.filterMap_cons_some hindex]
      rfl
    have hinstructions : first.instructions = register.instructions := instructions_addQubits
    rw [← hsingle, ← hinstructions]
    rfl
  rw [hhadamard, addQubits_acted (List.nodup_singleton index) (size_addQubits hregister.size)
    (List.forall_mem_singleton.mpr (lt_of_indexOf? hindex)), hgrown, htargets]

theorem admits_cnot (hregister : register.WellFormed) (hadmits : register.Admits .entangle [a, b]) :
    (register.applied .h [a]).Admits .cnot [a, b] where
  arity := rfl
  distinct := hadmits.distinct
  room := by
    have hnames := congrArg (fun grown => grown.names.length)
      (addQubits_applied_hadamard hregister a b)
    have hroom := hadmits.room
    simp only [acted, names_addQubits hadmits.distinct, List.length_append,
      ← freshCount_eq] at hnames
    omega

theorem applied_cnot_applied_hadamard (hregister : register.WellFormed) :
    ((register.applied .h [a]).applied .cnot [a, b]).names =
        (register.applied .entangle [a, b]).names ∧
      ((register.applied .h [a]).applied .cnot [a, b]).amplitudes =
        (register.applied .entangle [a, b]).amplitudes := by
  rw [applied, addQubits_applied_hadamard hregister a b]
  exact ⟨rfl, rfl⟩

/-- After any calls on a fresh register with exact amplitudes, and whichever of the two names it has
already, where the entangling gate succeeds its two steps succeed one after the other, and lead to
the same names and the same amplitudes. -/
theorem entangle_eq_hadamard_then_cnot (calls : List Instruction) (a b : String)
    {after : Register R} (h : (afterCalls calls : Register R).apply .entangle [a, b] = .ok after) :
    ∃ half whole, (afterCalls calls : Register R).apply .h [a] = .ok half ∧
      half.apply .cnot [a, b] = .ok whole ∧
      whole.names = after.names ∧ whole.amplitudes = after.amplitudes := by
  have hregister : (afterCalls calls : Register R).WellFormed := wellFormed_afterCalls calls
  obtain ⟨hadmits, rfl⟩ := apply_eq_ok.mp h
  exact ⟨_, _, apply_eq_ok.mpr ⟨admits_hadamard hadmits, rfl⟩,
    apply_eq_ok.mpr ⟨admits_cnot hregister hadmits, rfl⟩, applied_cnot_applied_hadamard hregister⟩

/-- Only the second qubit is there before. -/
theorem entangle_with_known_qubit :
    ∃ after : Register (ZMod 7), (afterCalls [⟨.x, ["b"]⟩]).apply .entangle ["a", "b"] = .ok after ∧
      ∃ half whole, (afterCalls [⟨.x, ["b"]⟩] : Register (ZMod 7)).apply .h ["a"] = .ok half ∧
        half.apply .cnot ["a", "b"] = .ok whole ∧
        whole.names = after.names ∧ whole.amplitudes = after.amplitudes := by
  let before : Register (ZMod 7) := afterCalls [⟨.x, ["b"]⟩]
  have hadmits : before.Admits .entangle ["a", "b"] := ⟨rfl, by decide, by decide⟩
  have hentangle : before.apply .entangle ["a", "b"] = .ok (before.applied .entangle ["a", "b"]) :=
    apply_eq_ok.mpr ⟨hadmits, rfl⟩
  exact ⟨_, hentangle, entangle_eq_hadamard_then_cnot [⟨.x, ["b"]⟩] "a" "b" hentangle⟩

end Entangling

end Register

end QubitScript
