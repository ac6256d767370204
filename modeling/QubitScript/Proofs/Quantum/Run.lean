import Mathlib.Data.List.Nodup
import QubitScript.Proofs.Quantum.Checked

/-!
# Registers in step

The names, the amplitudes and the instructions of a register are kept apart and change one after the
other. After any calls on a fresh register, whether they succeed or fail, they still belong
together.
-/

namespace QubitScript

namespace Register

variable {R : Type}

/-! ## Lists of names -/

theorem eraseDups_of_nodup {names : List String} (h : names.Nodup) : names.eraseDups = names := by
  induction names with
  | nil => rfl
  | cons name names ih =>
      obtain ⟨hname, hnames⟩ := List.nodup_cons.mp h
      have hother : names.filter (fun other => !other == name) = names := by
        refine List.filter_eq_self.mpr fun other hother => ?_
        simpa using fun heq : other = name => hname (heq ▸ hother)
      rw [List.eraseDups_cons, hother, ih hnames]

/-- New names, once each, after the names that were there. -/
theorem eraseDups_append_of_nodup {mentioned qubits : List String} (h : qubits.Nodup) :
    (mentioned ++ qubits).eraseDups =
      mentioned.eraseDups ++ qubits.filter (· ∉ mentioned.eraseDups) := by
  have hremove : qubits.removeAll mentioned = qubits.filter (· ∉ mentioned.eraseDups) := by
    refine List.filter_congr fun name _ => ?_
    simp
  rw [List.eraseDups_append, hremove, eraseDups_of_nodup (h.filter _)]

theorem firstRepeated?_eq_none {qubits : List String} :
    firstRepeated? qubits = none ↔ qubits.Nodup := by
  rw [firstRepeated?, Option.map_eq_none_iff, List.find?_eq_none, List.nodup_iff_pairwise_ne,
    List.pairwise_iff_getElem]
  constructor
  · intro h i j hi hj hij heq
    refine h (qubits[j], j) (List.mk_mem_zipIdx_iff_getElem?.mpr (List.getElem?_eq_getElem hj)) ?_
    rw [List.contains_iff_mem]
    exact List.mem_take_iff_getElem.mpr ⟨i, by omega, heq⟩
  · rintro h ⟨name, j⟩ hname hcontains
    obtain ⟨hj, rfl⟩ := List.getElem?_eq_some_iff.mp (List.mk_mem_zipIdx_iff_getElem?.mp hname)
    obtain ⟨i, hi, heq⟩ := List.mem_take_iff_getElem.mp (List.contains_iff_mem.mp hcontains)
    exact h i j (by omega) hj (by omega) heq

/-! ## Requirements -/

variable {register : Register R} {name : String} {qubits : List String}

theorem isSome_indexOf? : (register.indexOf? name).isSome ↔ name ∈ register.names :=
  List.isSome_idxOf?

theorem isNone_indexOf? : (register.indexOf? name).isNone ↔ name ∉ register.names := by
  rw [indexOf?, Option.isNone_iff_eq_none, List.idxOf?_eq_none_iff]

theorem lt_of_indexOf? {index : Nat} (h : register.indexOf? name = some index) :
    index < register.names.length :=
  (List.idxOf?_eq_some_iff.mp h).1

/-- A name is found at its index, so that different names have different ones. -/
theorem eq_of_indexOf? {other : String} {index : Nat} (h : register.indexOf? name = some index)
    (h' : register.indexOf? other = some index) : name = other := by
  obtain ⟨hindex, heq, -⟩ := List.idxOf?_eq_some_iff.mp h
  obtain ⟨_, heq', -⟩ := List.idxOf?_eq_some_iff.mp h'
  exact heq.symm.trans heq'

/-- Distinct names have distinct indices. -/
theorem nodup_targets (h : qubits.Nodup) : (qubits.filterMap register.indexOf?).Nodup :=
  h.filterMap fun _ _ _ => eq_of_indexOf?

theorem freshCount_eq :
    register.freshCount qubits = (qubits.filter (· ∉ register.names)).length := by
  refine congrArg List.length (List.filter_congr fun name _ => ?_)
  rw [Bool.eq_iff_iff, isNone_indexOf?, decide_eq_true_iff]

/-- What a gate needs in order to be applied. -/
structure Admits (register : Register R) (gate : Gate) (qubits : List String) : Prop where
  arity : qubits.length = gate.arity
  distinct : qubits.Nodup
  room : register.names.length + register.freshCount qubits ≤ maxQubits

/-- Why a gate is not applied, if it is not. -/
def refusal? (register : Register R) (gate : Gate) (qubits : List String) : Option EvalFault :=
  if qubits.length ≠ gate.arity then some .argumentCount
  else match firstRepeated? qubits with
    | some name => some (.repeatedQubit name)
    | none =>
      if maxQubits < register.names.length + register.freshCount qubits then
        some (.tooManyQubits maxQubits)
      else none

theorem refusal?_eq_none {gate : Gate} :
    register.refusal? gate qubits = none ↔ register.Admits gate qubits := by
  rw [refusal?]
  by_cases harity : qubits.length = gate.arity
  · rw [if_neg (not_not_intro harity)]
    cases hrepeated : firstRepeated? qubits with
    | some name =>
        refine ⟨nofun, fun h => ?_⟩
        rw [firstRepeated?_eq_none.mpr h.distinct] at hrepeated
        cases hrepeated
    | none =>
        by_cases hroom : maxQubits < register.names.length + register.freshCount qubits
        · rw [if_pos hroom]
          exact ⟨nofun, fun h => absurd h.room (by omega)⟩
        · rw [if_neg hroom]
          exact ⟨fun _ => ⟨harity, firstRepeated?_eq_none.mp hrepeated, by omega⟩, fun _ => rfl⟩
  · rw [if_pos harity]
    exact ⟨nofun, fun h => absurd h.arity harity⟩

/-! ## Adding qubits -/

variable [Scalar R]

theorem addQubits_cons : register.addQubits (name :: qubits) =
    (if (register.indexOf? name).isSome then register else register.addQubit name).addQubits
      qubits := rfl

theorem instructions_addQubits :
    (register.addQubits qubits).instructions = register.instructions := by
  refine List.foldlRecOn (motive := fun after : Register R =>
    after.instructions = register.instructions) _ _ rfl ?_
  intro after hafter name _
  split <;> exact hafter

theorem size_addQubits (hsize : register.amplitudes.size = 2 ^ register.names.length) :
    (register.addQubits qubits).amplitudes.size =
      2 ^ (register.addQubits qubits).names.length := by
  refine List.foldlRecOn (motive := fun after : Register R =>
    after.amplitudes.size = 2 ^ after.names.length) _ _ hsize ?_
  intro after hafter name _
  split
  · exact hafter
  · rw [addQubit, Array.size_append, Array.size_replicate, List.length_append, hafter,
      List.length_singleton, Nat.pow_succ, Nat.mul_two]

theorem names_addQubits (hdistinct : qubits.Nodup) : ∀ register : Register R,
    (register.addQubits qubits).names =
      register.names ++ qubits.filter (· ∉ register.names) := by
  induction qubits with
  | nil =>
      intro register
      exact (List.append_nil _).symm
  | cons name qubits ih =>
      intro register
      obtain ⟨hname, hqubits⟩ := List.nodup_cons.mp hdistinct
      rw [addQubits_cons]
      by_cases hmem : name ∈ register.names
      · rw [if_pos (isSome_indexOf?.mpr hmem), ih hqubits, List.filter_cons_of_neg (by simpa)]
      · rw [if_neg (mt isSome_indexOf?.mp hmem), ih hqubits, List.filter_cons_of_pos (by simpa)]
        -- The new name is none of the others, so the same ones are fresh after it.
        have hothers : qubits.filter (· ∉ (register.addQubit name).names) =
            qubits.filter (· ∉ register.names) := by
          refine List.filter_congr fun other hother => ?_
          have hne : other ≠ name := fun h => hname (h ▸ hother)
          simp [addQubit, hne]
        rw [hothers, addQubit, List.append_assoc, List.singleton_append]

/-- Every qubit of a gate has an index in the register by the time that the gate is applied. -/
theorem mem_names_addQubits (hdistinct : qubits.Nodup) (hname : name ∈ qubits) :
    name ∈ (register.addQubits qubits).names := by
  rw [names_addQubits hdistinct, List.mem_append, List.mem_filter]
  by_cases hmem : name ∈ register.names
  · exact .inl hmem
  · exact .inr ⟨hname, by simpa⟩

theorem length_targets (hdistinct : qubits.Nodup) :
    (qubits.filterMap (register.addQubits qubits).indexOf?).length = qubits.length :=
  List.filterMap_length_eq_length.mpr fun _ hname =>
    isSome_indexOf?.mpr (mem_names_addQubits hdistinct hname)

theorem target_lt {target : Nat}
    (h : target ∈ qubits.filterMap (register.addQubits qubits).indexOf?) :
    target < (register.addQubits qubits).names.length := by
  obtain ⟨name, -, hname⟩ := List.mem_filterMap.mp h
  exact lt_of_indexOf? hname

/-! ## Calls -/

/-- The register that a gate leaves behind if nothing stands in its way. -/
def applied (register : Register R) (gate : Gate) (qubits : List String) : Register R :=
  let register := register.addQubits qubits
  let targets := qubits.filterMap register.indexOf?
  { register with
    amplitudes := transform gate targets register.amplitudes
    instructions := register.instructions ++ [⟨gate, qubits⟩] }

theorem apply_eq {gate : Gate} : register.apply gate qubits =
    match register.refusal? gate qubits with
    | some fault => .error fault
    | none => .ok (register.applied gate qubits) := by
  rw [apply, refusal?]
  by_cases harity : qubits.length ≠ gate.arity
  · rw [if_pos harity, if_pos harity]
    rfl
  · rw [if_neg harity, if_neg harity]
    cases firstRepeated? qubits with
    | some name => rfl
    | none =>
        by_cases hroom : maxQubits < register.names.length + register.freshCount qubits
        · simp only [if_pos hroom]
          rfl
        · simp only [if_neg hroom]
          rfl

theorem apply_eq_ok {gate : Gate} {after : Register R} :
    register.apply gate qubits = .ok after ↔
      register.Admits gate qubits ∧ register.applied gate qubits = after := by
  rw [apply_eq, ← refusal?_eq_none]
  cases register.refusal? gate qubits <;> simp

theorem instructions_applied (register : Register R) (gate : Gate) (qubits : List String) :
    (register.applied gate qubits).instructions = register.instructions ++ [⟨gate, qubits⟩] := by
  rw [applied, instructions_addQubits]

/-- Applies a gate, or gives nothing where an index is out of range on the way. -/
def applyChecked (register : Register R) (gate : Gate) (qubits : List String) :
    Option (Except EvalFault (Register R)) :=
  match register.refusal? gate qubits with
  | some fault => some (.error fault)
  | none => do
    let register := register.addQubits qubits
    let targets := qubits.filterMap register.indexOf?
    let amplitudes ← transformChecked gate targets register.amplitudes
    return .ok { register with
      amplitudes := amplitudes
      instructions := register.instructions ++ [⟨gate, qubits⟩] }

/-- A call on a register. If it fails the register stays as it is. -/
def attempt (register : Register R) (call : Instruction) : Register R :=
  match register.apply call.gate call.qubits with
  | .ok after => after
  | .error _ => register

/-- The register after calls, in any order and whether they succeed or fail. -/
def afterCalls (calls : List Instruction) : Register R := calls.foldl attempt empty

/-! ## What calls preserve -/

/-- Names, amplitudes and instructions that belong together. -/
structure WellFormed (register : Register R) : Prop where
  distinct : register.names.Nodup
  bounded : register.names.length ≤ maxQubits
  size : register.amplitudes.size = 2 ^ register.names.length
  mentioned : register.names = (register.instructions.flatMap Instruction.qubits).eraseDups
  recorded : ∀ instruction ∈ register.instructions,
    instruction.qubits.length = instruction.gate.arity ∧ instruction.qubits.Nodup

theorem wellFormed_empty : (empty : Register R).WellFormed :=
  ⟨List.nodup_nil, Nat.zero_le _, rfl, rfl, nofun⟩

/-- The targets of an admitted gate are bits of basis states, one for each of its qubits, so every
index is in range. -/
theorem WellFormed.transform_inRange (h : register.WellFormed) {gate : Gate}
    (hadmits : register.Admits gate qubits) :
    let grown := register.addQubits qubits
    let targets := qubits.filterMap grown.indexOf?
    transformChecked gate targets grown.amplitudes =
        some (transform gate targets grown.amplitudes) ∧
      (transform gate targets grown.amplitudes).size = 2 ^ grown.names.length :=
  transformChecked_eq ((length_targets hadmits.distinct).trans hadmits.arity)
    (fun _ => target_lt) (size_addQubits h.size)

theorem WellFormed.applied (h : register.WellFormed) {gate : Gate}
    (hadmits : register.Admits gate qubits) : (register.applied gate qubits).WellFormed := by
  have hnames : (register.applied gate qubits).names =
      register.names ++ qubits.filter (· ∉ register.names) := names_addQubits hadmits.distinct _
  have hinstructions := instructions_applied register gate qubits
  constructor
  case distinct =>
    rw [hnames]
    refine List.nodup_append.mpr ⟨h.distinct, hadmits.distinct.filter _, ?_⟩
    rintro name hold _ hnew rfl
    exact of_decide_eq_true (List.mem_filter.mp hnew).2 hold
  case bounded =>
    rw [hnames, List.length_append, ← freshCount_eq]
    exact hadmits.room
  case size => exact (h.transform_inRange hadmits).2
  case mentioned =>
    rw [hnames, hinstructions, List.flatMap_append, List.flatMap_singleton,
      eraseDups_append_of_nodup hadmits.distinct, ← h.mentioned]
  case recorded =>
    intro instruction hinstruction
    rw [hinstructions, List.mem_append, List.mem_singleton] at hinstruction
    rcases hinstruction with hold | rfl
    · exact h.recorded instruction hold
    · exact ⟨hadmits.arity, hadmits.distinct⟩

theorem WellFormed.attempt (h : register.WellFormed) (call : Instruction) :
    (register.attempt call).WellFormed := by
  rw [Register.attempt]
  split
  next after hafter =>
      obtain ⟨hadmits, rfl⟩ := apply_eq_ok.mp hafter
      exact h.applied hadmits
  next => exact h

theorem wellFormed_afterCalls (calls : List Instruction) :
    (afterCalls calls : Register R).WellFormed :=
  List.foldlRecOn _ _ wellFormed_empty fun _ h call _ => h.attempt call

theorem WellFormed.isSome_probabilityOfOne? (h : register.WellFormed) :
    (register.probabilityOfOne? name).isSome ↔
      ∃ instruction ∈ register.instructions, name ∈ instruction.qubits := by
  rw [probabilityOfOne?, Option.isSome_map, isSome_indexOf?, h.mentioned, List.mem_eraseDups,
    List.mem_flatMap]

theorem WellFormed.applyChecked_eq (h : register.WellFormed) (gate : Gate)
    (qubits : List String) :
    register.applyChecked gate qubits = some (register.apply gate qubits) := by
  rw [applyChecked, apply_eq]
  cases hrefusal : register.refusal? gate qubits with
  | some fault => rfl
  | none =>
      simp only [(h.transform_inRange (refusal?_eq_none.mp hrefusal)).1]
      rfl

/-- After any calls, some of which may have failed, the names are distinct, few enough and those
that the instructions mention, in the order in which they first do, the amplitudes are as many as
the names need, the instructions fit their gates, and one more call uses no index that is out of
range. -/
theorem inStep_of_calls (calls : List Instruction) :
    let register : Register R := afterCalls calls
    register.names.Nodup ∧
    register.names.length ≤ maxQubits ∧
    register.amplitudes.size = 2 ^ register.names.length ∧
    register.names = (register.instructions.flatMap Instruction.qubits).eraseDups ∧
    (∀ name, (register.probabilityOfOne? name).isSome ↔
      ∃ instruction ∈ register.instructions, name ∈ instruction.qubits) ∧
    (∀ instruction ∈ register.instructions,
      instruction.qubits.length = instruction.gate.arity ∧ instruction.qubits.Nodup) ∧
    ∀ gate qubits, register.applyChecked gate qubits = some (register.apply gate qubits) := by
  intro register
  have h : register.WellFormed := wellFormed_afterCalls calls
  exact ⟨h.distinct, h.bounded, h.size, h.mentioned, fun _ => h.isSome_probabilityOfOne?,
    h.recorded, h.applyChecked_eq⟩

end Register

end QubitScript
