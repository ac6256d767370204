import Mathlib.Data.Finset.Card
import QubitScript.Proofs.Quantum.Run
import QubitScript.Proofs.Session.Effects

/-!
# Refused gates

A register refuses a gate for one of three reasons, the first of them that there is. A refused gate
leaves the register as it was, also when some of its qubits would have been new, and any other gate
leaves one instruction behind and its new qubits after the old ones.
-/

namespace QubitScript

namespace Register

variable {R : Type} {register : Register R} {gate : Gate} {qubits : List String}

/-- The reasons for which a register does not apply a gate to qubits. A later one does not count
where there is an earlier one. -/
inductive Refuses (register : Register R) (gate : Gate) (qubits : List String) : EvalFault → Prop
  | argumentCount : qubits.length ≠ gate.arity → Refuses register gate qubits .argumentCount
  | repeatedQubit {before after : List String} {name : String} :
      qubits.length = gate.arity →
      qubits = before ++ name :: after → before.Nodup → name ∈ before →
      Refuses register gate qubits (.repeatedQubit name)
  | tooManyQubits :
      qubits.length = gate.arity → qubits.Nodup →
      maxQubits < (register.names ++ qubits).toFinset.card →
      Refuses register gate qubits (.tooManyQubits maxQubits)

/-! ## Reasons -/

/-- Names that are not distinct have a first one that repeats another. -/
theorem exists_first_repeated (h : ¬ qubits.Nodup) :
    ∃ before name after, qubits = before ++ name :: after ∧ before.Nodup ∧ name ∈ before := by
  induction qubits using List.reverseRecOn with
  | nil => exact absurd List.nodup_nil h
  | append_singleton names last ih =>
      by_cases hnames : names.Nodup
      · refine ⟨names, last, [], rfl, hnames, ?_⟩
        by_contra hlast
        refine h (List.nodup_append.mpr ⟨hnames, List.nodup_singleton last, ?_⟩)
        rintro name hname other hother rfl
        exact hlast (List.mem_singleton.mp hother ▸ hname)
      · obtain ⟨before, name, after, rfl, hbefore, hname⟩ := ih hnames
        exact ⟨before, name, after ++ [last], by simp, hbefore, hname⟩

theorem firstRepeated?_of_first {before after : List String} {name : String}
    (hbefore : before.Nodup) (hname : name ∈ before) :
    firstRepeated? (before ++ name :: after) = some name := by
  have hnone := firstRepeated?_eq_none.mpr hbefore
  rw [firstRepeated?, Option.map_eq_none_iff, List.find?_eq_none] at hnone
  rw [firstRepeated?, Option.map_eq_some_iff]
  refine ⟨(name, before.length), List.find?_eq_some_iff_append.mpr ⟨by simpa using hname,
    before.zipIdx, after.zipIdx (before.length + 1), ?_, ?_⟩, rfl⟩
  · rw [List.zipIdx_append, List.zipIdx_cons, Nat.zero_add]
  · rintro ⟨other, i⟩ hother
    have hi : i < before.length := by simpa using List.snd_lt_of_mem_zipIdx hother
    have hfresh := hnone (other, i) hother
    dsimp only at hfresh ⊢
    rw [List.take_append_of_le_length hi.le, Bool.not_eq_true']
    exact Bool.not_eq_true _ ▸ hfresh

/-- A name is found when it repeats one of the names before it, which do not repeat each other. -/
theorem firstRepeated?_eq_some {name : String} :
    firstRepeated? qubits = some name ↔
      ∃ before after, qubits = before ++ name :: after ∧ before.Nodup ∧ name ∈ before := by
  constructor
  · intro h
    have hrepeated : ¬ qubits.Nodup := by
      intro hdistinct
      rw [firstRepeated?_eq_none.mpr hdistinct] at h
      cases h
    obtain ⟨before, first, after, rfl, hbefore, hfirst⟩ := exists_first_repeated hrepeated
    rw [firstRepeated?_of_first hbefore hfirst] at h
    cases h
    exact ⟨before, after, rfl, hbefore, hfirst⟩
  · rintro ⟨before, after, rfl, hbefore, hname⟩
    exact firstRepeated?_of_first hbefore hname

/-- The names of a register and those that are new to it, taken together. -/
theorem card_names (hnames : register.names.Nodup) (hqubits : qubits.Nodup) :
    (register.names ++ qubits).toFinset.card =
      register.names.length + register.freshCount qubits := by
  have hdistinct : (register.names ++ qubits.filter (· ∉ register.names)).Nodup := by
    refine List.nodup_append.mpr ⟨hnames, hqubits.filter _, ?_⟩
    rintro name hold _ hnew rfl
    exact of_decide_eq_true (List.mem_filter.mp hnew).2 hold
  have hsame : (register.names ++ qubits).toFinset =
      (register.names ++ qubits.filter (· ∉ register.names)).toFinset := by
    ext name
    by_cases hmem : name ∈ register.names <;> simp [hmem]
  rw [hsame, List.toFinset_card_of_nodup hdistinct, List.length_append, freshCount_eq]

theorem refusal?_eq_some (hnames : register.names.Nodup) {fault : EvalFault} :
    register.refusal? gate qubits = some fault ↔ register.Refuses gate qubits fault := by
  rw [refusal?]
  by_cases harity : qubits.length = gate.arity
  · rw [if_neg (not_not_intro harity)]
    cases hrepeated : firstRepeated? qubits with
    | some name =>
        constructor
        · rintro ⟨⟩
          obtain ⟨before, after, hsplit, hbefore, hname⟩ := firstRepeated?_eq_some.mp hrepeated
          exact .repeatedQubit harity hsplit hbefore hname
        · rintro (hother | ⟨-, hsplit, hbefore, hname⟩ | ⟨-, hdistinct, -⟩)
          · exact absurd harity hother
          · rw [firstRepeated?_eq_some.mpr ⟨_, _, hsplit, hbefore, hname⟩] at hrepeated
            cases hrepeated
            rfl
          · rw [firstRepeated?_eq_none.mpr hdistinct] at hrepeated
            cases hrepeated
    | none =>
        -- Only now does the size of the register matter, since the names are distinct.
        have hdistinct := firstRepeated?_eq_none.mp hrepeated
        rw [← card_names hnames hdistinct]
        constructor
        · intro h
          obtain ⟨hroom, ⟨⟩⟩ := Option.ite_none_right_eq_some.mp h
          exact .tooManyQubits harity hdistinct hroom
        · rintro (hother | ⟨-, hsplit, hbefore, hname⟩ | ⟨-, -, hroom⟩)
          · exact absurd harity hother
          · rw [firstRepeated?_eq_some.mpr ⟨_, _, hsplit, hbefore, hname⟩] at hrepeated
            cases hrepeated
          · exact if_pos hroom
  · rw [if_pos harity]
    constructor
    · rintro ⟨⟩
      exact .argumentCount harity
    · rintro (_ | ⟨hother, -, -, -⟩ | ⟨hother, -, -⟩)
      · rfl
      · exact absurd hother harity
      · exact absurd hother harity

/-! ## Outcomes -/

variable [Scalar R]

theorem names_applied (hqubits : qubits.Nodup) (register : Register R) (gate : Gate) :
    (register.applied gate qubits).names =
      register.names ++ qubits.filter (· ∉ register.names) :=
  names_addQubits hqubits register

theorem WellFormed.apply_eq_error (h : register.WellFormed) {fault : EvalFault} :
    register.apply gate qubits = .error fault ↔ register.Refuses gate qubits fault := by
  rw [apply_eq, ← refusal?_eq_some h.distinct]
  cases register.refusal? gate qubits <;> simp

end Register

/-- A gate call on a machine whose register any calls have led to. It fails for the reasons for
which the register refuses the gate and leaves the machine as it was. Otherwise one instruction is
added to those before, the names keep their places, and the new ones come after them in the order in
which the call gives them. -/
theorem gate_applied_or_refused (calls : List Instruction) (bindings : Bindings) (printed : String)
    (gate : Gate) (qubits : List String) (line : Nat) :
    let register : Register Float := .afterCalls calls
    let machine : Machine := ⟨bindings, register, printed⟩
    let (result, after) := (Machine.applyGate gate qubits line).run.run machine
    (∀ error, result = .error error ↔
      ∃ fault, register.Refuses gate qubits fault ∧ error = .eval ⟨line, fault⟩) ∧
    (∀ error, result = .error error → after = machine) ∧
    (result = .ok () → after.bindings = bindings ∧ after.printed = printed ∧
      after.register.names = register.names ++ qubits.filter (· ∉ register.names) ∧
      after.register.instructions = register.instructions ++ [⟨gate, qubits⟩]) := by
  intro register machine
  have hregister : register.WellFormed := Register.wellFormed_afterCalls calls
  have hrefuses : ∀ fault, register.apply gate qubits = .error fault ↔
      register.Refuses gate qubits fault := fun _ => hregister.apply_eq_error
  rw [Machine.run_applyGate, show machine.register = register from rfl]
  cases happly : register.apply gate qubits with
  | error fault =>
      rw [happly] at hrefuses
      refine ⟨fun error => ?_, fun _ _ => rfl, fun hok => ?_⟩
      · constructor
        · rintro ⟨⟩
          exact ⟨fault, (hrefuses fault).mp rfl, rfl⟩
        · rintro ⟨other, hother, rfl⟩
          cases (hrefuses other).mpr hother
          rfl
      · cases hok
  | ok applied =>
      rw [happly] at hrefuses
      obtain ⟨hadmits, rfl⟩ := Register.apply_eq_ok.mp happly
      refine ⟨fun error => ?_, fun error herror => ?_, fun _ => ⟨rfl, rfl, ?_, ?_⟩⟩
      · constructor
        · intro herror
          cases herror
        · rintro ⟨fault, hfault, -⟩
          cases (hrefuses fault).mpr hfault
      · cases herror
      · exact Register.names_applied hadmits.distinct register gate
      · exact Register.instructions_applied register gate qubits

end QubitScript
