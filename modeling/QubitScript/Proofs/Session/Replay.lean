import QubitScript.Proofs.Lexer.Spacing
import QubitScript.Proofs.Line.Arguments
import QubitScript.Proofs.Line.SingleCall
import QubitScript.Proofs.Quantum.Run
import QubitScript.Proofs.Session.Effects

/-!
# Replaying what a register has recorded

The instructions of a register are the gates that have been applied to it, and nothing else has
changed it. Written as lines they are read back as the same calls, so in a fresh session they lead
to the same register.
-/

namespace QubitScript

open QubitScript.Text

/-! ## Gates that have been applied -/

namespace Register

variable {R : Type} [Scalar R] {register after : Register R} {gates : List Instruction}

theorem instructions_applyAll : ∀ {register : Register R},
    register.applyAll gates = .ok after → after.instructions = register.instructions ++ gates := by
  induction gates with
  | nil =>
      intro register h
      cases pure_eq_ok.mp h
      exact (List.append_nil _).symm
  | cons gate gates ih =>
      intro register h
      rw [applyAll, List.foldlM_cons] at h
      obtain ⟨between, happly, hothers⟩ := bind_eq_ok.mp h
      obtain ⟨-, rfl⟩ := apply_eq_ok.mp happly
      rw [ih hothers, instructions_applied, List.append_assoc]
      rfl

/-- Gates are only applied to as many qubits as they take. -/
theorem arity_of_applyAll : ∀ {register : Register R}, register.applyAll gates = .ok after →
    ∀ gate ∈ gates, gate.qubits.length = gate.gate.arity := by
  induction gates with
  | nil => exact fun _ _ hgate => absurd hgate List.not_mem_nil
  | cons gate gates ih =>
      intro register h
      rw [applyAll, List.foldlM_cons] at h
      obtain ⟨between, happly, hothers⟩ := bind_eq_ok.mp h
      exact List.forall_mem_cons.mpr ⟨(apply_eq_ok.mp happly).1.arity, ih hothers⟩

theorem applyAll_append {others : List Instruction} :
    register.applyAll (gates ++ others) =
      register.applyAll gates >>= fun between => between.applyAll others :=
  List.foldlM_append

/-- The instructions lead from the empty register to this one, and their qubits can be arguments. -/
structure Recorded (register : Register R) : Prop where
  applied : empty.applyAll register.instructions = .ok register
  arguments : ∀ instruction ∈ register.instructions, ∀ qubit ∈ instruction.qubits,
    IsArgument qubit.toList

theorem recorded_empty : (empty : Register R).Recorded := ⟨rfl, nofun⟩

theorem Recorded.applyAll (h : register.Recorded) (hgates : register.applyAll gates = .ok after)
    (harguments : ∀ gate ∈ gates, ∀ qubit ∈ gate.qubits, IsArgument qubit.toList) :
    after.Recorded := by
  have hinstructions := instructions_applyAll hgates
  constructor
  case applied =>
    rw [hinstructions, applyAll_append, h.applied]
    exact hgates
  case arguments =>
    intro instruction hinstruction
    rw [hinstructions] at hinstruction
    rcases List.mem_append.mp hinstruction with hold | hnew
    · exact h.arguments instruction hold
    · exact harguments instruction hnew

end Register

/-! ## What lines record -/

section Lines

variable {options : LexerOptions}

theorem isArgument_of_asksFor {lexer : Lexer}
    (hlexer : Lexer.build commandRules options = .ok lexer)
    {text : String} {tokens : List Token} (htokens : lexer.tokenize text = .ok tokens)
    {token : Token} (htoken : token ∈ tokens) (hcall : token.isCall) {line : Nat} {site : CallSite}
    (asks : token.AsksFor line site) : ∀ argument ∈ site.arguments, IsArgument argument.toList := by
  have hkind : token.kind = Kind.call := beq_iff_eq.mp hcall
  obtain ⟨name, inner, hlexeme⟩ := callText_of_tokenize hlexer htokens htoken hkind
  obtain ⟨value, hvalue, hsplit, -⟩ := asks
  have hsame : token.value = some token.lexeme :=
    value_of_commandToken hlexer htokens htoken (by rw [hkind]; decide)
  cases hsame.symm.trans hvalue
  obtain ⟨front, pieces, hpieces, -, harguments⟩ := splitCall_eq_ok.mp hsplit
  intro argument hargument
  rw [← harguments] at hargument
  obtain ⟨piece, hpiece, rfl⟩ := List.mem_map.mp hargument
  rw [String.toList_ofList]
  exact isArgument_of_callText hlexeme hpieces piece hpiece

/-- A line that runs calls records gates with arguments of these calls, and the other lines record
nothing. -/
theorem Session.recorded_interpret {session : Session Machine}
    (hlexer : Lexer.build commandRules options = .ok session.lexer)
    (hexecutor : session.executor = Machine.executor) (h : session.state.register.Recorded)
    (text : String) : (session.interpret text).2.state.register.Recorded := by
  rcases interpret_machine_cases hexecutor text with
    ⟨tokens, sites, succeeding, others, hreaches, asks, rfl, stops⟩ | ⟨-, hbinds⟩
  · refine h.applyAll stops.gates fun gate hgate => ?_
    obtain ⟨site, hsite, hinstruction⟩ := List.mem_filterMap.mp hgate
    obtain ⟨kind, -, rfl⟩ := Option.map_eq_some_iff.mp hinstruction
    obtain ⟨token, htoken, hasks⟩ := exists_of_forall₂ asks (List.mem_append_left _ hsite)
    obtain ⟨htoken, hcall⟩ := List.mem_filter.mp htoken
    exact isArgument_of_asksFor hlexer hreaches.tokenized htoken hcall hasks
  · rcases hbinds with ⟨-, unchanged⟩ | ⟨_, -, hregister, -⟩
    · rwa [unchanged.register]
    · rwa [hregister]

theorem Session.recorded_interpretAll {session : Session Machine}
    (hlexer : Lexer.build commandRules options = .ok session.lexer)
    (hexecutor : session.executor = Machine.executor) (h : session.state.register.Recorded)
    (lines : List String) : (session.interpretAll lines).2.state.register.Recorded := by
  have hsteps := interpretAll_induction
    (P := fun session => Lexer.build commandRules options = .ok session.lexer ∧
      session.executor = Machine.executor ∧ session.state.register.Recorded)
    lines session ⟨hlexer, hexecutor, h⟩ ?_
  · exact hsteps.2.2
  · rintro before line ⟨hlexer, hexecutor, h⟩
    obtain ⟨hsameLexer, hsameExecutor⟩ := before.interpret_keeps line
    exact ⟨hsameLexer ▸ hlexer, hsameExecutor.trans hexecutor,
      recorded_interpret hlexer hexecutor h line⟩

end Lines

/-! ## Instructions as lines -/

/-- The names of the gates are names of calls. -/
theorem Gate.toList_name (caseSensitive : Bool) (gate : Gate) : ∃ first others,
    gate.name.toList = first :: others ∧ (callStart caseSensitive).contains first = true ∧
      ∀ c ∈ others, isWord c = true := by
  cases gate <;> refine ⟨_, _, rfl, ?_, List.all_eq_true.mp (by decide)⟩ <;>
    cases caseSensitive <;> decide

theorem Gate.ofName?_name (gate : Gate) : ofName? gate.name = some gate := by
  cases gate <;> decide +kernel

namespace Instruction

variable {options : LexerOptions} {lexer : Lexer} {instruction : Instruction}

theorem splitCall_write
    (harguments : ∀ qubit ∈ instruction.qubits, IsArgument qubit.toList) :
    splitCall instruction.write = .ok (instruction.gate.name, instruction.qubits) := by
  obtain ⟨first, others, hname, hfirst, hothers⟩ := instruction.gate.toList_name true
  refine splitCall_assemble ?_ ?_ harguments
  · rw [hname]
    nofun
  · rw [hname]
    exact List.forall_mem_cons.mpr ⟨isWord_of_callStart hfirst, hothers⟩

theorem tokenize_write (hlexer : Lexer.build commandRules options = .ok lexer)
    (harguments : ∀ qubit ∈ instruction.qubits, IsArgument qubit.toList) :
    lexer.tokenize instruction.write = .ok [Token.plain Kind.call instruction.write] := by
  obtain ⟨first, others, hname, hfirst, hothers⟩ :=
    instruction.gate.toList_name options.caseSensitive
  have hword : ∀ c ∈ first :: others, isWord c = true :=
    List.forall_mem_cons.mpr ⟨isWord_of_callStart hfirst, hothers⟩
  have hcall := callText_assemble (by rw [hname]; nofun) (by rwa [hname]) harguments
  refine Lexer.tokenize_call hlexer hfirst hothers hcall.enclosed ?_
  rw [← hname]
  exact hcall.text

end Instruction

/-! ## Replaying -/

theorem Machine.run_call_of_gate {site : CallSite} {gate : Gate}
    (hgate : Gate.ofName? site.name = some gate) {machine : Machine} {register : Register Float}
    (happly : machine.register.apply gate site.arguments = .ok register) :
    (call site).run.run machine = (.ok none, { machine with register }) := by
  have hran := run_applyGate gate site.arguments site.line machine
  rw [happly] at hran
  rw [call, hgate]
  exact run_bind_of_ok hran _

namespace Session

variable {options : LexerOptions}

/-- The line of an instruction that can be applied applies it. -/
theorem interpret_instruction {session : Session Machine}
    (hlexer : Lexer.build commandRules options = .ok session.lexer)
    (hexecutor : session.executor = Machine.executor) {instruction : Instruction}
    (harguments : ∀ qubit ∈ instruction.qubits, IsArgument qubit.toList)
    {register : Register Float}
    (happly : session.state.register.apply instruction.gate instruction.qubits = .ok register) :
    (session.interpret instruction.write).1 = .ok (.executed [⟨instruction.write, none⟩]) ∧
      (session.interpret instruction.write).2.state.register = register := by
  obtain ⟨hresult, hstate⟩ := interpret_of_split session
    (Instruction.tokenize_write hlexer harguments) (Instruction.splitCall_write harguments)
  have hran : (session.executor.call (siteOf instruction.gate.name instruction.qubits
      (session.lines + 1))).run.run session.state =
        (.ok none, { session.state with register }) := by
    rw [hexecutor]
    exact Machine.run_call_of_gate instruction.gate.ofName?_name happly
  rw [hran] at hresult hstate
  exact ⟨hresult, congrArg Machine.register hstate⟩

theorem interpretAll_instructions {instructions : List Instruction} {register : Register Float} :
    ∀ {session : Session Machine},
    Lexer.build commandRules options = .ok session.lexer →
    session.executor = Machine.executor →
    (∀ instruction ∈ instructions, ∀ qubit ∈ instruction.qubits, IsArgument qubit.toList) →
    session.state.register.applyAll instructions = .ok register →
    let log := instructions.map Instruction.write
    (session.interpretAll log).1 = log.map (fun line => .ok (.executed [⟨line, none⟩])) ∧
      (session.interpretAll log).2.state.register = register := by
  induction instructions with
  | nil =>
      intro session _ _ _ happly
      exact ⟨rfl, pure_eq_ok.mp happly⟩
  | cons instruction instructions ih =>
      intro session hlexer hexecutor harguments happly
      obtain ⟨hfirst, hothers⟩ := List.forall_mem_cons.mp harguments
      rw [Register.applyAll, List.foldlM_cons] at happly
      obtain ⟨between, happly, hrest⟩ := bind_eq_ok.mp happly
      obtain ⟨hresult, hregister⟩ := interpret_instruction hlexer hexecutor hfirst happly
      obtain ⟨hsameLexer, hsameExecutor⟩ := session.interpret_keeps instruction.write
      -- The other lines begin in the session that the first one has left.
      obtain ⟨hresults, hafter⟩ := ih (hsameLexer ▸ hlexer) (hsameExecutor.trans hexecutor) hothers
        (hregister ▸ hrest)
      refine ⟨?_, hafter⟩
      rw [List.map_cons, List.map_cons, ← hresults, ← hresult]
      rfl

theorem exists_start : ∃ start, Session.start {} = .ok start :=
  ⟨_, start_of_build (build_commandRules {})⟩

/-- Whatever lines a session has interpreted, the instructions in its register, written one on a
line, can all be interpreted by a fresh session, which then has the same register. -/
theorem replay_instructions (lines : List String) : ∃ start, Session.start {} = .ok start ∧
    let register := (start.interpretAll lines).2.state.register
    let log := register.instructions.map Instruction.write
    (start.interpretAll log).1 = log.map (fun line => .ok (.executed [⟨line, none⟩])) ∧
      (start.interpretAll log).2.state.register = register := by
  obtain ⟨start, hstart⟩ := exists_start
  obtain ⟨lexer, hlexer, rfl⟩ := start_eq_ok hstart
  have hempty : (Session.new lexer Machine.executor .new .default).state.register.Recorded :=
    Register.recorded_empty
  have recorded := recorded_interpretAll hlexer rfl hempty lines
  exact ⟨_, hstart, interpretAll_instructions hlexer rfl recorded.arguments recorded.applied⟩

end Session

end QubitScript
