import QubitScript.Proofs.Expr.Values
import QubitScript.Proofs.Session.Interpreting
import QubitScript.Script

/-!
# What a line leaves behind

A line changes the bindings of a machine, or its register, or neither. An assignment binds its name
once the value has been found, and a gate is applied once nothing stands in its way. So a line that
fails leaves nothing behind but the gates of the calls before the one that fails.
-/

namespace QubitScript

/-! ## Requests to the machine -/

/-- The gate that a call applies, if it is a call of one. -/
def CallSite.instruction? (site : CallSite) : Option Instruction :=
  (Gate.ofName? site.name).map fun gate => ⟨gate, site.arguments⟩

/-- Applies gates one after another, none of which may fail. -/
def Register.applyAll {R : Type} [Scalar R] (register : Register R)
    (instructions : List Instruction) : Except EvalFault (Register R) :=
  instructions.foldlM (fun register instruction =>
    register.apply instruction.gate instruction.qubits) register

/-- The register after a call. A gate has to be applicable, and any other call has to have a
value. -/
def CallSite.effect (bindings : Bindings) (register : Register Float) (site : CallSite) :
    Except ExecutionError (Register Float) :=
  match Gate.ofName? site.name with
  | some gate =>
    (register.apply gate site.arguments).mapError fun fault => .eval ⟨site.line, fault⟩
  | none =>
    match Expr.read site.source site.line with
    | .error error => .error (.parse error)
    | .ok expr => ((expr.value bindings).mapError .eval).map fun _ => register

namespace Machine

/-- Neither the bindings nor the register have changed. -/
structure Unchanged (before after : Machine) : Prop where
  bindings : after.bindings = before.bindings
  register : after.register = before.register

variable {machine : Machine}

theorem Unchanged.refl (machine : Machine) : machine.Unchanged machine := ⟨rfl, rfl⟩

theorem unchanged_eval (expr : Expr) (machine : Machine) :
    machine.Unchanged ((eval expr).run.run machine).2 := ⟨rfl, rfl⟩

theorem run_evaluate (source : String) (line : Nat) (machine : Machine) :
    (evaluate source line).run.run machine =
      match Expr.read source line with
      | .error error => (.error (.parse error), machine)
      | .ok expr => (eval expr).run.run machine := by
  rw [evaluate]
  cases Expr.read source line with
  | error error => exact run_bind_of_error (run_liftExcept _ _) _
  | ok expr => exact run_bind_of_ok (run_liftExcept _ _) _

theorem unchanged_evaluate (source : String) (line : Nat) (machine : Machine) :
    machine.Unchanged ((evaluate source line).run.run machine).2 := by
  rw [run_evaluate]
  cases Expr.read source line with
  | error error => exact .refl machine
  | ok expr => exact unchanged_eval expr machine

theorem run_assign (source : String) (line : Nat) (machine : Machine) :
    (assign source line).run.run machine =
      match Assignment.read source line with
      | .error error => (.error (.parse error), machine)
      | .ok assignment =>
        match (eval assignment.value).run.run machine with
        | (.error error, after) => (.error error, after)
        | (.ok value, after) => (.ok ⟨assignment.name, value⟩,
            { after with bindings := after.bindings.bind assignment.name value }) := by
  rw [assign]
  cases Assignment.read source line with
  | error error => exact run_bind_of_error (run_liftExcept _ _) _
  | ok assignment =>
      refine (run_bind_of_ok (run_liftExcept _ _) _).trans ?_
      rw [run_bind]
      dsimp only
      rcases (eval assignment.value).run.run machine with ⟨_ | _, _⟩ <;> rfl

/-- An assignment either fails and changes nothing, or binds its name and changes nothing else. -/
theorem assign_cases (source : String) (line : Nat) (machine : Machine) :
    (∃ error, ((assign source line).run.run machine).1 = .error error ∧
      machine.Unchanged ((assign source line).run.run machine).2) ∨
    ∃ binding, ((assign source line).run.run machine).1 = .ok binding ∧
      ((assign source line).run.run machine).2.bindings =
        machine.bindings.bind binding.name binding.value ∧
      ((assign source line).run.run machine).2.register = machine.register := by
  rw [run_assign]
  cases Assignment.read source line with
  | error error => exact .inl ⟨_, rfl, .refl machine⟩
  | ok assignment =>
      have unchanged := unchanged_eval assignment.value machine
      dsimp only
      rcases heval : (eval assignment.value).run.run machine with ⟨error | value, after⟩ <;>
        rw [heval] at unchanged
      · exact .inl ⟨error, rfl, unchanged⟩
      · refine .inr ⟨⟨assignment.name, value⟩, rfl, ?_, unchanged.register⟩
        exact congrArg (·.bind assignment.name value) unchanged.bindings

theorem run_applyGate (gate : Gate) (qubits : List String) (line : Nat) (machine : Machine) :
    (applyGate gate qubits line).run.run machine =
      match machine.register.apply gate qubits with
      | .error fault => (.error (.eval ⟨line, fault⟩), machine)
      | .ok register => (.ok (), { machine with register }) := by
  change applyGate gate qubits line machine = _
  unfold applyGate
  cases machine.register.apply gate qubits <;> rfl

/-- A call does to a machine what its effect says, and fails when its effect does. -/
theorem run_call (site : CallSite) (machine : Machine) :
    ((call site).run.run machine).2.bindings = machine.bindings ∧
      match site.effect machine.bindings machine.register with
      | .error error => ((call site).run.run machine).1 = .error error ∧
          ((call site).run.run machine).2.register = machine.register
      | .ok register => (∃ value, ((call site).run.run machine).1 = .ok value) ∧
          ((call site).run.run machine).2.register = register := by
  unfold call CallSite.effect
  cases Gate.ofName? site.name with
  | some gate =>
      have hgate := run_applyGate gate site.arguments site.line machine
      dsimp only
      cases happly : machine.register.apply gate site.arguments with
      | error fault =>
          rw [happly] at hgate
          rw [run_bind_of_error hgate]
          exact ⟨rfl, rfl, rfl⟩
      | ok register =>
          rw [happly] at hgate
          rw [run_bind_of_ok hgate]
          exact ⟨rfl, ⟨none, rfl⟩, rfl⟩
  | none =>
      -- No gate has the name, so the call is evaluated, which leaves the register alone.
      have hevaluate := unchanged_evaluate site.source site.line machine
      dsimp only
      rw [run_bind_pure]
      refine ⟨hevaluate.bindings, ?_⟩
      rw [run_evaluate]
      cases Expr.read site.source site.line with
      | error error => exact ⟨rfl, rfl⟩
      | ok expr =>
          have hresult := result_eval expr machine
          have hregister := (unchanged_eval expr machine).register
          dsimp only
          rw [hresult]
          cases expr.value machine.bindings with
          | error error => exact ⟨rfl, hregister⟩
          | ok value => exact ⟨⟨some value, rfl⟩, hregister⟩

end Machine

/-- A name that has been bound has its value, and the other names keep theirs. -/
theorem Bindings.get?_bind (bindings : Bindings) (name : String) (value : Value) (other : String) :
    (bindings.bind name value).get? other =
      if other = name then some value else bindings.get? other := by
  rw [bind, get?, get?, List.lookup_cons]
  by_cases hother : other = name
  · rw [if_pos hother, beq_iff_eq.mpr hother]
  · rw [if_neg hother, beq_eq_false_iff_ne.mpr hother]
    dsimp only
    -- What is taken out of the entries was found under another name.
    induction bindings.entries with
    | nil => rfl
    | cons entry entries ih =>
        obtain ⟨key, bound⟩ := entry
        by_cases hkey : key = name
        · rw [List.filter_cons_of_neg (by simpa using hkey), ih, List.lookup_cons,
            beq_eq_false_iff_ne.mpr (hkey ▸ hother)]
        · rw [List.filter_cons_of_pos (by simpa using hkey), List.lookup_cons, List.lookup_cons, ih]

/-! ## Calls in order -/

/-- Calls whose effects follow each other apply their gates and nothing else. -/
theorem applyAll_of_effects {bindings : Bindings} {sites : List CallSite} :
    ∀ {register after : Register Float},
    sites.foldlM (CallSite.effect bindings) register = .ok after →
    register.applyAll (sites.filterMap CallSite.instruction?) = .ok after := by
  induction sites with
  | nil =>
      intro register after h
      cases pure_eq_ok.mp h
      rfl
  | cons site sites ih =>
      intro register after h
      rw [List.foldlM_cons] at h
      obtain ⟨between, heffect, hothers⟩ := bind_eq_ok.mp h
      rw [CallSite.effect] at heffect
      cases hgate : Gate.ofName? site.name with
      | some gate =>
          have hinstruction : site.instruction? = some ⟨gate, site.arguments⟩ := by
            rw [CallSite.instruction?, hgate]
            rfl
          rw [hgate] at heffect
          rw [List.filterMap_cons_some hinstruction, Register.applyAll, List.foldlM_cons]
          exact bind_eq_ok.mpr ⟨between, mapError_eq_ok.mp heffect, ih hothers⟩
      | none =>
          have hinstruction : site.instruction? = none := by
            rw [CallSite.instruction?, hgate]
            rfl
          rw [hgate] at heffect
          dsimp only at heffect
          split at heffect
          · cases heffect
          · obtain ⟨_, -, rfl⟩ := map_eq_ok.mp heffect
            rw [List.filterMap_cons_none hinstruction]
            exact ih hothers

/-- Calls run in order up to the first one that fails. Those that succeed apply their gates and do
nothing else that lasts. -/
structure StopsAfter (before : Machine) (succeeding others : List CallSite)
    (result : Except LineError Outcome) (after : Machine) : Prop where
  bindings : after.bindings = before.bindings
  effects : succeeding.foldlM (CallSite.effect before.bindings) before.register =
    .ok after.register
  gates : before.register.applyAll (succeeding.filterMap CallSite.instruction?) =
    .ok after.register
  result : match others with
    | [] => ∃ executed, result = .ok (.executed executed)
    | site :: _ => ∃ error, result = .error (.execution error) ∧
        site.effect before.bindings after.register = .error error

namespace Command

theorem stopsAfter_of_runCalls {handles : HandleTable} {line : Nat} {calls : List LineCall}
    {sites : List CallSite}
    (resolve : List.Forall₂ (LineCall.ResolvesTo handles line) calls sites) :
    ∀ machine : Machine, ∃ succeeding others, sites = succeeding ++ others ∧
      StopsAfter machine succeeding others
        (((runCalls Machine.executor handles line calls).run.run machine).1.map .executed)
        ((runCalls Machine.executor handles line calls).run.run machine).2 := by
  induction resolve with
  | nil => exact fun machine => ⟨[], [], rfl, rfl, rfl, rfl, [], rfl⟩
  | @cons call site calls sites resolves rest ih =>
      intro machine
      have first := run_runCall Machine.executor resolves machine
      have hcall := Machine.run_call site machine
      rw [show Machine.executor.call = Machine.call from rfl] at first
      rcases hran : (Machine.call site).run.run machine with ⟨result, between⟩
      rw [hran] at first hcall
      obtain ⟨hbindings, heffect⟩ := hcall
      unfold runCalls
      cases hsite : site.effect machine.bindings machine.register with
      | error error =>
          rw [hsite] at heffect
          obtain ⟨rfl, hregister⟩ := heffect
          rw [run_bind_of_error first]
          have hnone : Except.ok (ε := ExecutionError) machine.register = .ok between.register :=
            congrArg Except.ok hregister.symm
          have hgates : Except.ok (ε := EvalFault) machine.register = .ok between.register :=
            congrArg Except.ok hregister.symm
          refine ⟨[], site :: sites, rfl, hbindings, hnone, hgates, error, rfl, ?_⟩
          exact hregister ▸ hsite
      | ok register =>
          rw [hsite] at heffect
          obtain ⟨⟨value, rfl⟩, rfl⟩ := heffect
          -- The other calls begin on the register that this one has left.
          obtain ⟨succeeding, others, rfl, stops⟩ := ih between
          rcases hothers : (runCalls Machine.executor handles line calls).run.run between
            with ⟨ran, after⟩
          rw [hothers] at stops
          rw [run_bind_of_ok first, run_bind_pure, hothers]
          have heffects : (site :: succeeding).foldlM (CallSite.effect machine.bindings)
              machine.register = .ok after.register := by
            rw [List.foldlM_cons, hsite]
            exact hbindings ▸ stops.effects
          refine ⟨site :: succeeding, others, rfl, stops.bindings.trans hbindings, heffects,
            applyAll_of_effects heffects, ?_⟩
          have hresult := stops.result
          rw [hbindings] at hresult
          cases others with
          | nil =>
              obtain ⟨executed, hexecuted⟩ := hresult
              obtain ⟨others, rfl, -⟩ := map_eq_ok.mp hexecuted
              exact ⟨_, rfl⟩
          | cons other others =>
              obtain ⟨error, herror, hother⟩ := hresult
              cases map_eq_error.mp herror
              exact ⟨error, rfl, hother⟩

end Command

/-! ## Whole lines -/

/-- A line without calls that is not an assignment, or a bad one, changes nothing. -/
def Machine.BindsAtMost (before : Machine) (result : Except LineError Outcome)
    (after : Machine) : Prop :=
  ((∀ binding, result ≠ .ok (.assigned binding)) ∧ before.Unchanged after) ∨
    ∃ binding, result = .ok (.assigned binding) ∧ after.register = before.register ∧
      after.bindings = before.bindings.bind binding.name binding.value

theorem Command.bindsAtMost_of_expression (handles : HandleTable) (items : List Item) (line : Nat)
    (machine : Machine) :
    machine.BindsAtMost
      (((expression items).run Machine.executor handles line).run.run machine).1
      (((expression items).run Machine.executor handles line).run.run machine).2 := by
  cases hresolved : (Chain.build items).resolve handles with
  | error error =>
      rw [run_expression_of_detached _ hresolved]
      exact .inl ⟨nofun, .refl machine⟩
  | ok source =>
      rw [run_expression _ hresolved]
      split
      · change machine.BindsAtMost
          (((((Machine.assign source line).run.run machine).1.map _).mapError _))
          ((Machine.assign source line).run.run machine).2
        rcases Machine.assign_cases source line machine with
          ⟨error, herror, unchanged⟩ | ⟨binding, hbinding, hbindings, hregister⟩
        · rw [herror]
          exact .inl ⟨nofun, unchanged⟩
        · rw [hbinding]
          exact .inr ⟨binding, rfl, hregister, hbindings⟩
      · refine .inl ⟨fun binding h => ?_, Machine.unchanged_evaluate source line machine⟩
        obtain ⟨_, -, h⟩ := map_eq_ok.mp (mapError_eq_ok.mp h)
        cases h

/-- A line of tokens runs its calls, if it has any, and otherwise binds one name at most. -/
theorem ItemizedLine.run_cases {tokens : List Token} {itemized : ItemizedLine}
    (h : ofTokens tokens = .ok itemized) (line : Nat) (machine : Machine) :
    (∃ sites succeeding others, (∃ token ∈ tokens, token.isCall) ∧
      List.Forall₂ (Token.AsksFor line) (tokens.filter Token.isCall) sites ∧
      sites = succeeding ++ others ∧
      StopsAfter machine succeeding others
        ((itemized.run Machine.executor line).run.run machine).1
        ((itemized.run Machine.executor line).run.run machine).2) ∨
    (∀ token ∈ tokens, token.isCall = false) ∧
      machine.BindsAtMost ((itemized.run Machine.executor line).run.run machine).1
        ((itemized.run Machine.executor line).run.run machine).2 := by
  obtain ⟨sites, asks, resolve⟩ := calls_of_renders line (renders_ofTokens h)
  rw [filter_kept (p := Token.isCall) fun _ => Token.isKept_of_isCall] at asks
  unfold ItemizedLine.run
  cases found : itemized.items.filterMap Item.call? with
  | nil =>
      rw [found] at resolve
      cases resolve
      have hnone : tokens.filter Token.isCall = [] := List.forall₂_nil_right_iff.mp asks
      refine .inr ⟨fun token htoken => ?_, ?_⟩
      · simpa using List.filter_eq_nil_iff.mp hnone token htoken
      by_cases empty : itemized.items = []
      · rw [empty]
        exact .inl ⟨nofun, .refl machine⟩
      · rw [Command.classify_of_plain empty found]
        exact Command.bindsAtMost_of_expression _ _ _ _
  | cons call calls =>
      rw [found] at resolve
      obtain ⟨succeeding, others, hsites, stops⟩ := Command.stopsAfter_of_runCalls resolve machine
      rw [Command.classify_of_call found]
      dsimp only
      rw [Command.run_calls]
      refine .inl ⟨sites, succeeding, others, ?_, asks, hsites, stops⟩
      cases resolve
      obtain ⟨token, _, -, -, h⟩ := List.forall₂_cons_right_iff.mp asks
      exact ⟨token, List.mem_filter.mp (h ▸ List.mem_cons_self)⟩

namespace Session

/-- A session of the command notation begins with a fresh machine. -/
theorem start_eq_ok {options : LexerOptions} {start : Session Machine}
    (h : Session.start options = .ok start) : ∃ lexer,
      Lexer.build commandRules options = .ok lexer ∧
      start = .new lexer Machine.executor .new .default := by
  unfold Session.start at h
  split at h
  · cases h
  next lexer hlexer => exact ⟨lexer, hlexer, (Except.ok.inj h).symm⟩

theorem start_of_build {options : LexerOptions} {lexer : Lexer}
    (h : Lexer.build commandRules options = .ok lexer) :
    Session.start options = .ok (.new lexer Machine.executor .new .default) := by
  unfold Session.start
  rw [h]

theorem start_eq_error {options : LexerOptions} {error : LineError}
    (h : Session.start options = .error error) : ∃ fault, error = .rules fault := by
  unfold Session.start at h
  split at h
  next fault _ => exact ⟨fault, (Except.error.inj h).symm⟩
  · cases h

variable {session : Session Machine} {text : String}

theorem interpret_machine_cases (hexecutor : session.executor = Machine.executor) (text : String) :
    (∃ tokens sites succeeding others, session.ReachesCalls text tokens ∧
      List.Forall₂ (Token.AsksFor (session.lines + 1)) (tokens.filter Token.isCall) sites ∧
      sites = succeeding ++ others ∧
      StopsAfter session.state succeeding others (session.interpret text).1
        (session.interpret text).2.state) ∨
    (∀ tokens, ¬ session.ReachesCalls text tokens) ∧
      session.state.BindsAtMost (session.interpret text).1 (session.interpret text).2.state := by
  rcases interpret_cases session text with
    ⟨⟨error, hresult⟩, hafter, hnone⟩ | ⟨tokens, itemized, htokens, hitems, hinterpret⟩
  · refine .inr ⟨hnone, .inl ⟨fun binding => ?_, ?_⟩⟩
    · rw [hresult]
      nofun
    · rw [hafter]
      exact .refl _
  · rw [hinterpret, hexecutor]
    rcases ItemizedLine.run_cases hitems (session.lines + 1) session.state with
      ⟨sites, succeeding, others, hcall, asks, hsites, stops⟩ | ⟨hcalls, hbinds⟩
    · exact .inl ⟨tokens, sites, succeeding, others, ⟨htokens, ⟨itemized, hitems⟩, hcall⟩, asks,
        hsites, stops⟩
    · refine .inr ⟨fun others hreaches => ?_, hbinds⟩
      obtain ⟨token, htoken, hcall⟩ := hreaches.call
      cases htokens.symm.trans hreaches.tokenized
      rw [hcalls token htoken] at hcall
      cases hcall

theorem ReachesCalls.unique {tokens others : List Token} (h : session.ReachesCalls text tokens)
    (h' : session.ReachesCalls text others) : tokens = others := by
  cases h.tokenized.symm.trans h'.tokenized
  rfl

/-- What a line leaves behind, whatever lines came before it. A line that fails without running
calls changes neither the bindings nor the register, and neither does one that gives a value. An
assignment changes the binding of its name and nothing else. A line that runs calls keeps the
bindings, and its register has the gates applied that come before the first call that fails. -/
theorem interpret_effects (lexer : Lexer) (book : ChallengeBook) (machine : Machine)
    (lines : List String) (text : String) :
    let session := ((Session.new lexer Machine.executor machine book).interpretAll lines).2
    let before := session.state
    let result := (session.interpret text).1
    let after := (session.interpret text).2.state
    (∀ error, result = .error error → (∀ tokens, ¬ session.ReachesCalls text tokens) →
      before.Unchanged after) ∧
    (∀ value, result = .ok (.value value) → before.Unchanged after) ∧
    (∀ binding, result = .ok (.assigned binding) → after.register = before.register ∧
      ∀ name, after.bindings.get? name =
        if name = binding.name then some binding.value else before.bindings.get? name) ∧
    ∀ tokens, session.ReachesCalls text tokens → ∃ sites succeeding others,
      List.Forall₂ (Token.AsksFor (session.lines + 1)) (tokens.filter Token.isCall) sites ∧
      sites = succeeding ++ others ∧ StopsAfter before succeeding others result after := by
  intro session before result after
  have hexecutor : session.executor = Machine.executor := (interpretAll_keeps lines _).2
  rcases interpret_machine_cases hexecutor text with
    ⟨tokens, sites, succeeding, others, hreaches, asks, hsites, stops⟩ | ⟨hnone, hbinds⟩
  · -- With calls there is a list of executed calls or an error, and neither value nor binding.
    have hresult : (∃ executed, result = .ok (.executed executed)) ∨
        ∃ error, result = .error error := by
      have := stops.result
      cases others with
      | nil => exact .inl this
      | cons site others =>
          obtain ⟨error, herror, -⟩ := this
          exact .inr ⟨_, herror⟩
    refine ⟨fun _ _ hnone => absurd hreaches (hnone tokens), fun value h => ?_,
      fun binding h => ?_, fun others' hreaches' => ?_⟩
    · rcases hresult with ⟨_, hresult⟩ | ⟨_, hresult⟩ <;> cases hresult.symm.trans h
    · rcases hresult with ⟨_, hresult⟩ | ⟨_, hresult⟩ <;> cases hresult.symm.trans h
    · cases hreaches.unique hreaches'
      exact ⟨sites, succeeding, others, asks, hsites, stops⟩
  · have hother : (∀ binding, result ≠ .ok (.assigned binding)) → before.Unchanged after := by
      intro h
      rcases hbinds with ⟨-, unchanged⟩ | ⟨binding, hbinding, -⟩
      · exact unchanged
      · exact absurd hbinding (h binding)
    refine ⟨fun error h _ => hother fun binding => ?_, fun value h => hother fun binding => ?_,
      fun binding h => ?_, fun tokens hreaches => absurd hreaches (hnone tokens)⟩
    · rw [h]
      nofun
    · rw [h]
      nofun
    · rcases hbinds with ⟨hnot, -⟩ | ⟨bound, hbound, hregister, hbindings⟩
      · exact absurd h (hnot binding)
      · cases hbound.symm.trans h
        refine ⟨hregister, fun name => ?_⟩
        change (session.interpret text).2.state.bindings.get? name = _
        rw [hbindings]
        exact Bindings.get?_bind _ _ _ _

/-- The gate before the call that fails is applied, and the one after it is not. -/
example : (Session.start {}).toOption.map (fun session =>
    (session.interpret "X(a) f(1) H(b)").2.state.register.instructions) = some [⟨.x, ["a"]⟩] := by
  decide +kernel

end Session

end QubitScript
