import QubitScript.Proofs.Line.Composing
import QubitScript.Proofs.Line.Splitting
import QubitScript.Proofs.Session.Counting

/-!
# Bindings and register do not interfere

Expressions and assignments see the bindings of a machine, and gates see its register. What comes of
a line is told from the one view of the machine that it needs, and the other view stays as it is. So
the lines of a session that apply gates and the other lines can be left out of each other's way.
-/

namespace QubitScript

/-! ## Actions on a view of a state -/

section Views

variable {ε ε' α β σ ν : Type}

/-- What comes of an action, and what it leaves of a view, is told from that view of the state. -/
def ToldFrom (view : σ → ν) (action : ExceptT ε (StateM σ) α) : Prop :=
  ∀ state state', view state = view state' →
    (action.run.run state).1 = (action.run.run state').1 ∧
      view (action.run.run state).2 = view (action.run.run state').2

/-- An action leaves a view of the state as it is. -/
def Leaves (view : σ → ν) (action : ExceptT ε (StateM σ) α) : Prop :=
  ∀ state, view (action.run.run state).2 = view state

variable {view : σ → ν}

theorem ToldFrom.liftExcept (x : Except ε α) :
    ToldFrom view (liftExcept x : ExceptT ε (StateM σ) α) := by
  intro state state' h
  rw [run_liftExcept, run_liftExcept]
  exact ⟨rfl, h⟩

theorem Leaves.liftExcept (x : Except ε α) :
    Leaves view (liftExcept x : ExceptT ε (StateM σ) α) := by
  intro state
  rw [run_liftExcept]

theorem ToldFrom.adapt {action : ExceptT ε (StateM σ) α} (f : ε → ε')
    (h : ToldFrom view action) : ToldFrom view (action.adapt f) := by
  intro state state' hview
  obtain ⟨hresult, hafter⟩ := h state state' hview
  rw [run_adapt, run_adapt, hresult]
  exact ⟨rfl, hafter⟩

theorem ToldFrom.bind {x : ExceptT ε (StateM σ) α} {f : α → ExceptT ε (StateM σ) β}
    (hx : ToldFrom view x) (hf : ∀ a, ToldFrom view (f a)) : ToldFrom view (x >>= f) := by
  intro state state' hview
  obtain ⟨hresult, hafter⟩ := hx state state' hview
  rw [run_bind, run_bind]
  rcases hran : x.run.run state with ⟨result, after⟩
  rcases hran' : x.run.run state' with ⟨result', after'⟩
  rw [hran, hran'] at hresult hafter
  cases hresult
  cases result with
  | error e => exact ⟨rfl, hafter⟩
  | ok a => exact hf a after after' hafter

theorem composes_toldFrom (view : σ → ν) : Composes (ToldFrom view) where
  lift := .liftExcept
  adapt := .adapt
  bind := .bind

theorem Leaves.bind {x : ExceptT ε (StateM σ) α} {f : α → ExceptT ε (StateM σ) β}
    (hx : Leaves view x) (hf : ∀ a, Leaves view (f a)) : Leaves view (x >>= f) := by
  intro state
  have hafter := hx state
  rw [run_bind]
  rcases hran : x.run.run state with ⟨_ | a, after⟩ <;> rw [hran] at hafter
  · exact hafter
  · exact (hf a after).trans hafter

theorem composes_leaves (view : σ → ν) : Composes (Leaves view) where
  lift := .liftExcept
  adapt _ h := h
  bind := .bind

end Views

/-! ## Requests to the machine -/

namespace Machine

theorem toldFrom_eval (expr : Expr) : ToldFrom bindings (eval expr) := by
  intro machine machine' hbindings
  rw [result_eval, result_eval, hbindings]
  exact ⟨rfl, hbindings⟩

theorem toldFrom_evaluate (source : String) (line : Nat) :
    ToldFrom bindings (evaluate source line) :=
  (ToldFrom.liftExcept _).bind toldFrom_eval

theorem leaves_register_evaluate (source : String) (line : Nat) :
    Leaves register (evaluate source line) :=
  fun machine => (unchanged_evaluate source line machine).register

theorem toldFrom_assign (source : String) (line : Nat) :
    ToldFrom bindings (assign source line) := by
  refine (ToldFrom.liftExcept _).bind fun assignment => (toldFrom_eval _).bind fun value => ?_
  intro machine machine' hbindings
  exact ⟨rfl, congrArg (fun bindings => bindings.bind assignment.name value) hbindings⟩

theorem leaves_register_assign (source : String) (line : Nat) :
    Leaves register (assign source line) := by
  refine (Leaves.liftExcept _).bind fun assignment => ?_
  exact Leaves.bind (fun machine => rfl) fun value machine => rfl

variable {site : CallSite}

theorem toldFrom_call_of_gate (hgate : (Gate.ofName? site.name).isSome) :
    ToldFrom register (call site) := by
  obtain ⟨gate, hgate⟩ := Option.isSome_iff_exists.mp hgate
  rw [call, hgate]
  refine ToldFrom.bind (fun machine machine' hregister => ?_) fun _ => .liftExcept (.ok _)
  rw [run_applyGate, run_applyGate, hregister]
  cases machine'.register.apply gate site.arguments with
  | error fault => exact ⟨rfl, hregister⟩
  | ok register => exact ⟨rfl, rfl⟩

theorem leaves_bindings_call (site : CallSite) : Leaves bindings (call site) :=
  fun machine => (run_call site machine).1

theorem toldFrom_call_of_no_gate (hgate : (Gate.ofName? site.name).isSome = false) :
    ToldFrom bindings (call site) := by
  rw [call, Option.not_isSome_iff_eq_none.mp (Bool.eq_false_iff.mp hgate)]
  exact (toldFrom_evaluate _ _).bind fun _ => .liftExcept (.ok _)

theorem leaves_register_call_of_no_gate (hgate : (Gate.ofName? site.name).isSome = false) :
    Leaves register (call site) := by
  rw [call, Option.not_isSome_iff_eq_none.mp (Bool.eq_false_iff.mp hgate)]
  exact (leaves_register_evaluate _ _).bind fun _ => .liftExcept (.ok _)

end Machine

/-! ## Lines of gates and other lines -/

/-- The name that a call token calls. -/
def Token.calledName? (token : Token) : Option String :=
  if token.isCall then
    token.value.map fun text => String.ofList (Text.trim (text.toList.takeWhile (· != '(')))
  else none

/-- The names that are called on a line. A line that cannot be tokenized calls none. -/
def Lexer.calledNames (lexer : Lexer) (text : String) : List String :=
  match lexer.tokenize text with
  | .error _ => []
  | .ok tokens => tokens.filterMap Token.calledName?

/-- Whether a name is one of a gate. -/
def Gate.isName (name : String) : Bool := (Gate.ofName? name).isSome

/-- A line of gates calls something, and nothing but gates. -/
def Lexer.isGateLine (lexer : Lexer) (text : String) : Bool :=
  !(lexer.calledNames text).isEmpty && (lexer.calledNames text).all Gate.isName

/-- A line calls nothing but gates, or no gates at all. -/
def Lexer.IsUnmixed (lexer : Lexer) (text : String) : Prop :=
  (∀ name ∈ lexer.calledNames text, Gate.isName name) ∨
    ∀ name ∈ lexer.calledNames text, Gate.isName name = false

theorem Call.name_of_split {text name : List Char} {arguments : List (List Char)}
    (h : split text = .ok (name, arguments)) : name = Text.trim (text.takeWhile (· != '(')) := by
  rw [split] at h
  split at h
  · cases h
  · dsimp only at h
    split at h
    · cases h
    · split at h
      · obtain ⟨_, -, heq⟩ := map_eq_ok.mp h
        exact (congrArg Prod.fst heq).symm
      · cases h

theorem names_of_renders {table : HandleTable} {kept : List Token} {items : List Item}
    (gives : List.Forall₂ (Token.Gives table) kept items) :
    (items.filterMap Item.call?).map (·.name) = kept.filterMap Token.calledName? := by
  induction gives with
  | nil => rfl
  | @cons token item kept items gives rest ih =>
      cases gives with
      | @call text name arguments handles isCall value split texts =>
          obtain ⟨front, pieces, hsplit, rfl, -⟩ := splitCall_eq_ok.mp split
          have hname : token.calledName? = some (String.ofList front) := by
            rw [Token.calledName?, if_pos isCall, value, Call.name_of_split hsplit]
            rfl
          rw [List.filterMap_cons_some hname, List.filterMap_cons_some (by rfl), List.map_cons, ih]
      | term isTerm value source plain =>
          have hname : token.calledName? = none := by
            rw [Token.calledName?, Token.isCall_eq_false_of_isTerm isTerm, if_neg nofun]
          rw [List.filterMap_cons_none hname, List.filterMap_cons_none plain, ih]

section Lines

variable {lexer : Lexer} {text : String} {line : Nat}

theorem calledNames_of_items {tokens : List Token} {itemized : ItemizedLine}
    (htokens : lexer.tokenize text = .ok tokens)
    (hitems : ItemizedLine.ofTokens tokens = .ok itemized) :
    lexer.calledNames text = itemized.calls.map (·.name) := by
  rw [ItemizedLine.calls, names_of_renders (ItemizedLine.renders_ofTokens hitems),
    List.filterMap_filter, Lexer.calledNames, htokens]
  refine List.filterMap_congr fun token _ => ?_
  cases hkept : token.isKept with
  | true => rfl
  | false =>
      have hcall : ¬ token.isCall := fun hcall => by
        rw [Token.isKept_of_isCall hcall] at hkept
        cases hkept
      rw [Token.calledName?, if_neg hcall, if_neg Bool.false_ne_true]

/-- What holds of the calls of a line, and of what else it may ask for when it calls nothing, holds
of the line. -/
theorem Composes.machineLine {P : {ε α : Type} → ExceptT ε (StateM Machine) α → Prop}
    (h : Composes P)
    (hcalls : ∀ site : CallSite, site.name ∈ lexer.calledNames text → P (Machine.call site))
    (hassign : lexer.calledNames text = [] → ∀ source, P (Machine.assign source line))
    (hevaluate : lexer.calledNames text = [] → ∀ source, P (Machine.evaluate source line)) :
    P (Session.lineAction lexer Machine.executor text line) := by
  refine h.lineAction fun tokens itemized htokens hitems => ?_
  rw [calledNames_of_items htokens hitems] at hcalls hassign hevaluate
  refine h.run itemized (fun call hcall site hsite => hcalls site ?_)
    (fun hnone => hassign (List.map_eq_nil_iff.mpr hnone))
    (fun hnone => hevaluate (List.map_eq_nil_iff.mpr hnone))
  rw [hsite]
  exact List.mem_map_of_mem hcall

theorem isGateLine_iff : lexer.isGateLine text = true ↔
    lexer.calledNames text ≠ [] ∧ ∀ name ∈ lexer.calledNames text, Gate.isName name := by
  simp [Lexer.isGateLine]

/-- What comes of a line of gates is told from the register, and it leaves the bindings alone. -/
theorem gateLine_on_register (h : lexer.isGateLine text = true) :
    ToldFrom Machine.register (Session.lineAction lexer Machine.executor text line) ∧
      Leaves Machine.bindings (Session.lineAction lexer Machine.executor text line) := by
  obtain ⟨hcalls, hgates⟩ := isGateLine_iff.mp h
  constructor
  · exact (composes_toldFrom Machine.register).machineLine
      (fun site hsite => Machine.toldFrom_call_of_gate (hgates _ hsite))
      (fun hnone => absurd hnone hcalls) fun hnone => absurd hnone hcalls
  · exact (composes_leaves Machine.bindings).machineLine
      (fun site _ => Machine.leaves_bindings_call site)
      (fun hnone => absurd hnone hcalls) fun hnone => absurd hnone hcalls

/-- What comes of any other line is told from the bindings, and it leaves the register alone. -/
theorem otherLine_on_bindings (hunmixed : lexer.IsUnmixed text)
    (h : lexer.isGateLine text = false) :
    ToldFrom Machine.bindings (Session.lineAction lexer Machine.executor text line) ∧
      Leaves Machine.register (Session.lineAction lexer Machine.executor text line) := by
  have hgates : ∀ name ∈ lexer.calledNames text, Gate.isName name = false := by
    rcases hunmixed with hgates | hothers
    · -- A line that calls gates only, and calls something, is a line of gates.
      intro name hname
      have hline := isGateLine_iff.mpr ⟨List.ne_nil_of_mem hname, hgates⟩
      rw [h] at hline
      cases hline
    · exact hothers
  constructor
  · exact (composes_toldFrom Machine.bindings).machineLine
      (fun site hsite => Machine.toldFrom_call_of_no_gate (hgates _ hsite))
      (fun _ source => Machine.toldFrom_assign source line)
      fun _ source => Machine.toldFrom_evaluate source line
  · exact (composes_leaves Machine.register).machineLine
      (fun site hsite => Machine.leaves_register_call_of_no_gate (hgates _ hsite))
      (fun _ source => Machine.leaves_register_assign source line)
      fun _ source => Machine.leaves_register_evaluate source line

end Lines

/-! ## Two sessions side by side -/

namespace Session

variable {σ ν : Type} {view : σ → ν} {session session' : Session σ}

/-- Two sessions that differ at most in their challenges and in what a view does not show. -/
structure Agree (view : σ → ν) (session session' : Session σ) : Prop where
  lexer : session'.lexer = session.lexer
  executor : session'.executor = session.executor
  lines : session'.lines = session.lines
  view : view session'.state = view session.state

theorem Agree.refl (view : σ → ν) (session : Session σ) : Agree view session session :=
  ⟨rfl, rfl, rfl, rfl⟩

/-- A line that is told from a view comes to the same in both sessions. -/
theorem Agree.interpret (h : Agree view session session') {text : String}
    (htold : ToldFrom view
      (lineAction session.lexer session.executor text (session.lines + 1))) :
    (session'.interpret text).1 = (session.interpret text).1 ∧
      Agree view (session.interpret text).2 (session'.interpret text).2 := by
  obtain ⟨hsame, hview⟩ := htold _ _ h.view
  rw [session.interpret_eq_lineAction, session'.interpret_eq_lineAction, h.lexer, h.executor,
    h.lines]
  exact ⟨hsame, rfl, rfl, rfl, hview⟩

/-- A line that leaves a view as it is can be skipped in one of the sessions. -/
theorem Agree.skip (h : Agree view session session') {text : String}
    (hleaves : Leaves view
      (lineAction session.lexer session.executor text (session.lines + 1))) :
    Agree view (session.interpret text).2 session'.skipLine := by
  rw [session.interpret_eq_lineAction]
  exact ⟨h.lexer, h.executor, congrArg (· + 1) h.lines, h.view.trans (hleaves _).symm⟩

/-- A step with a line that is skipped unless it is to be kept. -/
def Step.keep (kept : String → Bool) : Step → Step
  | .line text => if kept text then .line text else .skip
  | .skip => .skip

/-- The lines to keep are told from a view, and the others leave it as it is. -/
def Parts (view : σ → ν) (lexer : Lexer) (executor : Executor σ) (kept : String → Bool)
    (text : String) : Prop :=
  ∀ line, if kept text then ToldFrom view (lineAction lexer executor text line)
    else Leaves view (lineAction lexer executor text line)

variable {kept : String → Bool}

theorem Agree.step (h : Agree view session session') {step : Step}
    (hparts : ∀ text, step = .line text → Parts view session.lexer session.executor kept text) :
    Agree view (session.step step) (session'.step (step.keep kept)) := by
  cases step with
  | line text =>
      have hparts := hparts text rfl (session.lines + 1)
      rw [Step.keep]
      cases hkept : kept text with
      | true =>
          rw [hkept, if_pos rfl] at hparts
          exact (h.interpret hparts).2
      | false =>
          rw [hkept, if_neg nofun] at hparts
          exact h.skip hparts
  | skip => exact ⟨h.lexer, h.executor, congrArg (· + 1) h.lines, h.view⟩

/-- Sessions agree on a view when one of them skips the lines that leave it as it is. -/
theorem Agree.after (steps : List Step) : ∀ {session session' : Session σ},
    Agree view session session' →
    (∀ text, .line text ∈ steps → Parts view session.lexer session.executor kept text) →
    Agree view (session.after steps) (session'.after (steps.map (Step.keep kept))) := by
  induction steps with
  | nil => exact fun h _ => h
  | cons step steps ih =>
      intro session session' h hparts
      obtain ⟨hlexer, hexecutor, -⟩ := session.step_counts step
      refine ih (h.step fun text htext => hparts text ?_) fun text htext => ?_
      · exact htext ▸ List.mem_cons_self
      · rw [hlexer, hexecutor]
        exact hparts text (List.mem_cons_of_mem _ htext)

/-- Skipping all lines but those to keep changes neither what comes of them nor what a view shows in
the end. -/
def Undisturbed (view : σ → ν) (kept : String → Bool) (session : Session σ) (steps : List Step) :
    Prop :=
  (∀ before text rest, steps = before ++ .line text :: rest → kept text = true →
    ((session.after (before.map (Step.keep kept))).interpret text).1 =
      ((session.after before).interpret text).1) ∧
  view (session.after (steps.map (Step.keep kept))).state = view (session.after steps).state

theorem undisturbed_of_parts {steps : List Step}
    (hparts : ∀ text, .line text ∈ steps → Parts view session.lexer session.executor kept text) :
    session.Undisturbed view kept steps := by
  refine ⟨?_, (Agree.after steps (.refl view session) hparts).view⟩
  rintro before text rest rfl hkept
  have hagree := Agree.after before (.refl view session) fun text htext =>
    hparts text (List.mem_append_left _ htext)
  have htext := hparts text (List.mem_append_right _ List.mem_cons_self)
    ((session.after before).lines + 1)
  obtain ⟨hlexer, hexecutor, -⟩ := session.after_counts before
  rw [if_pos hkept, ← hlexer, ← hexecutor] at htext
  exact (hagree.interpret htext).1

end Session

/-- Lines of gates and other lines do not interfere: the other lines and the bindings are what they
are without the gates, and the lines of gates and the register are what they are without the rest.
-/
theorem gates_and_bindings_undisturbed (session : Session Machine)
    (hexecutor : session.executor = Machine.executor) {steps : List Session.Step}
    (hunmixed : ∀ text, .line text ∈ steps → session.lexer.IsUnmixed text) :
    session.Undisturbed Machine.bindings (fun text => !session.lexer.isGateLine text) steps ∧
      session.Undisturbed Machine.register session.lexer.isGateLine steps := by
  constructor
  all_goals
    refine Session.undisturbed_of_parts fun text htext line => ?_
    rw [hexecutor]
    cases hgate : session.lexer.isGateLine text
  · exact (otherLine_on_bindings (hunmixed text htext) hgate).1
  · exact (gateLine_on_register hgate).2
  · exact (otherLine_on_bindings (hunmixed text htext) hgate).2
  · exact (gateLine_on_register hgate).1

/-- A gate and an assignment, which leave each other alone, with a line between them that is
skipped. -/
theorem gate_and_assignment_undisturbed : ∃ lexer, Lexer.build commandRules {} = .ok lexer ∧
    let session := Session.new lexer Machine.executor .new .default
    let steps := [.line "H(a)", .skip, .line "x=1"]
    lexer.isGateLine "H(a)" = true ∧ lexer.isGateLine "x=1" = false ∧
      session.Undisturbed Machine.bindings (fun text => !lexer.isGateLine text) steps ∧
      session.Undisturbed Machine.register lexer.isGateLine steps := by
  obtain ⟨lexer, hlexer, hgate⟩ := exists_lexer_of_tokens {} "H(a)"
    [.plain Kind.call "H(a)"] (by decide +kernel)
  obtain ⟨lexer', hlexer', hassign⟩ := exists_lexer_of_tokens {} "x=1"
    [.plain Kind.name "x", .plain Kind.operator "=", .plain Kind.number "1"] (by decide +kernel)
  cases hlexer.symm.trans hlexer'
  have hgateNames : lexer.calledNames "H(a)" = ["H"] := by
    rw [Lexer.calledNames, hgate]
    decide
  have hassignNames : lexer.calledNames "x=1" = [] := by
    rw [Lexer.calledNames, hassign]
    decide
  have hname : ∀ name ∈ lexer.calledNames "H(a)", Gate.isName name := by
    rw [hgateNames]
    decide +kernel
  have hline : lexer.isGateLine "H(a)" = true :=
    isGateLine_iff.mpr ⟨hgateNames ▸ List.cons_ne_nil _ _, hname⟩
  have hother : lexer.isGateLine "x=1" = false := by
    rw [Lexer.isGateLine, hassignNames]
    rfl
  refine ⟨lexer, hlexer, hline, hother, ?_⟩
  refine gates_and_bindings_undisturbed (.new lexer Machine.executor .new .default) rfl ?_
  intro text htext
  have htexts : text = "H(a)" ∨ text = "x=1" := by simpa using htext
  rcases htexts with rfl | rfl
  · exact .inl hname
  · exact .inr (hassignNames ▸ nofun)

end QubitScript
