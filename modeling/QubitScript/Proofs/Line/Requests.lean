import QubitScript.Session
import QubitScript.Proofs.Line.Itemizing
import QubitScript.Proofs.Line.Walk

/-!
# What a line asks for

A line is rewritten on its way to the executor: handles are issued, calls are split, items are
linked and walked over, and handles are resolved. The requests that come out at the end are those
that can be read off the tokens.
-/

namespace QubitScript

/-- Runs what a line of items asks for. -/
def ItemizedLine.run {σ : Type} (itemized : ItemizedLine) (executor : Executor σ) (line : Nat) :
    Command.Acting σ Outcome :=
  match Command.classify itemized.items with
  | none => return .nothing
  | some command => command.run executor itemized.handles line

theorem Session.runTokens_of_ok {σ : Type} (session : Session σ) {tokens : List Token}
    {itemized : ItemizedLine} (h : ItemizedLine.ofTokens tokens = .ok itemized) :
    session.runTokens tokens = session.act (itemized.run session.executor session.lines) := by
  unfold runTokens ItemizedLine.run
  rw [h]
  dsimp only
  cases Command.classify itemized.items <;> rfl

/-! ## Requests told from tokens -/

/-- A call token asks for the call that its value splits into. -/
def Token.AsksFor (line : Nat) (token : Token) (site : CallSite) : Prop :=
  ∃ text, token.value = some text ∧ splitCall text = .ok (site.name, site.arguments) ∧
    site.source = site.name ++ "(" ++ ",".intercalate site.arguments ++ ")" ∧ site.line = line

section Asking

variable {σ : Type}

/-- Calls are made one after another, each in the state that the one before it has left. A call that
fails is the last one made. -/
inductive Calling (executor : Executor σ) :
    (sites : List CallSite) → (state : σ) → (made : List CallSite) →
      (ran : Except ExecutionError (List ExecutedCall)) → (after : σ) → Prop
  | done (state : σ) : Calling executor [] state [] (.ok []) state
  | failed {site : CallSite} {sites : List CallSite} {state after : σ} {error : ExecutionError} :
      (executor.call site).run.run state = (.error error, after) →
      Calling executor (site :: sites) state [site] (.error error) after
  | next {site : CallSite} {sites made : List CallSite} {state between after : σ}
      {value : Option Value} {ran : Except ExecutionError (List ExecutedCall)} :
      (executor.call site).run.run state = (.ok value, between) →
      Calling executor sites between made ran after →
      Calling executor (site :: sites) state (site :: made) (ran.map (⟨site.source, value⟩ :: ·))
        after

/-- The requests of a line, in order, with what comes of the line and the state after it. -/
inductive Asking (executor : Executor σ) (line : Nat) (tokens : List Token) (state : σ) :
    (log : List Request) → (result : Except LineError Outcome) → (after : σ) → Prop
  | nothing :
      tokens.filter Token.isKept = [] →
      Asking executor line tokens state [] (.ok .nothing) state
  | calls {sites made : List CallSite} {ran : Except ExecutionError (List ExecutedCall)}
      {after : σ} :
      (∃ token ∈ tokens, token.isCall) →
      List.Forall₂ (Token.AsksFor line) (tokens.filter Token.isCall) sites →
      Calling executor sites state made ran after →
      Asking executor line tokens state (made.map .call)
        ((ran.map .executed).mapError .execution) after
  | detached {index : Nat} :
      tokens.filter Token.isKept ≠ [] → (∀ token ∈ tokens, token.isCall = false) →
      Asking executor line tokens state [] (.error (.detachedItem index)) state
  | assigned {texts : List String} {result : Except ExecutionError Binding} {after : σ} :
      tokens.filter Token.isKept ≠ [] → (∀ token ∈ tokens, token.isCall = false) →
      List.Forall₂ (fun token text => token.value = some text) (tokens.filter Token.isTerm) texts →
      (executor.assign (" ".intercalate texts) line).run.run state = (result, after) →
      Asking executor line tokens state [.assign (" ".intercalate texts) line]
        ((result.map .assigned).mapError .execution) after
  | evaluated {texts : List String} {result : Except ExecutionError Value} {after : σ} :
      tokens.filter Token.isKept ≠ [] → (∀ token ∈ tokens, token.isCall = false) →
      List.Forall₂ (fun token text => token.value = some text) (tokens.filter Token.isTerm) texts →
      (executor.evaluate (" ".intercalate texts) line).run.run state = (result, after) →
      Asking executor line tokens state [.evaluate (" ".intercalate texts) line]
        ((result.map .value).mapError .execution) after

end Asking

/-! ## Classes of lines -/

namespace Command

theorem classify_of_plain {items : List Item} (nonempty : items ≠ [])
    (plain : items.filterMap Item.call? = []) : classify items = some (.expression items) := by
  unfold classify
  rw [List.isEmpty_eq_false_iff.mpr nonempty, plain]
  rfl

theorem classify_of_call {items : List Item} {call : LineCall} {calls : List LineCall}
    (found : items.filterMap Item.call? = call :: calls) :
    classify items = some (.calls (call :: calls)) := by
  have nonempty : items ≠ [] := fun h => by simp [h] at found
  unfold classify
  rw [List.isEmpty_eq_false_iff.mpr nonempty, found]
  rfl

end Command

/-! ## Calls -/

namespace Token

theorem isCall_eq_false_of_isTerm {token : Token} (isTerm : token.isTerm) :
    token.isCall = false := by
  simp only [Token.isTerm, Bool.or_eq_true, beq_iff_eq] at isTerm
  rcases isTerm with ((kind | kind) | kind) | kind <;> rw [isCall, kind] <;> rfl

theorem isKept_of_isCall {token : Token} (isCall : token.isCall) : token.isKept := by
  rw [isKept, beq_iff_eq.mp isCall]
  rfl

theorem isKept_of_isTerm {token : Token} (isTerm : token.isTerm) : token.isKept := by
  simp only [Token.isTerm, Bool.or_eq_true, beq_iff_eq] at isTerm
  rcases isTerm with ((kind | kind) | kind) | kind <;> rw [isKept, kind] <;> rfl

end Token

/-- The call is made as `site` when its handles are read in a table. -/
def LineCall.ResolvesTo (table : HandleTable) (line : Nat) (call : LineCall) (site : CallSite) :
    Prop :=
  call.texts table = .ok site.arguments ∧
    site = ⟨call.name, site.arguments, Call.assemble call.name site.arguments, line⟩

/-- The call items of a line are those of its call tokens, in order. -/
theorem calls_of_renders {table : HandleTable} (line : Nat) {kept : List Token}
    {items : List Item} (gives : List.Forall₂ (Token.Gives table) kept items) :
    ∃ sites : List CallSite,
      List.Forall₂ (Token.AsksFor line) (kept.filter Token.isCall) sites ∧
      List.Forall₂ (LineCall.ResolvesTo table line) (items.filterMap Item.call?) sites := by
  induction gives with
  | nil => exact ⟨[], .nil, .nil⟩
  | @cons token item kept items gives rest ih =>
      obtain ⟨sites, asks, sources⟩ := ih
      cases gives with
      | @call text name arguments handles isCall value split texts =>
          rw [List.filter_cons_of_pos isCall, List.filterMap_cons_some (by rfl)]
          exact ⟨⟨name, arguments, Call.assemble name arguments, line⟩ :: sites,
            .cons ⟨text, value, split, rfl, rfl⟩ asks, .cons ⟨texts, rfl⟩ sources⟩
      | term isTerm value source plain =>
          rw [List.filter_cons_of_neg (by simp [Token.isCall_eq_false_of_isTerm isTerm]),
            List.filterMap_cons_none plain]
          exact ⟨sites, asks, sources⟩

namespace Command

variable {σ : Type}

theorem run_runCall (executor : Executor σ) {handles : HandleTable} {line : Nat} {call : LineCall}
    {site : CallSite} (resolves : call.ResolvesTo handles line site) (state : σ) :
    (runCall executor handles line call).run.run state =
      ((((executor.call site).run.run state).1.mapError .execution).map (⟨site.source, ·⟩),
        ((executor.call site).run.run state).2) := by
  obtain ⟨texts, hsite⟩ := resolves
  unfold runCall
  rw [texts, run_bind_of_ok (run_liftExcept _ _), hsite]
  exact run_bind_pure _ _ _

/-- Running the calls of a line makes the calls that they resolve to, and logs those that are
made. -/
theorem run_runCalls_traced (executor : Executor σ) {handles : HandleTable} {line : Nat}
    {calls : List LineCall} {sites : List CallSite}
    (resolve : List.Forall₂ (LineCall.ResolvesTo handles line) calls sites) :
    ∀ (state : σ) (log : List Request), ∃ made ran after,
      Calling executor sites state made ran after ∧
      (runCalls executor.traced handles line calls).run.run (state, log) =
        (ran.mapError .execution, after, log ++ made.map .call) := by
  induction resolve with
  | nil =>
      intro state log
      refine ⟨[], .ok [], state, .done state, ?_⟩
      rw [List.map_nil, List.append_nil]
      rfl
  | @cons call site calls sites resolves rest ih =>
      intro state log
      have first := run_runCall executor.traced resolves (state, log)
      rw [Executor.traced_call, Executor.run_beside] at first
      unfold runCalls
      rcases hcall : (executor.call site).run.run state with ⟨result, between⟩
      rw [hcall] at first
      cases result with
      | error error =>
          exact ⟨[site], .error error, between, .failed hcall, run_bind_of_error first _⟩
      | ok value =>
          -- The other calls begin with the state and the log that this one has left.
          obtain ⟨made, ran, after, calling, others⟩ := ih between (log ++ [.call site])
          refine ⟨site :: made, _, after, .next hcall calling, ?_⟩
          rw [run_bind_of_ok first, run_bind_pure, others, List.map_cons, List.append_assoc,
            List.singleton_append]
          cases ran <;> rfl

theorem run_calls (executor : Executor σ) (handles : HandleTable) (line : Nat)
    (calls : List LineCall) (state : σ) :
    ((Command.calls calls).run executor handles line).run.run state =
      (((runCalls executor handles line calls).run.run state).1.map .executed,
        ((runCalls executor handles line calls).run.run state).2) := by
  simp only [run]
  exact run_bind_pure _ _ _

/-! ## Expressions -/

/-- What an assembled line does: one request, with its text. -/
theorem run_expression (executor : Executor σ) {handles : HandleTable} {items : List Item}
    {source : String} (resolved : (Chain.build items).resolve handles = .ok source) (line : Nat)
    (state : σ) :
    ((expression items).run executor handles line).run.run state =
      if '=' ∈ source.toList then
        let (result, after) := (executor.assign source line).run.run state
        ((result.map .assigned).mapError .execution, after)
      else
        let (result, after) := (executor.evaluate source line).run.run state
        ((result.map .value).mapError .execution, after) := by
  simp only [run]
  rw [resolved, run_bind_of_ok (run_liftExcept _ _)]
  split
  · rw [run_bind_pure, request, run_adapt]
    rcases (executor.assign source line).run.run state with ⟨_ | _, _⟩ <;> rfl
  · rw [run_bind_pure, request, run_adapt]
    rcases (executor.evaluate source line).run.run state with ⟨_ | _, _⟩ <;> rfl

theorem run_expression_of_detached (executor : Executor σ) {handles : HandleTable}
    {items : List Item} {error : LineError}
    (resolved : (Chain.build items).resolve handles = .error error) (line : Nat) (state : σ) :
    ((expression items).run executor handles line).run.run state = (.error error, state) := by
  simp only [run]
  rw [resolved]
  exact run_bind_of_error (run_liftExcept _ _) _

end Command

/-- Without calls, every token that is kept is a term, and the items give back the values of the
tokens. -/
theorem sources_of_renders {table : HandleTable} {kept : List Token} {items : List Item}
    (gives : List.Forall₂ (Token.Gives table) kept items)
    (plain : items.filterMap Item.call? = []) :
    (∀ token ∈ kept, token.isTerm) ∧ ∃ texts,
      List.Forall₂ (fun token text => token.value = some text) kept texts ∧
      items.mapM (Item.source table) = .ok texts := by
  induction gives with
  | nil => exact ⟨by simp, [], .nil, rfl⟩
  | @cons token item kept items gives rest ih =>
      cases gives with
      | call => simp [Item.call?] at plain
      | @term text _ isTerm value source =>
          obtain ⟨terms, texts, values, sources⟩ := ih (List.filterMap_eq_nil_iff.mpr
            fun item hitem => List.filterMap_eq_nil_iff.mp plain item (.tail _ hitem))
          refine ⟨List.forall_mem_cons.mpr ⟨isTerm, terms⟩, text :: texts, .cons value values, ?_⟩
          rw [mapM_eq_ok] at sources ⊢
          exact .cons source sources

theorem filter_kept {p : Token → Bool} (kept : ∀ token, p token → token.isKept)
    (tokens : List Token) : (tokens.filter Token.isKept).filter p = tokens.filter p := by
  rw [List.filter_filter]
  refine List.filter_congr fun token _ => ?_
  cases h : p token
  · rfl
  · rw [kept token h, Bool.and_self]

/-! ## Whole lines -/

section Asking

variable {σ : Type} {executor : Executor σ} {line : Nat} {tokens : List Token} {state : σ}

namespace Asking

variable {log : List Request} {result : Except LineError Outcome} {after : σ}

theorem result_ne_unresolvedHandle (asking : Asking executor line tokens state log result after)
    (handle : Handle) : result ≠ .error (.unresolvedHandle handle) := by
  intro h
  cases asking with
  | nothing => cases h
  | @calls _ _ ran => cases ran <;> cases h
  | detached => cases h
  | @assigned _ result => cases result <;> cases h
  | @evaluated _ result => cases result <;> cases h

theorem log_of_detachedItem (asking : Asking executor line tokens state log result after)
    {index : Nat} (h : result = .error (.detachedItem index)) : log = [] := by
  cases asking with
  | nothing => rfl
  | @calls _ _ ran => cases ran <;> cases h
  | detached => rfl
  | @assigned _ result => cases result <;> cases h
  | @evaluated _ result => cases result <;> cases h

end Asking

/-- A line without calls asks for one thing at most: the text that its terms make. -/
theorem asking_expression {table : HandleTable} {items : List Item} (executor : Executor σ)
    (line : Nat) (gives : List.Forall₂ (Token.Gives table) (tokens.filter Token.isKept) items)
    (nonempty : items ≠ []) (plain : items.filterMap Item.call? = []) (state : σ) :
    ∃ log result after,
      ((Command.expression items).run executor.traced table line).run.run (state, []) =
        (result, after, log) ∧
      Asking executor line tokens state log result after := by
  have kept : tokens.filter Token.isKept ≠ [] := fun h => nonempty (by simpa [h] using gives)
  obtain ⟨terms, texts, values, sources⟩ := sources_of_renders gives plain
  have calls : ∀ token ∈ tokens, token.isCall = false := fun token htoken => by
    -- A call would be kept, and what is kept is a term.
    by_contra isCall
    rw [Bool.not_eq_false] at isCall
    have isTerm := terms token (List.mem_filter.mpr ⟨htoken, Token.isKept_of_isCall isCall⟩)
    rw [Token.isCall_eq_false_of_isTerm isTerm] at isCall
    cases isCall
  have all : tokens.filter Token.isTerm = tokens.filter Token.isKept := by
    rw [← filter_kept (fun _ => Token.isKept_of_isTerm), List.filter_eq_self]
    exact terms
  rw [← all] at values
  rcases Chain.resolve_build items table with ⟨index, detached⟩ | resolved
  · exact ⟨[], _, state, Command.run_expression_of_detached executor.traced detached line _,
      .detached kept calls⟩
  · rw [sources] at resolved
    have run := Command.run_expression executor.traced resolved line (state, [])
    split at run
    · exact ⟨_, _, _, run, .assigned kept calls values rfl⟩
    · exact ⟨_, _, _, run, .evaluated kept calls values rfl⟩

/-- What a line makes of its tokens asks for what can be read off them. -/
theorem requests_of_tokens (executor : Executor σ) (line : Nat) {itemized : ItemizedLine}
    (h : ItemizedLine.ofTokens tokens = .ok itemized) (state : σ) :
    ∃ log result after,
      (itemized.run executor.traced line).run.run (state, []) = (result, after, log) ∧
      Asking executor line tokens state log result after ∧
      (∀ handle, result ≠ .error (.unresolvedHandle handle)) ∧
      (∀ index, result = .error (.detachedItem index) → log = []) := by
  have gives : List.Forall₂ (Token.Gives itemized.handles) (tokens.filter Token.isKept)
      itemized.items := ItemizedLine.renders_ofTokens h
  suffices asking : ∃ log result after,
      (itemized.run executor.traced line).run.run (state, []) = (result, after, log) ∧
      Asking executor line tokens state log result after by
    obtain ⟨log, result, after, ran, asking⟩ := asking
    exact ⟨log, result, after, ran, asking, asking.result_ne_unresolvedHandle,
      fun index => asking.log_of_detachedItem⟩
  unfold ItemizedLine.run
  by_cases empty : itemized.items = []
  · rw [empty] at gives ⊢
    exact ⟨[], .ok .nothing, state, rfl, .nothing (List.forall₂_nil_right_iff.mp gives)⟩
  cases found : itemized.items.filterMap Item.call? with
  | nil =>
      rw [Command.classify_of_plain empty found]
      exact asking_expression executor line gives empty found state
  | cons call calls =>
      obtain ⟨sites, asks, resolve⟩ := calls_of_renders line gives
      rw [filter_kept (p := Token.isCall) fun _ => Token.isKept_of_isCall] at asks
      rw [found] at resolve
      obtain ⟨made, ran, after, calling, run⟩ :=
        Command.run_runCalls_traced executor resolve state []
      have isCall : ∃ token ∈ tokens, token.isCall := by
        cases resolve
        obtain ⟨token, _, -, -, h⟩ := List.forall₂_cons_right_iff.mp asks
        exact ⟨token, List.mem_filter.mp (h ▸ List.mem_cons_self)⟩
      refine ⟨made.map .call, _, after, ?_, .calls isCall asks calling⟩
      rw [Command.classify_of_call found]
      dsimp only
      rw [Command.run_calls, run]
      cases ran <;> rfl

/-- A note, a name, a gate and a function on one line: each call is asked for as it is put together
again, and the name asks for nothing. -/
theorem requests_of_annotated_calls :
    let tokens := [Token.plain Kind.annotation "step:", .plain Kind.name "x",
      .plain Kind.call "CNOT(a, b)", .plain Kind.call "f(1)", ⟨Kind.separator, ";", none⟩]
    let itemized : ItemizedLine :=
      ⟨[.name "x", .call ⟨"CNOT", [⟨0⟩, ⟨1⟩]⟩, .call ⟨"f", [⟨2⟩]⟩], ⟨["a", "b", "1"]⟩⟩
    ItemizedLine.ofTokens tokens = .ok itemized ∧
    ∃ log result after,
      (itemized.run Machine.executor.traced 1).run.run (Machine.new, []) = (result, after, log) ∧
      Asking Machine.executor 1 tokens Machine.new log result after ∧
      (∀ handle, result ≠ .error (.unresolvedHandle handle)) ∧
      (∀ index, result = .error (.detachedItem index) → log = []) :=
  ⟨by rfl, requests_of_tokens Machine.executor 1 (by rfl) Machine.new⟩

end Asking

end QubitScript
