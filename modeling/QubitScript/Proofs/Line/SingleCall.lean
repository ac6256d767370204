import QubitScript.Proofs.Line.Rebuilding
import QubitScript.Proofs.Session.Interpreting

/-!
# A line that is one call

The same text is read twice: by the engine, when it is evaluated as it stands, and by the line
reader, which splits it and has the engine evaluate what it has put together from the pieces.
-/

namespace QubitScript

open QubitScript.Expr QubitScript.Expr.Grammar QubitScript.Text

/-! ## From the line to the executor -/

section Executor

variable {σ : Type}

theorem ItemizedLine.ofTokens_call (text : String) :
    ofTokens [Token.plain Kind.call text] = (splitCall text).map fun (name, arguments) =>
      ⟨[.call ⟨name, (HandleTable.empty.allocateAll arguments).1⟩],
        (HandleTable.empty.allocateAll arguments).2⟩ := by
  have hkept : ¬ (Kind.call = Kind.annotation ∨ Kind.call = Kind.separator) := by decide
  have hadd : empty.add (Token.plain Kind.call text) = splitCall text >>= fun (name, arguments) =>
      pure ⟨[.call ⟨name, (HandleTable.empty.allocateAll arguments).1⟩],
        (HandleTable.empty.allocateAll arguments).2⟩ := by
    simp only [Token.plain]
    rw [add, if_neg hkept, if_pos rfl]
    rfl
  rw [ofTokens, List.foldlM_cons, hadd]
  cases splitCall text <;> rfl

/-- A call as it is run on its own line. -/
def siteOf (name : String) (arguments : List String) (line : Nat) : CallSite :=
  { name, arguments, source := Call.assemble name arguments, line }

theorem Command.run_single_call (executor : Executor σ) {handles : HandleTable} {line : Nat}
    {call : LineCall} {site : CallSite} (resolves : call.ResolvesTo handles line site) (state : σ) :
    ((Command.calls [call]).run executor handles line).run.run state =
      ((((executor.call site).run.run state).1.mapError .execution).map fun value =>
        .executed [⟨site.source, value⟩], ((executor.call site).run.run state).2) := by
  rw [run_calls, runCalls, run_bind, run_runCall executor resolves]
  rcases (executor.call site).run.run state with ⟨_ | value, after⟩ <;> rfl

/-- What a line that is one call comes to, and the state that it leaves, when it can be split. -/
theorem Session.interpret_of_split (session : Session σ) {text name : String}
    {arguments : List String}
    (htokens : session.lexer.tokenize text = .ok [Token.plain Kind.call text])
    (hsplit : splitCall text = .ok (name, arguments)) :
    let ran := (session.executor.call (siteOf name arguments (session.lines + 1))).run.run
      session.state
    (session.interpret text).1 = (ran.1.mapError .execution).map (fun value =>
        .executed [⟨Call.assemble name arguments, value⟩]) ∧
      (session.interpret text).2.state = ran.2 := by
  have hitems := ItemizedLine.ofTokens_call text
  rw [hsplit] at hitems
  have resolves : LineCall.ResolvesTo (HandleTable.empty.allocateAll arguments).2
      (session.lines + 1) ⟨name, (HandleTable.empty.allocateAll arguments).1⟩
      (siteOf name arguments (session.lines + 1)) :=
    ⟨HandleTable.resolve_allocateAll arguments _, rfl⟩
  have hran := Command.run_single_call session.executor resolves session.state
  rw [interpret_of_tokens htokens, runTokens_of_ok _ hitems]
  exact ⟨congrArg Prod.fst hran, congrArg Prod.snd hran⟩

/-- A line that is one call makes the call that it is split into, if it can be split. -/
theorem Session.interpret_call (session : Session σ) {text : String}
    (htokens : session.lexer.tokenize text = .ok [Token.plain Kind.call text]) :
    (session.interpret text).1 = splitCall text >>= fun (name, arguments) =>
      (((session.executor.call (siteOf name arguments (session.lines + 1))).run.run
        session.state).1.mapError .execution).map fun value =>
          .executed [⟨Call.assemble name arguments, value⟩] := by
  match hsplit : splitCall text with
  | .error error =>
      rw [interpret_of_tokens htokens, runTokens, ItemizedLine.ofTokens_call, hsplit]
      rfl
  | .ok (name, arguments) => exact (interpret_of_split session htokens hsplit).1

end Executor

/-! ## From the machine to the engine -/

theorem Machine.call_of_no_gate {site : CallSite} (hgate : Gate.ofName? site.name = none)
    (machine : Machine) : ((Machine.call site).run.run machine).1 =
      ((Machine.evaluate site.source site.line).run.run machine).1.map some := by
  rw [Machine.call, hgate]
  exact congrArg Prod.fst (run_bind_pure _ _ _)

/-- On a machine, a line that is one call has the value that the engine finds for what has been put
together from the pieces. -/
theorem interpret_call_value {session : Session Machine} {text : String} {v : Value}
    (hexecutor : session.executor = Machine.executor)
    (htokens : session.lexer.tokenize text = .ok [Token.plain Kind.call text])
    (hgate : ∀ name arguments, splitCall text = .ok (name, arguments) → Gate.ofName? name = none) :
    (∃ call, (session.interpret text).1 = .ok (.executed [call]) ∧ call.value = some v) ↔
      RebuiltValue text (session.lines + 1) session.state.bindings v := by
  rw [Session.interpret_call session htokens, hexecutor]
  have hcall : ∀ name arguments, splitCall text = .ok (name, arguments) →
      ((Machine.call (siteOf name arguments (session.lines + 1))).run.run session.state).1 =
        ((Machine.evaluate (Call.assemble name arguments) (session.lines + 1)).run.run
          session.state).1.map some :=
    fun name arguments hsplit => Machine.call_of_no_gate (hgate name arguments hsplit) _
  constructor
  · rintro ⟨call, hinterpret, hvalue⟩
    obtain ⟨⟨name, arguments⟩, hsplit, hexecuted⟩ := bind_eq_ok.mp hinterpret
    obtain ⟨value, hran, hcalls⟩ := map_eq_ok.mp hexecuted
    cases hcalls
    subst hvalue
    have hevaluate := (hcall name arguments hsplit).symm.trans (mapError_eq_ok.mp hran)
    obtain ⟨_, hevaluate, ⟨⟩⟩ := map_eq_ok.mp hevaluate
    obtain ⟨expr, hread, hexpr⟩ := Machine.result_evaluate.mp hevaluate
    exact ⟨name, arguments, expr, hsplit, hread, hexpr⟩
  · rintro ⟨name, arguments, expr, hsplit, hread, hexpr⟩
    have hevaluate := Machine.result_evaluate.mpr ⟨expr, hread, hexpr⟩
    refine ⟨⟨Call.assemble name arguments, some v⟩, ?_, rfl⟩
    refine bind_eq_ok.mpr ⟨(name, arguments), hsplit, map_eq_ok.mpr ⟨some v, ?_, rfl⟩⟩
    exact mapError_eq_ok.mpr ((hcall name arguments hsplit).trans
      (map_eq_ok.mpr ⟨v, hevaluate, rfl⟩))

/-- Of the calls that the engine accepts and that are no calls of gates, a line gives exactly those
the value that they have as they stand whose literals are kept where they are cut. -/
theorem interpret_call_value_iff_keepsLiterals {options : LexerOptions} {session : Session Machine}
    {text : String} {line : Nat} {v : Value}
    (hlexer : Lexer.build commandRules options = .ok session.lexer)
    (hexecutor : session.executor = Machine.executor)
    (htokens : session.lexer.tokenize text = .ok [Token.plain Kind.call text])
    (hgate : Gate.ofName? (String.ofList (text.toList.takeWhile (· != '('))) = none)
    (haccepted : ((Machine.evaluate text line).run.run session.state).1 = .ok v) :
    (∃ call, (session.interpret text).1 = .ok (.executed [call]) ∧ call.value = some v) ↔
      KeepsLiterals text.toList := by
  obtain ⟨name, inner, hcall⟩ := callText_of_tokenize hlexer htokens (.head _) rfl
  change CallText text.toList name inner at hcall
  obtain ⟨expr, hread, hvalue⟩ := Machine.result_evaluate.mp haccepted
  rw [hcall.takeWhile] at hgate
  have hnogate : ∀ front arguments, splitCall text = .ok (front, arguments) →
      Gate.ofName? front = none := by
    intro front arguments hsplit
    obtain ⟨_, pieces, hpieces, rfl, -⟩ := splitCall_eq_ok.mp hsplit
    rwa [hcall.name_of_split hpieces]
  rw [interpret_call_value hexecutor htokens hnogate]
  exact rebuiltValue_iff hcall hread hvalue

/-- Printing a text with a blank after a comma gives a text without it. -/
theorem interpret_print_with_blank : ∃ lexer, Lexer.build commandRules {} = .ok lexer ∧
    let session := Session.new lexer Machine.executor Machine.new .default
    let text := "print(\"a, b\")"
    lexer.tokenize text = .ok [Token.plain Kind.call text] ∧
    ((Machine.evaluate text 1).run.run Machine.new).1 = .ok (.text "a, b") ∧
    ¬ ∃ call, (session.interpret text).1 = .ok (.executed [call]) ∧
      call.value = some (.text "a, b") := by
  obtain ⟨lexer, hlexer, htokens⟩ := exists_lexer_of_tokens {} "print(\"a, b\")"
    [Token.plain Kind.call "print(\"a, b\")"] (by decide +kernel)
  have hcuts : Cuts "print(\"a, b\")".toList
      [.identifier "print", .openParen, .text "a, b", .closeParen] :=
    .token rfl (.token rfl (.token rfl (.token rfl .nil)))
  have haccepted : ((Machine.evaluate "print(\"a, b\")" 1).run.run Machine.new).1 =
      .ok (.text "a, b") := by
    refine Machine.result_evaluate.mpr
      ⟨.call "print" [.literal (.text "a, b") 1] 1, ?_, ?_⟩
    · refine (read_eq_ok (by decide)).mpr ⟨_, hcuts, parseWhole_eq_ok.mpr ?_⟩
      refine ⟨_, [⟨1, .lineEnd⟩], rfl, ?_, by simp⟩
      exact .one (.one (.primary (.call (.some (.last (.one (.one (.primary .text))))))))
    · have hargument : values Bindings.empty [.literal (.text "a, b") 1] = .ok [.text "a, b"] :=
        values_cons.mpr ⟨_, [], value_literal, values_nil, rfl⟩
      exact value_call.mpr ⟨_, hargument, rfl⟩
  have hcut : ¬ KeepsLiterals "print(\"a, b\")".toList := by
    intro keeps
    have := (keeps "print(\"a".toList " b\")".toList rfl (by decide) (by decide)).2 ' ' rfl
    exact absurd this (by decide)
  refine ⟨lexer, hlexer, htokens, haccepted, ?_⟩
  rwa [interpret_call_value_iff_keepsLiterals hlexer rfl htokens (by decide +kernel) haccepted]

end QubitScript
