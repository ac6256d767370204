import QubitScript.Proofs.Session.Interpreting

/-!
# What requests have in common

A line puts its requests together by steps that can fail, one after another. So a property of
actions that such steps keep holds of a whole line when it holds of the requests that the line can
make.
-/

namespace QubitScript

variable {σ : Type}

/-- A property of actions that holds of steps without effects, and of actions that are put together
from actions with the property. -/
structure Composes (P : {ε α : Type} → ExceptT ε (StateM σ) α → Prop) : Prop where
  lift {ε α : Type} (x : Except ε α) : P (liftExcept x : ExceptT ε (StateM σ) α)
  adapt {ε ε' α : Type} {action : ExceptT ε (StateM σ) α} (f : ε → ε') :
    P action → P (action.adapt f)
  bind {ε α β : Type} {x : ExceptT ε (StateM σ) α} {f : α → ExceptT ε (StateM σ) β} :
    P x → (∀ a, P (f a)) → P (x >>= f)

/-- The calls of a line. -/
def ItemizedLine.calls (itemized : ItemizedLine) : List LineCall :=
  itemized.items.filterMap Item.call?

namespace Composes

variable {P : {ε α : Type} → ExceptT ε (StateM σ) α → Prop} {executor : Executor σ} {line : Nat}

theorem pure (h : Composes P) {ε α : Type} (a : α) : P (pure a : ExceptT ε (StateM σ) α) :=
  h.lift (.ok a)

theorem throw (h : Composes P) {ε α : Type} (e : ε) : P (throw e : ExceptT ε (StateM σ) α) :=
  h.lift (.error e)

theorem runCalls (h : Composes P) (handles : HandleTable) {calls : List LineCall}
    (hcalls : ∀ call ∈ calls, ∀ site : CallSite, site.name = call.name → P (executor.call site)) :
    P (Command.runCalls executor handles line calls) := by
  induction calls with
  | nil => exact h.pure _
  | cons call calls ih =>
      obtain ⟨hcall, hothers⟩ := List.forall_mem_cons.mp hcalls
      refine h.bind ?_ fun executed => h.bind (ih hothers) fun others => h.pure _
      refine h.bind (h.lift _) fun arguments => h.bind ?_ fun value => h.pure _
      exact h.adapt _ (hcall _ rfl)

theorem expression (h : Composes P) (items : List Item) (handles : HandleTable)
    (hassign : ∀ source, P (executor.assign source line))
    (hevaluate : ∀ source, P (executor.evaluate source line)) :
    P ((Command.expression items).run executor handles line) := by
  refine h.bind (h.lift _) fun source => ?_
  split
  · exact h.bind (h.adapt _ (hassign source)) fun _ => h.pure _
  · exact h.bind (h.adapt _ (hevaluate source)) fun _ => h.pure _

/-- A line of items runs its calls, or assembles an expression when it has none. -/
theorem run (h : Composes P) (itemized : ItemizedLine)
    (hcalls : ∀ call ∈ itemized.calls, ∀ site : CallSite, site.name = call.name →
      P (executor.call site))
    (hassign : itemized.calls = [] → ∀ source, P (executor.assign source line))
    (hevaluate : itemized.calls = [] → ∀ source, P (executor.evaluate source line)) :
    P (itemized.run executor line) := by
  unfold ItemizedLine.run
  by_cases empty : itemized.items = []
  · rw [empty]
    exact h.pure _
  · cases found : itemized.items.filterMap Item.call? with
    | nil =>
        rw [Command.classify_of_plain empty found]
        exact h.expression _ _ (hassign found) (hevaluate found)
    | cons call calls =>
        rw [Command.classify_of_call found]
        rw [ItemizedLine.calls, found] at hcalls
        exact h.bind (h.runCalls _ hcalls) fun _ => h.pure _

/-- A line fails before it does anything, or runs its items. -/
theorem lineAction (h : Composes P) {lexer : Lexer} {text : String}
    (hrun : ∀ tokens itemized, lexer.tokenize text = .ok tokens →
      ItemizedLine.ofTokens tokens = .ok itemized → P (itemized.run executor line)) :
    P (Session.lineAction lexer executor text line) := by
  unfold Session.lineAction
  cases htokens : lexer.tokenize text with
  | error fault => exact h.throw _
  | ok tokens =>
      dsimp only
      cases hitems : ItemizedLine.ofTokens tokens with
      | error error => exact h.throw _
      | ok itemized => exact hrun tokens itemized htokens hitems

end Composes

end QubitScript
