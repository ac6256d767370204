import Mathlib.Data.List.Forall2
import QubitScript.Executor

/-!
# Running actions

What it takes for steps that can fail to succeed together, and what the actions of executors do to a
state. A failed action leaves the state as it was when it failed, and nothing after it runs.
-/

namespace QubitScript

variable {ε ε' σ α β : Type}

/-! ## Steps that can fail -/

theorem bind_eq_ok {x : Except ε α} {f : α → Except ε β} {b : β} :
    x >>= f = .ok b ↔ ∃ a, x = .ok a ∧ f a = .ok b := by
  cases x <;> simp [bind, Except.bind]

theorem bind_eq_error {x : Except ε α} {f : α → Except ε β} {e : ε} :
    x >>= f = .error e ↔ x = .error e ∨ ∃ a, x = .ok a ∧ f a = .error e := by
  cases x <;> simp [bind, Except.bind]

/-- A step that cannot fail changes nothing about what is wrong. -/
theorem error_of_bind_pure {x : Except ε α} {f : α → β} {e : ε}
    (h : (do let a ← x; return f a) = .error e) : x = .error e := by
  rcases bind_eq_error.mp h with h | ⟨_, -, h⟩
  · exact h
  · cases h

@[simp]
theorem pure_eq_ok {a b : α} : (pure a : Except ε α) = .ok b ↔ a = b := by
  simp [pure, Except.pure]

theorem map_eq_ok {x : Except ε α} {f : α → β} {b : β} :
    x.map f = .ok b ↔ ∃ a, x = .ok a ∧ f a = b := by
  cases x <;> simp [Except.map]

theorem map_eq_error {x : Except ε α} {f : α → β} {e : ε} :
    x.map f = .error e ↔ x = .error e := by
  cases x <;> simp [Except.map]

@[simp]
theorem mapError_eq_ok {x : Except ε α} {f : ε → ε'} {a : α} :
    x.mapError f = .ok a ↔ x = .ok a := by
  cases x <;> simp [Except.mapError]

theorem mapError_eq_error {x : Except ε α} {f : ε → ε'} {e : ε'} :
    x.mapError f = .error e ↔ ∃ e', x = .error e' ∧ f e' = e := by
  cases x <;> simp [Except.mapError]

theorem mapError_id (x : Except ε α) : x.mapError id = x := by
  cases x <;> rfl

/-- A step for every member of a list succeeds with what each of the steps gives. -/
theorem mapM_eq_ok {f : α → Except ε β} {xs : List α} : ∀ {ys : List β},
    xs.mapM f = .ok ys ↔ List.Forall₂ (fun x y => f x = .ok y) xs ys := by
  induction xs with
  | nil =>
      intro ys
      rw [List.mapM_nil, pure_eq_ok, List.forall₂_nil_left_iff]
      exact eq_comm
  | cons x xs ih =>
      intro ys
      rw [List.mapM_cons, bind_eq_ok, List.forall₂_cons_left_iff]
      constructor
      · rintro ⟨y, hy, h⟩
        obtain ⟨zs, hzs, h⟩ := bind_eq_ok.mp h
        exact ⟨y, zs, hy, ih.mp hzs, (pure_eq_ok.mp h).symm⟩
      · rintro ⟨y, zs, hy, hzs, rfl⟩
        exact ⟨y, hy, bind_eq_ok.mpr ⟨zs, ih.mpr hzs, rfl⟩⟩

/-- A step for every member of a list fails with one of the steps. -/
theorem mapM_eq_error {f : α → Except ε β} {xs : List α} {e : ε} (h : xs.mapM f = .error e) :
    ∃ x ∈ xs, f x = .error e := by
  induction xs with
  | nil => cases h
  | cons x xs ih =>
      rw [List.mapM_cons] at h
      rcases bind_eq_error.mp h with h | ⟨_, -, h⟩
      · exact ⟨x, .head xs, h⟩
      · obtain ⟨other, hother, hf⟩ := ih (error_of_bind_pure h)
        exact ⟨other, .tail x hother, hf⟩

/-- Steps that each succeed for the members of a list succeed for the list. -/
theorem exists_mapM {f : α → Except ε β} {xs : List α} (h : ∀ x ∈ xs, ∃ y, f x = .ok y) :
    ∃ ys, xs.mapM f = .ok ys := by
  cases hran : xs.mapM f with
  | ok ys => exact ⟨ys, rfl⟩
  | error e =>
      obtain ⟨x, hx, he⟩ := mapM_eq_error hran
      obtain ⟨y, hy⟩ := h x hx
      rw [hy] at he
      cases he

theorem exists_of_forall₂ {R : α → β → Prop} {xs : List α} {ys : List β}
    (h : List.Forall₂ R xs ys) {y : β} (hy : y ∈ ys) : ∃ x ∈ xs, R x y := by
  induction h with
  | nil => cases hy
  | @cons x _ xs _ hR _ ih =>
      rcases List.mem_cons.mp hy with rfl | hy
      · exact ⟨x, .head xs, hR⟩
      · obtain ⟨other, hother, hR⟩ := ih hy
        exact ⟨other, .tail x hother, hR⟩

/-! ## Actions on a state -/

/-- Actions that do the same on every state are the same. -/
theorem ext_run {x y : ExceptT ε (StateM σ) α} (h : ∀ state, x.run.run state = y.run.run state) :
    x = y := funext h

theorem run_bind (x : ExceptT ε (StateM σ) α) (f : α → ExceptT ε (StateM σ) β) (state : σ) :
    (x >>= f).run.run state =
      match x.run.run state with
      | (.ok a, state) => (f a).run.run state
      | (.error e, state) => (.error e, state) := by
  rw [ExceptT.run_bind, StateT.run_bind]
  rcases x.run.run state with ⟨_ | _, _⟩ <;> rfl

theorem run_bind_of_ok {x : ExceptT ε (StateM σ) α} {state state' : σ} {a : α}
    (h : x.run.run state = (.ok a, state')) (f : α → ExceptT ε (StateM σ) β) :
    (x >>= f).run.run state = (f a).run.run state' := by
  rw [run_bind, h]

theorem run_bind_of_error {x : ExceptT ε (StateM σ) α} {state state' : σ} {e : ε}
    (h : x.run.run state = (.error e, state')) (f : α → ExceptT ε (StateM σ) β) :
    (x >>= f).run.run state = (.error e, state') := by
  rw [run_bind, h]

theorem run_liftExcept (x : Except ε α) (state : σ) :
    (liftExcept x : ExceptT ε (StateM σ) α).run.run state = (x, state) := by
  cases x <;> rfl

theorem run_adapt (f : ε → ε') (x : ExceptT ε (StateM σ) α) (state : σ) :
    (x.adapt f).run.run state =
      ((x.run.run state).1.mapError f, (x.run.run state).2) := rfl

/-- An action whose result goes through a function. -/
theorem run_bind_pure (x : ExceptT ε (StateM σ) α) (f : α → β) (state : σ) :
    (x >>= fun a => pure (f a)).run.run state =
      ((x.run.run state).1.map f, (x.run.run state).2) := by
  rw [run_bind]
  rcases x.run.run state with ⟨_ | _, _⟩ <;> rfl

/-! What is wrong with actions can be reported otherwise, once they have been put together or
before. -/

theorem adapt_liftExcept (f : ε → ε') (x : Except ε α) :
    (liftExcept x : ExceptT ε (StateM σ) α).adapt f = liftExcept (x.mapError f) := by
  cases x <;> rfl

theorem adapt_adapt {ε'' : Type} (f : ε → ε') (g : ε' → ε'') (x : ExceptT ε (StateM σ) α) :
    (x.adapt f).adapt g = x.adapt (g ∘ f) := by
  refine ext_run fun state => ?_
  rw [run_adapt, run_adapt, run_adapt]
  cases (x.run.run state).1 <;> rfl

theorem adapt_bind (f : ε → ε') (x : ExceptT ε (StateM σ) α) (k : α → ExceptT ε (StateM σ) β) :
    (x >>= k).adapt f = x.adapt f >>= fun a => (k a).adapt f := by
  refine ext_run fun state => ?_
  rw [run_adapt, run_bind, run_bind, run_adapt]
  rcases x.run.run state with ⟨_ | _, _⟩ <;> rfl

/-- Actions that report otherwise what others report do so together as well. -/
theorem bind_eq_adapt {f : ε → ε'} {x : ExceptT ε (StateM σ) α} {x' : ExceptT ε' (StateM σ) α}
    {k : α → ExceptT ε (StateM σ) β} {k' : α → ExceptT ε' (StateM σ) β} (hx : x' = x.adapt f)
    (hk : ∀ a, k' a = (k a).adapt f) : x' >>= k' = (x >>= k).adapt f := by
  rw [adapt_bind, hx]
  exact congrArg _ (funext hk)

/-! ## Keeping a log -/

namespace Executor

theorem traced_call (executor : Executor σ) (site : CallSite) :
    executor.traced.call site = beside (.call site) (executor.call site) := rfl

/-- Beside a log an action does what it does alone, and the log grows by its request. -/
theorem run_beside (request : Request) (action : Running σ α) (state : σ) (log : List Request) :
    (beside request action).run.run (state, log) =
      ((action.run.run state).1, (action.run.run state).2, log ++ [request]) := rfl

end Executor

end QubitScript
