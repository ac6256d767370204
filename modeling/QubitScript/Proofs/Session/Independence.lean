import QubitScript.Proofs.Session.Effects

/-!
# Independent assignments

An expression is evaluated from the values of the variables in it and from nothing else that a
machine holds. So two assignments to different names, neither of whose names is a variable of the
other, can be made in either order: each gives the same value or fails in the same way, and the
bindings and the register come out the same.
-/

namespace QubitScript

/-! ## Variables of expressions -/

namespace Expr

mutual

/-- The variables of an expression, those of arguments included. The names of functions are none. -/
def variableNames : Expr → List String
  | .literal _ _ => []
  | .variable name _ => [name]
  | .negate operand _ => operand.variableNames
  | .binary _ left right _ => left.variableNames ++ right.variableNames
  | .call _ arguments _ => variableNamesOfAll arguments

def variableNamesOfAll : List Expr → List String
  | [] => []
  | expr :: exprs => expr.variableNames ++ variableNamesOfAll exprs

end

end Expr

namespace Bindings

variable {bindings bindings' : Bindings}

/-- The names have the same values, or none, under both bindings. -/
def AgreeOn (names : List String) (bindings bindings' : Bindings) : Prop :=
  ∀ name ∈ names, bindings.get? name = bindings'.get? name

theorem agreeOn_append {names others : List String} :
    AgreeOn (names ++ others) bindings bindings' ↔
      AgreeOn names bindings bindings' ∧ AgreeOn others bindings bindings' :=
  List.forall_mem_append

/-- A constant is a variable without a binding, so it takes no more than the binding of its name. -/
theorem resolve_congr {name : String} (h : bindings.get? name = bindings'.get? name) :
    bindings.resolve name = bindings'.resolve name := by
  rw [resolve, resolve, h]

end Bindings

namespace Expr

open Bindings

variable {bindings bindings' : Bindings}

mutual

/-- Evaluation reads no other names than the variables of the expression. -/
theorem eval_congr : ∀ {expr : Expr}, AgreeOn expr.variableNames bindings bindings' →
    expr.eval bindings = expr.eval bindings'
  | .literal _ _, _ => by rw [eval, eval]
  | .variable name _, h => by
      rw [variableNames] at h
      rw [eval, eval, resolve_congr (h name (.head _))]
  | .negate operand _, h => by
      rw [variableNames] at h
      rw [eval, eval, eval_congr h]
  | .binary _ left right _, h => by
      rw [variableNames] at h
      obtain ⟨hleft, hright⟩ := agreeOn_append.mp h
      rw [eval, eval, eval_congr hleft, eval_congr hright]
  | .call _ arguments _, h => by
      rw [variableNames] at h
      rw [eval, eval, evalAll_congr h]

theorem evalAll_congr : ∀ {exprs : List Expr},
    AgreeOn (variableNamesOfAll exprs) bindings bindings' →
    evalAll bindings exprs = evalAll bindings' exprs
  | [], _ => by rw [evalAll, evalAll]
  | expr :: exprs, h => by
      rw [variableNamesOfAll] at h
      obtain ⟨hfirst, hothers⟩ := agreeOn_append.mp h
      rw [evalAll, evalAll, eval_congr hfirst, evalAll_congr hothers]

end

/-- The value of an expression does not change when a name that is no variable of it is bound. -/
theorem value_bind {expr : Expr} {name : String} (h : name ∉ expr.variableNames) (value : Value) :
    expr.value (bindings.bind name value) = expr.value bindings := by
  have hagree : AgreeOn expr.variableNames (bindings.bind name value) bindings := by
    intro other hother
    rw [get?_bind, if_neg]
    rintro rfl
    exact h hother
  rw [Expr.value, eval_congr hagree, Expr.value]

end Expr

/-! ## Bindings made in either order -/

namespace Bindings

/-- Both bindings hold the same names with the same values, in whatever order. -/
structure Same (bindings bindings' : Bindings) : Prop where
  get? : ∀ name, bindings.get? name = bindings'.get? name
  entries : bindings.entries.Perm bindings'.entries

theorem Same.refl (bindings : Bindings) : Same bindings bindings := ⟨fun _ => rfl, .refl _⟩

theorem bind_comm (bindings : Bindings) {name other : String} (h : name ≠ other)
    (value value' : Value) :
    Same ((bindings.bind name value).bind other value')
      ((bindings.bind other value').bind name value) := by
  constructor
  · intro found
    simp only [get?_bind]
    by_cases hname : found = name
    · subst hname
      rw [if_neg h, if_pos rfl, if_pos rfl]
    · rw [if_neg hname, if_neg hname]
  · have hkept : (name != other) = true := bne_iff_ne.mpr h
    have hkept' : (other != name) = true := bne_iff_ne.mpr h.symm
    simp only [bind, List.filter_cons, hkept, hkept', if_true, List.filter_filter, Bool.and_comm]
    exact List.Perm.swap _ _ _

end Bindings

/-! ## Assignments -/

namespace Assignment

/-- What comes of an assignment under bindings: what is bound, or why nothing is. -/
def result (bindings : Bindings) (assignment : Assignment) : Except ExecutionError Binding :=
  ((assignment.value.value bindings).mapError .eval).map (⟨assignment.name, ·⟩)

/-- The bindings after an assignment, which are those before it if the value cannot be found. -/
def bindTo (bindings : Bindings) (assignment : Assignment) : Bindings :=
  match assignment.value.value bindings with
  | .error _ => bindings
  | .ok value => bindings.bind assignment.name value

variable {bindings : Bindings} {first second : Assignment}

/-- An assignment to a name that is no variable of an expression does not change its value. -/
theorem value_bindTo {expr : Expr} (h : first.name ∉ expr.variableNames) :
    expr.value (first.bindTo bindings) = expr.value bindings := by
  rw [bindTo]
  cases first.value.value bindings with
  | error _ => rfl
  | ok value => exact Expr.value_bind h value

theorem result_bindTo (h : first.name ∉ second.value.variableNames) :
    second.result (first.bindTo bindings) = second.result bindings := by
  rw [result, value_bindTo h, result]

/-- The value that the second assignment binds is the one that it would have bound first. -/
theorem bindTo_bindTo (h : first.name ∉ second.value.variableNames) :
    second.bindTo (first.bindTo bindings) =
      match second.value.value bindings with
      | .error _ => first.bindTo bindings
      | .ok value => (first.bindTo bindings).bind second.name value := by
  rw [bindTo, value_bindTo h]

theorem bindTo_comm (hnames : first.name ≠ second.name)
    (hfirst : first.name ∉ second.value.variableNames)
    (hsecond : second.name ∉ first.value.variableNames) :
    (second.bindTo (first.bindTo bindings)).Same (first.bindTo (second.bindTo bindings)) := by
  rw [bindTo_bindTo hfirst, bindTo_bindTo hsecond, bindTo, bindTo]
  cases first.value.value bindings with
  | error _ =>
      cases second.value.value bindings <;> exact .refl _
  | ok value =>
      cases second.value.value bindings with
      | error _ => exact .refl _
      | ok value' => exact bindings.bind_comm hnames value value'

end Assignment

namespace Machine

/-- A text that is read as an assignment gives the result of the assignment, binds what it binds,
and leaves the register alone. -/
theorem run_assign_of_read {source : String} {line : Nat} {assignment : Assignment}
    (h : Assignment.read source line = .ok assignment) (machine : Machine) :
    ((assign source line).run.run machine).1 = assignment.result machine.bindings ∧
      ((assign source line).run.run machine).2.bindings = assignment.bindTo machine.bindings ∧
      ((assign source line).run.run machine).2.register = machine.register := by
  have hresult := result_eval assignment.value machine
  have unchanged := unchanged_eval assignment.value machine
  rw [run_assign, h, Assignment.result, Assignment.bindTo]
  dsimp only
  rcases heval : (eval assignment.value).run.run machine with ⟨outcome, after⟩
  rw [heval] at hresult unchanged
  cases hvalue : assignment.value.value machine.bindings with
  | error error =>
      rw [hvalue] at hresult
      cases hresult
      exact ⟨rfl, unchanged.bindings, unchanged.register⟩
  | ok value =>
      rw [hvalue] at hresult
      cases hresult
      exact ⟨rfl, congrArg (·.bind assignment.name value) unchanged.bindings, unchanged.register⟩

end Machine

/-- Independent assignments commute. Two texts that are read as assignments to different names,
neither of which is a variable of the other assignment, give the same results in either order,
whether they bind something or fail, and leave the same bindings and the same register. -/
theorem assignments_commute {source source' : String} {line line' : Nat}
    {assignment assignment' : Assignment} (hread : Assignment.read source line = .ok assignment)
    (hread' : Assignment.read source' line' = .ok assignment')
    (hnames : assignment.name ≠ assignment'.name)
    (hvariable : assignment.name ∉ assignment'.value.variableNames)
    (hvariable' : assignment'.name ∉ assignment.value.variableNames) (machine : Machine) :
    let one := (Machine.assign source line).run.run
    let other := (Machine.assign source' line').run.run
    (one (other machine).2).1 = (one machine).1 ∧
      (other (one machine).2).1 = (other machine).1 ∧
      (other (one machine).2).2.bindings.Same (one (other machine).2).2.bindings ∧
      (other (one machine).2).2.register = (one (other machine).2).2.register := by
  intro one other
  obtain ⟨hresult, hbindings, hregister⟩ := Machine.run_assign_of_read hread machine
  obtain ⟨hresult', hbindings', hregister'⟩ := Machine.run_assign_of_read hread' machine
  obtain ⟨hlater, hbound, hkept⟩ := Machine.run_assign_of_read hread (other machine).2
  obtain ⟨hlater', hbound', hkept'⟩ := Machine.run_assign_of_read hread' (one machine).2
  refine ⟨?_, ?_, ?_, ?_⟩
  · calc (one (other machine).2).1
        = assignment.result (other machine).2.bindings := hlater
      _ = assignment.result (assignment'.bindTo machine.bindings) := by rw [hbindings']
      _ = assignment.result machine.bindings := Assignment.result_bindTo hvariable'
      _ = (one machine).1 := hresult.symm
  · calc (other (one machine).2).1
        = assignment'.result (one machine).2.bindings := hlater'
      _ = assignment'.result (assignment.bindTo machine.bindings) := by rw [hbindings]
      _ = assignment'.result machine.bindings := Assignment.result_bindTo hvariable
      _ = (other machine).1 := hresult'.symm
  · rw [hbound', hbindings, hbound, hbindings']
    exact Assignment.bindTo_comm hnames hvariable hvariable'
  · exact (hkept'.trans hregister).trans (hkept.trans hregister').symm

/-- An assignment to the name of a constant and one that fails, to the name of the other constant.
Both read the same variable, one of them within the argument of a function. -/
theorem assignments_of_constants_commute :
    let machine : Machine := { Machine.new with bindings := Bindings.empty.bind "a" (.integer 16) }
    let one := (Machine.assign "i = abs(a) - 20" 3).run.run
    let other := (Machine.assign "pi = -a \\ 0" 4).run.run
    (one (other machine).2).1 = .ok ⟨"i", .integer (-4)⟩ ∧
      (other (one machine).2).1 = .error (.eval ⟨4, .divisionByZero⟩) ∧
      (other (one machine).2).2.bindings.Same (one (other machine).2).2.bindings ∧
      (other (one machine).2).2.bindings.get? "i" = some (.integer (-4)) ∧
      (other (one machine).2).2.register = (one (other machine).2).2.register := by
  intro machine one other
  have hread : Assignment.read "i = abs(a) - 20" 3 = .ok ⟨"i", .binary .sub
      (.call "abs" [.variable "a" 3] 3) (.literal (.integer 20) 3) 3, 3⟩ := by
    with_unfolding_all rfl
  have hread' : Assignment.read "pi = -a \\ 0" 4 = .ok ⟨"pi", .binary .div
      (.negate (.variable "a" 4) 4) (.literal (.integer 0) 4) 4, 4⟩ := by
    with_unfolding_all rfl
  obtain ⟨hresult, hresult', hbindings, hregister⟩ :=
    assignments_commute hread hread' (by decide) (by decide) (by decide) machine
  have hone : (one machine).1 = .ok ⟨"i", .integer (-4)⟩ := by with_unfolding_all rfl
  have hother : (other machine).1 = .error (.eval ⟨4, .divisionByZero⟩) := by
    with_unfolding_all rfl
  refine ⟨hresult.trans hone, hresult'.trans hother, hbindings, ?_, hregister⟩
  with_unfolding_all rfl

end QubitScript
