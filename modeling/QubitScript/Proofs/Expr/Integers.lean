import Mathlib.Algebra.Field.Rat
import Mathlib.Data.Int.CharZero
import Mathlib.Tactic.Linarith
import QubitScript.Proofs.Expr.Values

/-!
# Arithmetic of integers is exact

Expressions over integers are read a second time, over the rational numbers and without any bound.
An integer that comes out of an evaluation is the rational value of the expression. Without division
the evaluation fails at the first node whose rational value is no 64-bit integer, and only there.
-/

namespace QubitScript

/-! ## Rational values -/

/-- What an operator makes of rational numbers. Nothing is divided by zero. -/
def BinaryOp.rational? (op : BinaryOp) (left right : ℚ) : Option ℚ :=
  match op with
  | add => some (left + right)
  | sub => some (left - right)
  | mul => some (left * right)
  | div => if right = 0 then none else some (left / right)

namespace Expr

/-- Integer literals and variables that are bound to integers, with signs and operators. -/
inductive IsIntegral (bindings : Bindings) : Expr → Prop
  | literal {value : Int64} {line : Nat} : IsIntegral bindings (.literal (.integer value) line)
  | name {name : String} {value : Int64} {line : Nat} :
      bindings.get? name = some (.integer value) → IsIntegral bindings (.variable name line)
  | negate {operand : Expr} {line : Nat} :
      IsIntegral bindings operand → IsIntegral bindings (.negate operand line)
  | binary {op : BinaryOp} {left right : Expr} {line : Nat} :
      IsIntegral bindings left → IsIntegral bindings right →
      IsIntegral bindings (.binary op left right line)

/-- The exact value of an expression over integers, unless it divides by zero. -/
def rational? (bindings : Bindings) : Expr → Option ℚ
  | .literal (.integer value) _ => some value.toInt
  | .variable name _ =>
    match bindings.get? name with
    | some (.integer value) => some value.toInt
    | _ => none
  | .negate operand _ => (rational? bindings operand).map (- ·)
  | .binary op left right _ => do
    let l ← rational? bindings left
    let r ← rational? bindings right
    op.rational? l r
  | _ => none

mutual

/-- The nodes of a tree, operands before their operators and the left ones first. -/
def nodes : Expr → List Expr
  | .literal value line => [.literal value line]
  | .variable name line => [.variable name line]
  | .negate operand line => nodes operand ++ [.negate operand line]
  | .binary op left right line => nodes left ++ nodes right ++ [.binary op left right line]
  | .call name arguments line => nodesAll arguments ++ [.call name arguments line]

def nodesAll : List Expr → List Expr
  | [] => []
  | expr :: exprs => nodes expr ++ nodesAll exprs

end

def isDivision : Expr → Bool
  | .binary .div _ _ _ => true
  | _ => false

/-- Whether the exact value is an integer of 64 bits. -/
def fits (bindings : Bindings) (expr : Expr) : Bool :=
  (expr.rational? bindings).any fun q => q.isInt && -2 ^ 63 ≤ q.num && q.num < 2 ^ 63

end Expr

/-! ## One operation -/

namespace Value

theorem ofInt_eq_integer {n : ℤ} {v : Int64} : ofInt n = .ok (integer v) ↔ v.toInt = n := by
  rw [ofInt]
  split
  next h =>
    rw [Except.ok.injEq, integer.injEq, ← Int64.toInt_inj, Int64.toInt_ofInt_of_le h.1 h.2]
    exact eq_comm
  next h =>
    refine ⟨nofun, ?_⟩
    rintro rfl
    exact absurd ⟨v.le_toInt, v.toInt_lt⟩ h

theorem ofInt_eq_overflow {n : ℤ} (h : ¬ (-2 ^ 63 ≤ n ∧ n < 2 ^ 63)) :
    ofInt n = .error .overflow := if_neg h

theorem ofInt_toInt (v : Int64) : ofInt v.toInt = .ok (integer v) := ofInt_eq_integer.mpr rfl

/-- Whole numbers become reals up to `2 ^ 53 - 1`. -/
theorem toReal_integer (v : Int64) : (integer v).toReal =
    if v.toInt.natAbs ≤ 2 ^ 53 - 1 then .ok v.toFloat else .error .tooLarge := by
  change Option.elim (if v.toInt.natAbs ≤ 2 ^ 53 - 1 then some v.toFloat else none) _ _ = _
  split <;> rfl

/-- Only an integer has an integer as its negation. -/
theorem negate_eq_integer {u : Value} {v : Int64} :
    u.negate = .ok (integer v) ↔ ∃ w : Int64, u = integer w ∧ v.toInt = -w.toInt := by
  cases u with
  | integer w =>
      rw [negate, ofInt_eq_integer]
      exact ⟨fun h => ⟨w, rfl, h⟩, fun ⟨_, hw, h⟩ => by cases hw; exact h⟩
  | _ => exact ⟨nofun, nofun⟩

end Value

namespace BinaryOp

variable {op : BinaryOp} {l r : Value} {a b v : Int64}

theorem ne_integer_of_promotedComplex : op.promotedComplex l r ≠ .ok (.integer v) := by
  intro h
  obtain ⟨_, -, h⟩ := bind_eq_ok.mp h
  obtain ⟨_, -, h⟩ := bind_eq_ok.mp h
  obtain ⟨_, -, h⟩ := bind_eq_ok.mp h
  obtain ⟨_, -, h⟩ := bind_eq_ok.mp h
  cases h

theorem ne_integer_of_promotedReal : op.promotedReal l r ≠ .ok (.integer v) := by
  intro h
  obtain ⟨_, -, h⟩ := bind_eq_ok.mp h
  obtain ⟨_, -, h⟩ := bind_eq_ok.mp h
  obtain ⟨_, -, h⟩ := bind_eq_ok.mp h
  obtain ⟨_, -, h⟩ := bind_eq_ok.mp h
  cases h

theorem apply_integer : op.apply (.integer a) (.integer b) = op.onIntegers a b := by
  cases op <;> rfl

/-- Only integers have an integer as their result. -/
theorem apply_eq_integer : op.apply l r = .ok (.integer v) ↔
    ∃ a b, l = .integer a ∧ r = .integer b ∧ op.onIntegers a b = .ok (.integer v) := by
  constructor
  · intro h
    match l, r with
    | .integer a, .integer b => exact ⟨a, b, rfl, rfl, apply_integer ▸ h⟩
    | .text _, .text _ | .text _, .integer _ | .text _, .real _ | .text _, .complex _
    | .integer _, .text _ | .real _, .text _ | .complex _, .text _ => cases op <;> cases h
    | .complex _, .integer _ | .complex _, .real _ | .complex _, .complex _
    | .integer _, .complex _ | .real _, .complex _ =>
        cases op <;> exact absurd h ne_integer_of_promotedComplex
    | .real _, .integer _ | .real _, .real _ | .integer _, .real _ =>
        cases op <;> exact absurd h ne_integer_of_promotedReal
  · rintro ⟨a, b, rfl, rfl, h⟩
    rw [apply_integer, h]

/-- An integer quotient is exact. -/
theorem rational?_of_onIntegers (h : op.onIntegers a b = .ok (.integer v)) :
    op.rational? a.toInt b.toInt = some (v.toInt : ℚ) := by
  cases op with
  | add =>
      rw [Value.ofInt_eq_integer.mp h, rational?, Int.cast_add]
  | sub =>
      rw [Value.ofInt_eq_integer.mp h, rational?, Int.cast_sub]
  | mul =>
      rw [Value.ofInt_eq_integer.mp h, rational?, Int.cast_mul]
  | div =>
      rw [onIntegers] at h
      split at h
      · cases h
      next hzero =>
        split at h
        next hrem =>
          have hdvd : b.toInt ∣ a.toInt := Int.dvd_iff_tmod_eq_zero.mpr hrem
          have hne : (b.toInt : ℚ) ≠ 0 := Int.cast_ne_zero.mpr hzero
          have hmul : v.toInt * b.toInt = a.toInt := by
            rw [Value.ofInt_eq_integer.mp h]
            exact Int.tdiv_mul_cancel hdvd
          rw [rational?, if_neg hne, ← hmul, Int.cast_mul, mul_div_cancel_right₀ _ hne]
        · obtain ⟨_, -, h⟩ := bind_eq_ok.mp h
          obtain ⟨_, -, h⟩ := bind_eq_ok.mp h
          cases h

/-- A quotient is no larger than its dividend, and reaches `2 ^ 63` for the least dividend only. -/
theorem quotient_fits {m n q : ℤ} (hlow : -2 ^ 63 ≤ m) (hhigh : m < 2 ^ 63) (hmul : q * n = m)
    (hn : n ≠ 0) (hleast : ¬ (m = -2 ^ 63 ∧ n = -1)) : -2 ^ 63 ≤ q ∧ q < 2 ^ 63 := by
  rcases lt_or_gt_of_ne hn with hneg | hpos
  · by_cases hone : n = -1
    · subst hone
      omega
    · -- Any other negative divisor halves the dividend at least.
      have hlarge : n ≤ -2 := by omega
      constructor <;> nlinarith
  · constructor <;> nlinarith

/-- Division of integers. The quotient of the least integer by minus one is the only one that is too
large for an integer, and operands are too large for reals from `2 ^ 53` on. -/
theorem onIntegers_div (a b : Int64) :
    if b.toInt = 0 then div.onIntegers a b = .error .divisionByZero
    else if b.toInt ∣ a.toInt then
      if a = .minValue ∧ b = -1 then div.onIntegers a b = .error .overflow
      else ∃ q : Int64, q.toInt * b.toInt = a.toInt ∧ div.onIntegers a b = .ok (.integer q)
    else if a.toInt.natAbs ≤ 2 ^ 53 - 1 ∧ b.toInt.natAbs ≤ 2 ^ 53 - 1 then
      div.onIntegers a b = .ok (.real (a.toFloat / b.toFloat))
    else div.onIntegers a b = .error .tooLarge := by
  split
  next hzero => rw [onIntegers, if_pos hzero]
  next hzero =>
  split
  next hdvd =>
    have hmul : a.toInt.tdiv b.toInt * b.toInt = a.toInt := Int.tdiv_mul_cancel hdvd
    have hdiv : div.onIntegers a b = Value.ofInt (a.toInt.tdiv b.toInt) := by
      rw [onIntegers, if_neg hzero, if_pos (Int.dvd_iff_tmod_eq_zero.mp hdvd)]
    rw [hdiv]
    split
    next hleast =>
      obtain ⟨rfl, rfl⟩ := hleast
      exact Value.ofInt_eq_overflow (by decide)
    next hleast =>
      have hother : ¬ (a.toInt = -2 ^ 63 ∧ b.toInt = -1) := fun ⟨ha, hb⟩ =>
        hleast ⟨Int64.toInt_inj.mp ha, Int64.toInt_inj.mp hb⟩
      obtain ⟨hlow, hhigh⟩ := quotient_fits a.le_toInt a.toInt_lt hmul hzero hother
      have hquotient := Int64.toInt_ofInt_of_le hlow hhigh
      exact ⟨.ofInt (a.toInt.tdiv b.toInt), by rw [hquotient, hmul],
        Value.ofInt_eq_integer.mpr hquotient⟩
  next hdvd =>
    have hdiv : div.onIntegers a b =
        (Value.integer a).toReal >>= fun x => (Value.integer b).toReal >>= fun y =>
          pure (.real (x / y)) := by
      rw [onIntegers, if_neg hzero, if_neg (mt Int.dvd_iff_tmod_eq_zero.mpr hdvd)]
    rw [hdiv, Value.toReal_integer, Value.toReal_integer]
    -- The dividend is made a real first, so its size decides alone when it is too large.
    by_cases ha : a.toInt.natAbs ≤ 2 ^ 53 - 1
    · by_cases hb : b.toInt.natAbs ≤ 2 ^ 53 - 1
      · rw [if_pos ha, if_pos hb, if_pos ⟨ha, hb⟩]
        rfl
      · rw [if_pos ha, if_neg hb, if_neg fun h => hb h.2]
        rfl
    · rw [if_neg ha, if_neg fun h => ha h.1]
      rfl

end BinaryOp

/-! ## Whole expressions -/

namespace Printing

variable {ε α β : Type}

/-- An action that prints nothing. -/
def Silent (action : Printing ε α) : Prop := ∀ printed, (action.run.run printed).2 = printed

theorem silent_liftExcept (x : Except ε α) : Silent (liftExcept x : Printing ε α) := by
  intro printed
  rw [run_liftExcept]

theorem silent_onLine {line : Nat} {action : Printing ε α} (h : Silent action) :
    Silent (action.onLine line) := h

theorem silent_bind {x : Printing ε α} {f : α → Printing ε β} (hx : Silent x)
    (hf : ∀ a, Silent (f a)) : Silent (x >>= f) := by
  intro printed
  have hprinted := hx printed
  rw [run_bind]
  rcases hran : x.run.run printed with ⟨_ | a, after⟩ <;> rw [hran] at hprinted
  · exact hprinted
  · exact (hf a after).trans hprinted

end Printing

namespace Expr

variable {bindings : Bindings} {expr : Expr}

theorem value_of_integers {op : BinaryOp} {left right : Expr} {line : Nat} {a b : Int64}
    (ha : left.value bindings = .ok (.integer a)) (hb : right.value bindings = .ok (.integer b)) :
    (Expr.binary op left right line).value bindings =
      (op.onIntegers a b).mapError (⟨line, ·⟩) := by
  rw [value_binary_eq, ha, hb, ← BinaryOp.apply_integer]
  rfl

namespace IsIntegral

theorem silent (h : expr.IsIntegral bindings) : Printing.Silent (expr.eval bindings) := by
  induction h with
  | literal =>
      rw [eval]
      exact fun _ => rfl
  | name =>
      rw [eval]
      exact Printing.silent_onLine (Printing.silent_liftExcept _)
  | negate _ ih =>
      rw [eval]
      exact Printing.silent_bind ih fun _ =>
        Printing.silent_onLine (Printing.silent_liftExcept _)
  | binary _ _ ihLeft ihRight =>
      rw [eval]
      exact Printing.silent_bind ihLeft fun _ => Printing.silent_bind ihRight fun _ =>
        Printing.silent_onLine (Printing.silent_liftExcept _)

/-- An evaluation of integers finds the value of the expression and does nothing else. -/
theorem run_eval (h : expr.IsIntegral bindings) (printed : String) :
    (expr.eval bindings).run.run printed = (expr.value bindings, printed) :=
  Prod.ext (steady_eval expr printed) (h.silent printed)

/-- An integer that comes out of an evaluation is the rational value of the expression. -/
theorem rational?_of_value (h : expr.IsIntegral bindings) :
    ∀ {v : Int64}, expr.value bindings = .ok (.integer v) →
    expr.rational? bindings = some (v.toInt : ℚ) := by
  induction h with
  | literal =>
      intro v hvalue
      rw [value_literal] at hvalue
      cases hvalue
      rfl
  | name hbound =>
      intro v hvalue
      rw [value_variable, Bindings.resolve, hbound] at hvalue
      cases hvalue
      rw [rational?, hbound]
  | negate _ ih =>
      intro v hvalue
      obtain ⟨u, hoperand, hnegate⟩ := value_negate.mp hvalue
      obtain ⟨w, rfl, hv⟩ := Value.negate_eq_integer.mp hnegate
      rw [rational?, ih hoperand, hv, Int.cast_neg]
      rfl
  | binary _ _ ihLeft ihRight =>
      intro v hvalue
      obtain ⟨l, r, hleft, hright, happly⟩ := value_binary.mp hvalue
      obtain ⟨a, b, rfl, rfl, hop⟩ := BinaryOp.apply_eq_integer.mp happly
      rw [rational?, ihLeft hleft, ihRight hright]
      exact BinaryOp.rational?_of_onIntegers hop

end IsIntegral

/-! ## Without division -/

theorem fits_iff {n : ℤ} (h : expr.rational? bindings = some (n : ℚ)) :
    expr.fits bindings = true ↔ -2 ^ 63 ≤ n ∧ n < 2 ^ 63 := by
  rw [fits, h, Option.any_some, Rat.isInt, Rat.den_intCast, Rat.num_intCast, beq_self_eq_true,
    Bool.true_and, Bool.and_eq_true, decide_eq_true_eq, decide_eq_true_eq]

/-- The first node whose exact value is no integer of 64 bits. -/
def firstUnfit? (bindings : Bindings) (expr : Expr) : Option Expr :=
  expr.nodes.find? fun node => !node.fits bindings

/-- The value is an integer when all nodes fit, and otherwise an overflow at the first that does
not. -/
def Settles (bindings : Bindings) (expr : Expr) (unfit : Option Expr) : Prop :=
  match unfit with
  | none => ∃ v, expr.value bindings = .ok (.integer v)
  | some node => expr.value bindings = .error ⟨node.line, .overflow⟩

/-- A node whose operands fit overflows when it does not fit itself. -/
theorem settles_node {n : ℤ} (hrational : expr.rational? bindings = some (n : ℚ))
    (hvalue : expr.value bindings = (Value.ofInt n).mapError (⟨expr.line, ·⟩)) :
    expr.Settles bindings ([expr].find? fun node => !node.fits bindings) := by
  have hfits := fits_iff hrational
  by_cases hn : -2 ^ 63 ≤ n ∧ n < 2 ^ 63
  · rw [List.find?_cons_of_neg (by rw [hfits.mpr hn]; decide), List.find?_nil]
    refine ⟨.ofInt n, ?_⟩
    rw [hvalue, Value.ofInt, if_pos hn]
    rfl
  · rw [List.find?_cons_of_pos (by rw [Bool.eq_false_iff.mpr (mt hfits.mp hn)]; rfl)]
    rw [Settles, hvalue, Value.ofInt_eq_overflow hn]
    rfl

theorem IsIntegral.settles (h : expr.IsIntegral bindings) :
    (∀ node ∈ expr.nodes, node.isDivision = false) →
    expr.Settles bindings (expr.firstUnfit? bindings) := by
  induction h with
  | @literal value line =>
      intro _
      rw [firstUnfit?, nodes]
      refine settles_node rfl ?_
      rw [value_literal, Expr.line, Value.ofInt_toInt]
      rfl
  | @name name value line hbound =>
      intro _
      rw [firstUnfit?, nodes]
      refine settles_node (n := value.toInt) ?_ ?_
      · rw [rational?, hbound]
      · rw [Value.ofInt_toInt]
        exact value_variable.mpr (by rw [Bindings.resolve, hbound])
  | @negate operand line hoperand ih =>
      intro hdivision
      rw [nodes] at hdivision
      have hsettles := ih (List.forall_mem_append.mp hdivision).1
      rw [firstUnfit?] at hsettles ⊢
      rw [nodes, List.find?_append]
      cases hfound : operand.nodes.find? fun node => !node.fits bindings with
      | some node =>
          rw [hfound] at hsettles
          rw [Option.some_or, Settles, value_negate_eq, hsettles]
          rfl
      | none =>
          rw [hfound] at hsettles
          obtain ⟨w, hw⟩ := hsettles
          rw [Option.none_or]
          refine settles_node (n := -w.toInt) ?_ ?_
          · rw [rational?, hoperand.rational?_of_value hw, Int.cast_neg]
            rfl
          · rw [value_negate_eq, hw]
            rfl
  | @binary op left right line hleft hright ihLeft ihRight =>
      intro hdivision
      rw [nodes] at hdivision
      obtain ⟨hoperands, hself⟩ := List.forall_mem_append.mp hdivision
      obtain ⟨hdivision, hdivision'⟩ := List.forall_mem_append.mp hoperands
      have hsettles := ihLeft hdivision
      have hsettles' := ihRight hdivision'
      rw [firstUnfit?] at hsettles hsettles' ⊢
      rw [nodes, List.find?_append, List.find?_append]
      cases hfound : left.nodes.find? fun node => !node.fits bindings with
      | some node =>
          rw [hfound] at hsettles
          rw [Option.some_or, Option.some_or, Settles, value_binary_eq, hsettles]
          rfl
      | none =>
          rw [hfound] at hsettles
          obtain ⟨a, ha⟩ := hsettles
          rw [Option.none_or]
          cases hfound' : right.nodes.find? fun node => !node.fits bindings with
          | some node =>
              rw [hfound'] at hsettles'
              rw [Option.some_or, Settles, value_binary_eq, ha, hsettles']
              rfl
          | none =>
              rw [hfound'] at hsettles'
              obtain ⟨b, hb⟩ := hsettles'
              rw [Option.none_or]
              -- Both operands are integers now, and only the operator is left to decide.
              have hvalue : (Expr.binary op left right line).value bindings = _ :=
                value_of_integers ha hb
              have hrational : (Expr.binary op left right line).rational? bindings =
                  op.rational? a.toInt b.toInt := by
                rw [rational?, hleft.rational?_of_value ha, hright.rational?_of_value hb]
                rfl
              cases op with
              | add =>
                  refine settles_node (n := a.toInt + b.toInt) ?_ hvalue
                  rw [hrational, BinaryOp.rational?, Int.cast_add]
              | sub =>
                  refine settles_node (n := a.toInt - b.toInt) ?_ hvalue
                  rw [hrational, BinaryOp.rational?, Int.cast_sub]
              | mul =>
                  refine settles_node (n := a.toInt * b.toInt) ?_ hvalue
                  rw [hrational, BinaryOp.rational?, Int.cast_mul]
              | div => cases hself _ (.head _)

theorem IsIntegral.of_mem_nodes (h : expr.IsIntegral bindings) :
    ∀ node ∈ expr.nodes, node.IsIntegral bindings := by
  induction h with
  | literal =>
      rw [nodes]
      exact List.forall_mem_singleton.mpr .literal
  | name hbound =>
      rw [nodes]
      exact List.forall_mem_singleton.mpr (.name hbound)
  | negate hoperand ih =>
      rw [nodes]
      exact List.forall_mem_append.mpr ⟨ih, List.forall_mem_singleton.mpr (.negate hoperand)⟩
  | binary hleft hright ihLeft ihRight =>
      rw [nodes]
      exact List.forall_mem_append.mpr ⟨List.forall_mem_append.mpr ⟨ihLeft, ihRight⟩,
        List.forall_mem_singleton.mpr (.binary hleft hright)⟩

end Expr

/-- Arithmetic on integers is exact. An integer result is the rational value of the expression.
Without division the evaluation gives an integer when the exact value of every node is one of 64
bits, and an overflow on the line of the first node otherwise. A node that divides integers fails
for a divisor of zero, gives the quotient if it is an integer of 64 bits, and gives a real for
operands that are exact as reals. -/
theorem integer_arithmetic_exact {bindings : Bindings} {expr : Expr}
    (h : expr.IsIntegral bindings) (printed : String) :
    let ran (node : Expr) : Except EvalError Value × String := (node.eval bindings).run.run printed
    (∀ v after, ran expr = (.ok (.integer v), after) →
      expr.rational? bindings = some (v.toInt : ℚ)) ∧
    ((∀ node ∈ expr.nodes, node.isDivision = false) →
      match expr.nodes.find? fun node => !node.fits bindings with
      | none => ∃ v, ran expr = (.ok (.integer v), printed)
      | some node => ran expr = (.error ⟨node.line, .overflow⟩, printed)) ∧
    ∀ left right line, .binary .div left right line ∈ expr.nodes →
      ∀ a b, (ran left).1 = .ok (.integer a) → (ran right).1 = .ok (.integer b) →
        let divided := ran (.binary .div left right line)
        if b.toInt = 0 then divided = (.error ⟨line, .divisionByZero⟩, printed)
        else if b.toInt ∣ a.toInt then
          if a = .minValue ∧ b = -1 then divided = (.error ⟨line, .overflow⟩, printed)
          else ∃ q : Int64, q.toInt * b.toInt = a.toInt ∧ divided = (.ok (.integer q), printed)
        else if a.toInt.natAbs ≤ 2 ^ 53 - 1 ∧ b.toInt.natAbs ≤ 2 ^ 53 - 1 then
          divided = (.ok (.real (a.toFloat / b.toFloat)), printed)
        else divided = (.error ⟨line, .tooLarge⟩, printed) := by
  intro ran
  have hran : ran expr = (expr.value bindings, printed) := h.run_eval printed
  refine ⟨fun v after hafter => ?_, fun hdivision => ?_, ?_⟩
  · rw [hran] at hafter
    exact h.rational?_of_value (congrArg Prod.fst hafter)
  · have hsettles := h.settles hdivision
    rw [Expr.firstUnfit?] at hsettles
    rw [hran]
    cases hfound : expr.nodes.find? fun node => !node.fits bindings with
    | none =>
        rw [hfound] at hsettles
        obtain ⟨v, hv⟩ := hsettles
        exact ⟨v, by rw [hv]⟩
    | some node =>
        rw [hfound] at hsettles
        dsimp only
        rw [hsettles]
  · intro left right line hnode a b ha hb
    -- The operands of a node are over integers too, so that nothing is printed on the way to it.
    have hdivision := h.of_mem_nodes _ hnode
    obtain ⟨hleft, hright⟩ : left.IsIntegral bindings ∧ right.IsIntegral bindings := by
      cases hdivision with
      | binary hleft hright => exact ⟨hleft, hright⟩
    rw [show ran left = _ from hleft.run_eval printed] at ha
    rw [show ran right = _ from hright.run_eval printed] at hb
    have hdivided : ran (.binary .div left right line) =
        ((BinaryOp.div.onIntegers a b).mapError (⟨line, ·⟩), printed) :=
      (hdivision.run_eval printed).trans (by rw [Expr.value_of_integers ha hb])
    have hquotient := BinaryOp.onIntegers_div a b
    dsimp only
    rw [hdivided]
    split_ifs at hquotient ⊢ with hzero hdvd hleast hsmall
    · rw [hquotient]
      rfl
    · rw [hquotient]
      rfl
    · obtain ⟨q, hmul, hquotient⟩ := hquotient
      exact ⟨q, hmul, by rw [hquotient]; rfl⟩
    · rw [hquotient]
      rfl
    · rw [hquotient]
      rfl

/-- A sum that is too large fails although a difference would bring it back, and the least integer
has no quotient by minus one. -/
theorem overflow_of_integers :
    let sum : Expr := .binary .add (.variable "x" 1) (.literal (.integer 1) 1) 1
    let difference : Expr := .binary .sub sum (.literal (.integer 1) 2) 2
    let quotient : Expr := .binary .div (.variable "y" 3) (.negate (.literal (.integer 1) 3) 3) 3
    let bindings : Bindings := ⟨[("x", .integer .maxValue), ("y", .integer .minValue)]⟩
    difference.IsIntegral bindings ∧ quotient.IsIntegral bindings ∧
    difference.rational? bindings = some 9223372036854775807 ∧
    (difference.eval bindings).run.run "" = (.error ⟨1, .overflow⟩, "") ∧
    (quotient.eval bindings).run.run "" = (.error ⟨3, .overflow⟩, "") := by
  intro sum difference quotient bindings
  have hdifference : difference.IsIntegral bindings :=
    .binary (.binary (.name rfl) .literal) .literal
  have hquotient : quotient.IsIntegral bindings := .binary (.name rfl) (.negate .literal)
  have hunfit : (difference.nodes.find? fun node => !node.fits bindings) = some sum := by
    change List.find? _ [_, _, sum, _, _] = _
    rw [List.find?_cons_of_neg (by decide +kernel), List.find?_cons_of_neg (by decide +kernel),
      List.find?_cons_of_pos (by decide +kernel)]
  refine ⟨hdifference, hquotient, by decide +kernel, ?_, ?_⟩
  · have h := (integer_arithmetic_exact hdifference "").2.1 (by decide +kernel)
    rw [hunfit] at h
    exact h
  · exact (integer_arithmetic_exact hquotient "").2.2 _ _ _ (.tail _ (.tail _ (.tail _ (.head _))))
      .minValue (-1) rfl rfl

end QubitScript
