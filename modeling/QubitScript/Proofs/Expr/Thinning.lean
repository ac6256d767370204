import QubitScript.Proofs.Expr.Grammar
import QubitScript.Proofs.Expr.Losses
import QubitScript.Proofs.Expr.Values

/-!
# Expressions with shorter literals

An expression stays one when its literals become shorter. A text can only be joined, printed or
returned, so if the expression has a value, the other one has a value as well, and whatever its
literals have lost the value has lost too.
-/

namespace QubitScript.Expr

open Grammar Printing

/-! ## Values -/

/-- The values of two expressions whose literals have these lengths in all. -/
inductive Close (long short : Nat) : Value → Value → Prop
  | same {v : Value} : long = short → Close long short v v
  | shorter {s t : String} : short < long → t.length < s.length →
      Close long short (.text s) (.text t)

/-- The values of arguments, with the lengths added up. -/
inductive CloseAll : Nat → Nat → List Value → List Value → Prop
  | nil : CloseAll 0 0 [] []
  | cons {long short longs shorts : Nat} {v v' : Value} {vs vs' : List Value} :
      Close long short v v' → CloseAll longs shorts vs vs' →
      CloseAll (long + longs) (short + shorts) (v :: vs) (v' :: vs')

theorem CloseAll.eq_singleton {long short : Nat} {v : Value} {vs : List Value}
    (h : CloseAll long short [v] vs) : ∃ v', vs = [v'] ∧ Close long short v v' := by
  cases h with
  | cons hv hnil =>
      cases hnil
      exact ⟨_, rfl, hv⟩

theorem apply_text_left {op : BinaryOp} {s : String} {r v : Value} :
    op.apply (.text s) r = .ok v ↔ op = .add ∧ ∃ t, r = .text t ∧ v = .text (s ++ t) := by
  cases op <;> cases r <;> simp [BinaryOp.apply, eq_comm]

theorem apply_text_right {op : BinaryOp} {t : String} {l v : Value} :
    op.apply l (.text t) = .ok v ↔ op = .add ∧ ∃ s, l = .text s ∧ v = .text (s ++ t) := by
  cases op <;> cases l <;> simp [BinaryOp.apply, eq_comm]

theorem apply_text_text {s t : String} :
    BinaryOp.apply .add (.text s) (.text t) = .ok (.text (s ++ t)) := rfl

theorem Close.apply {op : BinaryOp} {a a' b b' : Nat} {l l' r r' v : Value}
    (hl : Close a a' l l') (hr : Close b b' r r') (h : op.apply l r = .ok v) :
    ∃ v', op.apply l' r' = .ok v' ∧ Close (a + b) (a' + b') v v' := by
  cases hl with
  | same ha =>
      cases hr with
      | same hb => exact ⟨v, h, .same (by omega)⟩
      | shorter hb hless =>
          -- A text on one side means that two texts are joined, and their lengths add up.
          obtain ⟨rfl, s, rfl, rfl⟩ := apply_text_right.mp h
          refine ⟨_, apply_text_text, .shorter (by omega) ?_⟩
          rw [String.length_append, String.length_append]
          exact Nat.add_lt_add_left hless _
  | shorter ha hless =>
      obtain ⟨rfl, t, rfl, rfl⟩ := apply_text_left.mp h
      cases hr with
      | same hb =>
          refine ⟨_, apply_text_text, .shorter (by omega) ?_⟩
          rw [String.length_append, String.length_append]
          exact Nat.add_lt_add_right hless _
      | shorter hb hless' =>
          refine ⟨_, apply_text_text, .shorter (by omega) ?_⟩
          rw [String.length_append, String.length_append]
          exact Nat.add_lt_add hless hless'

theorem Close.negate {a a' : Nat} {u u' v : Value} (hu : Close a a' u u')
    (h : u.negate = .ok v) : ∃ v', u'.negate = .ok v' ∧ Close a a' v v' := by
  cases hu with
  | same ha => exact ⟨v, h, .same ha⟩
  | shorter => cases h

/-- Printing is all that a function can do with a text. -/
theorem apply_text {function : Function} {s : String} {v : Value} :
    outcome (function.apply (.text s)) = .ok v ↔ function = .print ∧ v = .text s := by
  cases function with
  | print =>
      have houtcome : outcome (Function.print.apply (.text s)) = .ok (.text s) := rfl
      rw [houtcome, Except.ok.injEq]
      exact ⟨fun h => ⟨rfl, h.symm⟩, fun h => h.2.symm⟩
  | _ => exact ⟨nofun, nofun⟩

theorem outcome_callFunction {name : String} {vs : List Value} {v : Value} :
    outcome (callFunction name vs) = .ok v ↔ ∃ function u,
      Function.ofName? name = some function ∧ vs = [u] ∧ outcome (function.apply u) = .ok v := by
  rw [callFunction]
  cases Function.ofName? name with
  | none =>
      constructor
      · intro h
        cases hgate : Gate.ofName? name <;> rw [hgate] at h <;> cases h
      · rintro ⟨_, _, ⟨⟩, -⟩
  | some function =>
      rcases vs with _ | ⟨u, _ | ⟨w, vs⟩⟩ <;> constructor
      case cons.nil.mp => exact fun h => ⟨function, u, rfl, rfl, h⟩
      case cons.nil.mpr =>
        rintro ⟨_, _, ⟨⟩, ⟨⟩, h⟩
        exact h
      -- No function takes any other number of arguments.
      case nil.mp | cons.cons.mp => exact fun h => by cases h
      case nil.mpr | cons.cons.mpr => rintro ⟨_, _, -, ⟨⟩, -⟩

theorem CloseAll.call {name : String} {a a' : Nat} {vs vs' : List Value} {v : Value}
    (hvs : CloseAll a a' vs vs') (h : outcome (callFunction name vs) = .ok v) :
    ∃ v', outcome (callFunction name vs') = .ok v' ∧ Close a a' v v' := by
  obtain ⟨function, u, hname, rfl, happly⟩ := outcome_callFunction.mp h
  obtain ⟨u', rfl, hu⟩ := hvs.eq_singleton
  cases hu with
  | same ha => exact ⟨v, h, .same ha⟩
  | @shorter s t ha hless =>
      obtain ⟨rfl, rfl⟩ := apply_text.mp happly
      exact ⟨.text t, outcome_callFunction.mpr ⟨.print, _, hname, rfl, rfl⟩, .shorter ha hless⟩

/-! ## Trees -/

/-- Where the first expression has a value, the second one has a value close to it. -/
def Follows (long short : Nat) (expr expr' : Expr) : Prop :=
  ∀ bindings v, expr.value bindings = .ok v →
    ∃ v', expr'.value bindings = .ok v' ∧ Close long short v v'

def FollowAll (long short : Nat) (exprs exprs' : List Expr) : Prop :=
  ∀ bindings vs, values bindings exprs = .ok vs →
    ∃ vs', values bindings exprs' = .ok vs' ∧ CloseAll long short vs vs'

section Trees

variable {a a' b b' line line' : Nat} {left left' right right' expr expr' : Expr}
  {exprs exprs' : List Expr}

theorem follows_literal {literal : Literal} :
    Follows a a (.literal literal line) (.literal literal line') := by
  intro bindings v h
  rw [value_literal] at h
  exact ⟨v, value_literal.trans h, .same rfl⟩

theorem follows_text {long short : String} (hless : short.length < long.length) :
    Follows long.length short.length (.literal (.text long) line)
      (.literal (.text short) line') := by
  intro bindings v h
  rw [value_literal] at h
  cases h
  exact ⟨.text short, value_literal, .shorter hless hless⟩

theorem follows_variable {name : String} :
    Follows a a (.variable name line) (.variable name line') := by
  intro bindings v h
  exact ⟨v, value_variable.mpr (value_variable.mp h), .same rfl⟩

theorem Follows.negate (h : Follows a a' expr expr') :
    Follows a a' (.negate expr line) (.negate expr' line') := by
  intro bindings v hvalue
  obtain ⟨u, hu, hv⟩ := value_negate.mp hvalue
  obtain ⟨u', hu', close⟩ := h bindings u hu
  obtain ⟨v', hv', close'⟩ := close.negate hv
  exact ⟨v', value_negate.mpr ⟨u', hu', hv'⟩, close'⟩

theorem Follows.binary {op : BinaryOp} (hleft : Follows a a' left left')
    (hright : Follows b b' right right') :
    Follows (a + b) (a' + b') (.binary op left right line) (.binary op left' right' line') := by
  intro bindings v hvalue
  obtain ⟨l, r, hl, hr, hv⟩ := value_binary.mp hvalue
  obtain ⟨l', hl', closel⟩ := hleft bindings l hl
  obtain ⟨r', hr', closer⟩ := hright bindings r hr
  obtain ⟨v', hv', close⟩ := closel.apply closer hv
  exact ⟨v', value_binary.mpr ⟨l', r', hl', hr', hv'⟩, close⟩

theorem followAll_nil : FollowAll 0 0 [] [] := by
  intro bindings vs h
  cases values_nil.symm.trans h
  exact ⟨[], values_nil, .nil⟩

theorem Follows.cons (h : Follows a a' expr expr') (hothers : FollowAll b b' exprs exprs') :
    FollowAll (a + b) (a' + b') (expr :: exprs) (expr' :: exprs') := by
  intro bindings vs hvs
  obtain ⟨u, us, hu, hus, rfl⟩ := values_cons.mp hvs
  obtain ⟨u', hu', close⟩ := h bindings u hu
  obtain ⟨us', hus', closes⟩ := hothers bindings us hus
  exact ⟨u' :: us', values_cons.mpr ⟨u', us', hu', hus', rfl⟩, .cons close closes⟩

theorem FollowAll.call {name : String} (h : FollowAll a a' exprs exprs') :
    Follows a a' (.call name exprs line) (.call name exprs' line') := by
  intro bindings v hvalue
  obtain ⟨vs, hvs, hv⟩ := value_call.mp hvalue
  obtain ⟨vs', hvs', closes⟩ := h bindings vs hvs
  obtain ⟨v', hv', close⟩ := closes.call hv
  exact ⟨v', value_call.mpr ⟨vs', hvs', hv'⟩, close⟩

end Trees

/-! ## Tokens -/

/-- Tokens, each thinner than the one in its place, on whatever lines. -/
abbrev ThinnerTokens : List (Located Token) → List (Located Token) → Prop :=
  List.Forall₂ fun token token' => Thinner token.item token'.item

/-- The length of all literals. -/
def literalLength (tokens : List (Located Token)) : Nat := totalWeight (tokens.map (·.item))

section Tokens

variable {first second tokens tokens' : List (Located Token)} {token : Located Token}

theorem literalLength_cons :
    literalLength (token :: tokens) = weight token.item + literalLength tokens := rfl

theorem literalLength_append :
    literalLength (first ++ second) = literalLength first + literalLength second := by
  rw [literalLength, literalLength, literalLength, List.map_append, totalWeight_append]

theorem ThinnerTokens.append (h : ThinnerTokens (first ++ second) tokens') :
    ∃ first' second', tokens' = first' ++ second' ∧ ThinnerTokens first first' ∧
      ThinnerTokens second second' := by
  refine ⟨tokens'.take first.length, tokens'.drop first.length,
    (List.take_append_drop _ _).symm, ?_, ?_⟩
  · have := List.forall₂_take first.length h
    rwa [List.take_left] at this
  · have := List.forall₂_drop first.length h
    rwa [List.drop_left] at this

/-- A token that is no literal stays. -/
theorem ThinnerTokens.cons (h : ThinnerTokens (token :: tokens) tokens')
    (hkept : ∀ text, token.item ≠ .text text) :
    ∃ line rest, tokens' = ⟨line, token.item⟩ :: rest ∧ ThinnerTokens tokens rest := by
  obtain ⟨⟨line, item⟩, rest, hitem, hrest, rfl⟩ := List.forall₂_cons_left_iff.mp h
  generalize hmiddle : token.item = middle at hitem
  cases hitem with
  | same => exact ⟨line, rest, rfl, hrest⟩
  | shorter => exact absurd hmiddle (hkept _)

/-- A sign between two parts stays between what becomes of them. -/
theorem ThinnerTokens.around (h : ThinnerTokens (first ++ token :: second) tokens')
    (hkept : ∀ text, token.item ≠ .text text) :
    ∃ first' line second', tokens' = first' ++ ⟨line, token.item⟩ :: second' ∧
      ThinnerTokens first first' ∧ ThinnerTokens second second' := by
  obtain ⟨first', rest, rfl, hfirst, hrest⟩ := h.append
  obtain ⟨line, second', rfl, hsecond⟩ := hrest.cons hkept
  exact ⟨first', line, second', rfl, hfirst, hsecond⟩

theorem ThinnerTokens.nil (h : ThinnerTokens [] tokens') : tokens' = [] :=
  List.forall₂_nil_left_iff.mp h

end Tokens

theorem ne_text_of_additiveSign {sign : Token} {op : BinaryOp} (h : AdditiveSign sign op)
    (text : String) : sign ≠ .text text := by
  cases h <;> nofun

theorem ne_text_of_multiplicativeSign {sign : Token} {op : BinaryOp}
    (h : MultiplicativeSign sign op) (text : String) : sign ≠ .text text := by
  cases h <;> nofun

theorem weight_eq_zero {token : Token} (h : ∀ text, token ≠ .text text) : weight token = 0 := by
  cases token with
  | text text => exact absurd rfl (h text)
  | _ => rfl

/-- A token that is no literal adds nothing to the length. -/
theorem literalLength_cons_of_ne {token : Located Token} {tokens : List (Located Token)}
    (h : ∀ text, token.item ≠ .text text) :
    literalLength (token :: tokens) = literalLength tokens := by
  rw [literalLength_cons, weight_eq_zero h, Nat.zero_add]

/-- A sign between two parts adds nothing to their length. -/
theorem literalLength_sign {first second : List (Located Token)} {sign : Located Token}
    (h : ∀ text, sign.item ≠ .text text) :
    literalLength (first ++ sign :: second) = literalLength first + literalLength second := by
  rw [literalLength_append, literalLength_cons_of_ne h]

/-! ## Derivations -/

/-- Some tree of this level stands for the thinner tokens and follows the given one. -/
def Thinned (Level : List (Located Token) → Expr → Prop) (tokens tokens' : List (Located Token))
    (expr : Expr) : Prop :=
  ∃ expr', Level tokens' expr' ∧ Follows (literalLength tokens) (literalLength tokens') expr expr'

def ThinnedAll (Level : List (Located Token) → List Expr → Prop)
    (tokens tokens' : List (Located Token)) (exprs : List Expr) : Prop :=
  ∃ exprs', Level tokens' exprs' ∧
    FollowAll (literalLength tokens) (literalLength tokens') exprs exprs'

/-- A token that stands for an expression by itself. -/
theorem thinned_single {token : Located Token} {tokens' : List (Located Token)} {expr : Expr}
    (h : ThinnerTokens [token] tokens') (hkept : ∀ text, token.item ≠ .text text)
    (hexpr : ∀ line, ∃ expr', Primary [⟨line, token.item⟩] expr' ∧ Follows 0 0 expr expr') :
    Thinned Primary [token] tokens' expr := by
  obtain ⟨line, rest, rfl, hrest⟩ := h.cons hkept
  cases hrest.nil
  have hzero : ∀ line, literalLength [⟨line, token.item⟩] = 0 := fun line =>
    weight_eq_zero hkept
  obtain ⟨expr', hprimary, hfollows⟩ := hexpr line
  refine ⟨expr', hprimary, ?_⟩
  rw [hzero line, show literalLength [token] = 0 from hzero token.line]
  exact hfollows

/-- A text stands for an expression by itself, however long it is. -/
theorem thinned_text {text : String} {line : Nat} {tokens' : List (Located Token)}
    (h : ThinnerTokens [⟨line, .text text⟩] tokens') :
    Thinned Primary [⟨line, .text text⟩] tokens' (.literal (.text text) line) := by
  obtain ⟨⟨line', item⟩, rest, hitem, hrest, rfl⟩ := List.forall₂_cons_left_iff.mp h
  cases ThinnerTokens.nil hrest
  cases hitem with
  | same => exact ⟨_, .text, follows_literal⟩
  | shorter hless => exact ⟨_, .text, follows_text hless⟩

/-- What a pair of parentheses encloses. -/
theorem ThinnerTokens.enclosed {tokens tokens' : List (Located Token)} {closing : Nat}
    (h : ThinnerTokens (tokens ++ [⟨closing, .closeParen⟩]) tokens') :
    ∃ inner line, tokens' = inner ++ [⟨line, .closeParen⟩] ∧ ThinnerTokens tokens inner := by
  obtain ⟨inner, line, rest, rfl, hinner, hrest⟩ := h.around nofun
  cases hrest.nil
  exact ⟨inner, line, rfl, hinner⟩

theorem literalLength_group {tokens : List (Located Token)} {opening closing : Nat} :
    literalLength (⟨opening, .openParen⟩ :: (tokens ++ [⟨closing, .closeParen⟩])) =
      literalLength tokens := by
  rw [literalLength_cons_of_ne, literalLength_sign]
  · rfl
  · nofun
  · nofun

theorem literalLength_call {tokens : List (Located Token)} {name : String}
    {line opening closing : Nat} :
    literalLength (⟨line, .identifier name⟩ :: ⟨opening, .openParen⟩ :: (tokens ++
      [⟨closing, .closeParen⟩])) = literalLength tokens := by
  rw [literalLength_cons_of_ne, literalLength_group]
  nofun

mutual

theorem Grammar.Additive.thinned {tokens tokens' : List (Located Token)} {expr : Expr} :
    Additive tokens expr → ThinnerTokens tokens tokens' → Thinned Additive tokens tokens' expr
  | .one term, h => by
      obtain ⟨expr', hterm, hfollows⟩ := term.thinned h
      exact ⟨expr', .one hterm, hfollows⟩
  | .more left sign right, h => by
      obtain ⟨first, line, second, rfl, hfirst, hsecond⟩ :=
        h.around (ne_text_of_additiveSign sign)
      obtain ⟨left', hleft, hfollows⟩ := left.thinned hfirst
      obtain ⟨right', hright, hfollows'⟩ := right.thinned hsecond
      refine ⟨_, .more hleft sign hright, ?_⟩
      rw [literalLength_sign (ne_text_of_additiveSign sign),
        literalLength_sign (ne_text_of_additiveSign sign)]
      exact hfollows.binary hfollows'

theorem Grammar.Multiplicative.thinned {tokens tokens' : List (Located Token)} {expr : Expr} :
    Multiplicative tokens expr → ThinnerTokens tokens tokens' →
    Thinned Multiplicative tokens tokens' expr
  | .one factor, h => by
      obtain ⟨expr', hfactor, hfollows⟩ := factor.thinned h
      exact ⟨expr', .one hfactor, hfollows⟩
  | .more left sign right, h => by
      obtain ⟨first, line, second, rfl, hfirst, hsecond⟩ :=
        h.around (ne_text_of_multiplicativeSign sign)
      obtain ⟨left', hleft, hfollows⟩ := left.thinned hfirst
      obtain ⟨right', hright, hfollows'⟩ := right.thinned hsecond
      refine ⟨_, .more hleft sign hright, ?_⟩
      rw [literalLength_sign (ne_text_of_multiplicativeSign sign),
        literalLength_sign (ne_text_of_multiplicativeSign sign)]
      exact hfollows.binary hfollows'

theorem Grammar.Unary.thinned {tokens tokens' : List (Located Token)} {expr : Expr} :
    Unary tokens expr → ThinnerTokens tokens tokens' → Thinned Unary tokens tokens' expr
  | .negate operand, h => by
      obtain ⟨line, rest, rfl, hrest⟩ := h.cons nofun
      obtain ⟨operand', hoperand, hfollows⟩ := operand.thinned hrest
      refine ⟨_, .negate hoperand, ?_⟩
      rw [literalLength_cons_of_ne, literalLength_cons_of_ne]
      · exact hfollows.negate
      · nofun
      · nofun
  | .primary primary, h => by
      obtain ⟨expr', hprimary, hfollows⟩ := primary.thinned h
      exact ⟨expr', .primary hprimary, hfollows⟩

theorem Grammar.Primary.thinned {tokens tokens' : List (Located Token)} {expr : Expr} :
    Primary tokens expr → ThinnerTokens tokens tokens' → Thinned Primary tokens tokens' expr
  | .integer, h => thinned_single h nofun fun _ => ⟨_, .integer, follows_literal⟩
  | .real, h => thinned_single h nofun fun _ => ⟨_, .real, follows_literal⟩
  | .text, h => thinned_text h
  | .name, h => thinned_single h nofun fun _ => ⟨_, .name, follows_variable⟩
  | .call arguments, h => by
      obtain ⟨line, afterName, rfl, hafterName⟩ := h.cons nofun
      obtain ⟨opening, afterOpening, rfl, hafterOpening⟩ := hafterName.cons nofun
      obtain ⟨inner, closing, rfl, hinner⟩ := hafterOpening.enclosed
      obtain ⟨arguments', harguments, hfollow⟩ := arguments.thinned hinner
      refine ⟨_, .call harguments, ?_⟩
      rw [literalLength_call, literalLength_call]
      exact hfollow.call
  | .group inner, h => by
      obtain ⟨opening, afterOpening, rfl, hafterOpening⟩ := h.cons nofun
      obtain ⟨inner', closing, rfl, hinner⟩ := hafterOpening.enclosed
      obtain ⟨expr', hexpr, hfollows⟩ := inner.thinned hinner
      refine ⟨expr', .group hexpr, ?_⟩
      rw [literalLength_group, literalLength_group]
      exact hfollows

theorem Grammar.Arguments.thinned {tokens tokens' : List (Located Token)} {exprs : List Expr} :
    Arguments tokens exprs → ThinnerTokens tokens tokens' →
    ThinnedAll Arguments tokens tokens' exprs
  | .none, h => by
      cases h.nil
      exact ⟨[], .none, followAll_nil⟩
  | .some list, h => by
      obtain ⟨exprs', hlist, hfollow⟩ := list.thinned h
      exact ⟨exprs', .some hlist, hfollow⟩

theorem Grammar.ArgumentList.thinned {tokens tokens' : List (Located Token)} {exprs : List Expr} :
    ArgumentList tokens exprs → ThinnerTokens tokens tokens' →
    ThinnedAll ArgumentList tokens tokens' exprs
  | .last expr, h => by
      obtain ⟨expr', hexpr, hfollows⟩ := expr.thinned h
      exact ⟨[expr'], .last hexpr, hfollows.cons followAll_nil⟩
  | .more expr others, h => by
      obtain ⟨first, line, second, rfl, hfirst, hsecond⟩ := h.around nofun
      obtain ⟨expr', hexpr, hfollows⟩ := expr.thinned hfirst
      obtain ⟨exprs', hothers, hfollow⟩ := others.thinned hsecond
      refine ⟨expr' :: exprs', .more hexpr hothers, ?_⟩
      rw [literalLength_sign, literalLength_sign]
      · exact hfollows.cons hfollow
      · nofun
      · nofun

end

end QubitScript.Expr
