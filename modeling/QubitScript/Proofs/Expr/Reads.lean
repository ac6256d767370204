import QubitScript.Expr.Parser
import QubitScript.Proofs.Running

/-!
# What parsers read

For every parser, what it reads in terms of what the parsers that it calls read, with no mention of
how many tokens are left. Nothing else about the parsers is used where they are compared with the
grammar.
-/

namespace QubitScript.Expr

variable {α β : Type} {bound small large : Nat} {tokens rest : List (Located Token)}

/-- The parser has read `a`, and `rest` is left over. -/
def Reads (result : Except ParseError (Parsed α bound)) (a : α) (rest : List (Located Token)) :
    Prop :=
  ∃ parsed, result = .ok parsed ∧ parsed.value = a ∧ parsed.rest = rest

theorem reads_ok {parsed : Parsed α bound} {a : α} :
    Reads (.ok parsed) a rest ↔ parsed.value = a ∧ parsed.rest = rest := by
  simp [Reads]

theorem not_reads_error {fault : ParseError} {a : α} :
    ¬ Reads (.error fault : Except ParseError (Parsed α bound)) a rest := by
  simp [Reads]

theorem Reads.shorter {result : Except ParseError (Parsed α bound)} {a : α}
    (h : Reads result a rest) : rest.length < bound := by
  obtain ⟨parsed, -, -, rfl⟩ := h
  exact parsed.shorter

theorem reads_bind {x : Except ParseError (Parsed α small)}
    {f : Parsed α small → Except ParseError (Parsed β large)} {b : β} :
    Reads (x >>= f) b rest ↔ ∃ parsed, x = .ok parsed ∧ Reads (f parsed) b rest := by
  constructor
  · rintro ⟨result, h, hvalue, hrest⟩
    obtain ⟨parsed, hparsed, hresult⟩ := bind_eq_ok.mp h
    exact ⟨parsed, hparsed, result, hresult, hvalue, hrest⟩
  · rintro ⟨parsed, hparsed, result, hresult, hvalue, hrest⟩
    exact ⟨result, bind_eq_ok.mpr ⟨parsed, hparsed, hresult⟩, hvalue, hrest⟩

theorem exists_reads {x : Except ParseError (Parsed α bound)}
    {P : α → List (Located Token) → Prop} :
    (∃ parsed, x = .ok parsed ∧ P parsed.value parsed.rest) ↔
      ∃ a middle, Reads x a middle ∧ P a middle := by
  constructor
  · rintro ⟨parsed, hparsed, h⟩
    exact ⟨_, _, ⟨parsed, hparsed, rfl, rfl⟩, h⟩
  · rintro ⟨_, _, ⟨parsed, hparsed, rfl, rfl⟩, h⟩
    exact ⟨parsed, hparsed, h⟩

theorem reads_widen {x : Except ParseError (Parsed α small)} {h : small ≤ large} {a : α} :
    Reads (do let all ← x; return all.widen h) a rest ↔ Reads x a rest := by
  rw [reads_bind]
  exact exists_congr fun parsed => and_congr_right fun _ => reads_ok

theorem reads_map {x : Except ParseError (Parsed α small)} {f : α → β} {h : small ≤ large} {b : β} :
    Reads (do let all ← x; return (all.map f).widen h) b rest ↔
      ∃ a, Reads x a rest ∧ f a = b := by
  rw [reads_bind]
  constructor
  · rintro ⟨parsed, hparsed, h⟩
    obtain ⟨hvalue, hrest⟩ := reads_ok.mp h
    exact ⟨parsed.value, ⟨parsed, hparsed, rfl, hrest⟩, hvalue⟩
  · rintro ⟨a, ⟨parsed, hparsed, rfl, hrest⟩, hvalue⟩
    exact ⟨parsed, hparsed, reads_ok.mpr ⟨hvalue, hrest⟩⟩

/-! ## The parsers -/

theorem reads_additive {expr : Expr} :
    Reads (parseAdditive tokens) expr rest ↔
      ∃ left middle, Reads (parseMultiplicative tokens) left middle ∧
        Reads (parseAdditiveTail left middle) expr rest := by
  rw [parseAdditive, reads_bind, ← exists_reads]
  simp only [reads_widen]

theorem reads_additiveTail_nil {left expr : Expr} :
    Reads (parseAdditiveTail left []) expr rest ↔ left = expr ∧ [] = rest := by
  rw [parseAdditiveTail, reads_ok]

theorem reads_additiveTail_end {left expr : Expr} {token : Located Token}
    (h : additiveOp? token.item = none) :
    Reads (parseAdditiveTail left (token :: tokens)) expr rest ↔
      left = expr ∧ token :: tokens = rest := by
  rw [parseAdditiveTail]
  simp only [h, reads_ok]

theorem reads_additiveTail_sign {left expr : Expr} {token : Located Token} {op : BinaryOp}
    (h : additiveOp? token.item = some op) :
    Reads (parseAdditiveTail left (token :: tokens)) expr rest ↔
      ∃ right middle, Reads (parseMultiplicative tokens) right middle ∧
        Reads (parseAdditiveTail (.binary op left right token.line) middle) expr rest := by
  rw [parseAdditiveTail]
  simp only [h]
  rw [reads_bind, ← exists_reads]
  simp only [reads_widen]

theorem reads_multiplicative {expr : Expr} :
    Reads (parseMultiplicative tokens) expr rest ↔
      ∃ left middle, Reads (parseUnary tokens) left middle ∧
        Reads (parseMultiplicativeTail left middle) expr rest := by
  rw [parseMultiplicative, reads_bind, ← exists_reads]
  simp only [reads_widen]

theorem reads_multiplicativeTail_nil {left expr : Expr} :
    Reads (parseMultiplicativeTail left []) expr rest ↔ left = expr ∧ [] = rest := by
  rw [parseMultiplicativeTail, reads_ok]

theorem reads_multiplicativeTail_end {left expr : Expr} {token : Located Token}
    (h : multiplicativeOp? token.item = none) :
    Reads (parseMultiplicativeTail left (token :: tokens)) expr rest ↔
      left = expr ∧ token :: tokens = rest := by
  rw [parseMultiplicativeTail]
  simp only [h, reads_ok]

theorem reads_multiplicativeTail_sign {left expr : Expr} {token : Located Token} {op : BinaryOp}
    (h : multiplicativeOp? token.item = some op) :
    Reads (parseMultiplicativeTail left (token :: tokens)) expr rest ↔
      ∃ right middle, Reads (parseUnary tokens) right middle ∧
        Reads (parseMultiplicativeTail (.binary op left right token.line) middle) expr rest := by
  rw [parseMultiplicativeTail]
  simp only [h]
  rw [reads_bind, ← exists_reads]
  simp only [reads_widen]

theorem reads_unary_minus {expr : Expr} {line : Nat} :
    Reads (parseUnary (⟨line, .minus⟩ :: tokens)) expr rest ↔
      ∃ operand, Reads (parseUnary tokens) operand rest ∧ .negate operand line = expr := by
  rw [parseUnary, reads_map]

theorem reads_unary_other {expr : Expr}
    (h : ∀ line after, tokens ≠ ⟨line, .minus⟩ :: after) :
    Reads (parseUnary tokens) expr rest ↔ Reads (parsePrimary tokens) expr rest := by
  rw [parseUnary]
  exact h

theorem reads_primary_call {expr : Expr} {name : String} {line opening : Nat} :
    Reads (parsePrimary (⟨line, .identifier name⟩ :: ⟨opening, .openParen⟩ :: tokens)) expr rest ↔
      ∃ arguments, Reads (parseArguments tokens) arguments rest ∧
        .call name arguments line = expr := by
  rw [parsePrimary, reads_map]

theorem reads_primary_name {expr : Expr} {name : String} {line : Nat}
    (h : ∀ opening after, tokens ≠ ⟨opening, .openParen⟩ :: after) :
    Reads (parsePrimary (⟨line, .identifier name⟩ :: tokens)) expr rest ↔
      .variable name line = expr ∧ tokens = rest := by
  rw [parsePrimary, reads_ok]
  exact h

theorem reads_primary_group {expr : Expr} {opening : Nat} :
    Reads (parsePrimary (⟨opening, .openParen⟩ :: tokens)) expr rest ↔
      ∃ closing, Reads (parseAdditive tokens) expr (⟨closing, .closeParen⟩ :: rest) := by
  rw [parsePrimary, reads_bind]
  constructor
  · rintro ⟨inner, hinner, h⟩
    split at h
    next closing after found =>
      obtain ⟨hvalue, rfl⟩ := reads_ok.mp h
      exact ⟨closing, inner, hinner, hvalue, found⟩
    next => exact absurd h not_reads_error
  · rintro ⟨closing, inner, hinner, hvalue, hrest⟩
    refine ⟨inner, hinner, ?_⟩
    split
    next after found =>
      cases hrest.symm.trans found
      exact reads_ok.mpr ⟨hvalue, rfl⟩
    next other => exact absurd hrest (other closing rest)

theorem reads_arguments_none {arguments : List Expr} {line : Nat} :
    Reads (parseArguments (⟨line, .closeParen⟩ :: tokens)) arguments rest ↔
      [] = arguments ∧ tokens = rest := by
  rw [parseArguments, reads_ok]

theorem reads_arguments_some {arguments : List Expr}
    (h : ∀ line after, tokens ≠ ⟨line, .closeParen⟩ :: after) :
    Reads (parseArguments tokens) arguments rest ↔
      Reads (parseArgumentList tokens) arguments rest := by
  rw [parseArguments]
  exact h

theorem reads_argumentList {arguments : List Expr} :
    Reads (parseArgumentList tokens) arguments rest ↔
      (∃ first line, Reads (parseAdditive tokens) first (⟨line, .closeParen⟩ :: rest) ∧
        [first] = arguments) ∨
      ∃ first line after, Reads (parseAdditive tokens) first (⟨line, .comma⟩ :: after) ∧
        ∃ others, Reads (parseArgumentList after) others rest ∧ first :: others = arguments := by
  rw [parseArgumentList, reads_bind]
  constructor
  · rintro ⟨first, hfirst, h⟩
    split at h
    next line after found =>
      rw [reads_map] at h
      exact .inr ⟨first.value, line, after, ⟨first, hfirst, rfl, found⟩, h⟩
    next line after found =>
      obtain ⟨hvalue, rfl⟩ := reads_ok.mp h
      exact .inl ⟨first.value, line, ⟨first, hfirst, rfl, found⟩, hvalue⟩
    all_goals exact absurd h not_reads_error
  · rintro (⟨_, line, ⟨first, hfirst, rfl, hrest⟩, hvalue⟩ |
      ⟨_, line, after, ⟨first, hfirst, rfl, hrest⟩, h⟩) <;> refine ⟨first, hfirst, ?_⟩
    -- The token after the first argument is known, which leaves one case of the match.
    · split
      next found => cases hrest.symm.trans found
      next after found =>
        cases hrest.symm.trans found
        exact reads_ok.mpr ⟨hvalue, rfl⟩
      next found => cases hrest.symm.trans found
      next _ other _ found =>
        cases hrest.symm.trans found
        exact absurd rfl other
      next found => cases hrest.symm.trans found
    · split
      next found =>
        cases hrest.symm.trans found
        exact reads_map.mpr h
      next found => cases hrest.symm.trans found
      next found => cases hrest.symm.trans found
      next other _ _ found =>
        cases hrest.symm.trans found
        exact absurd rfl other
      next found => cases hrest.symm.trans found

end QubitScript.Expr
