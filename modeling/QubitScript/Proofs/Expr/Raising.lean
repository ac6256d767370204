import QubitScript.Proofs.Expr.Cuts
import QubitScript.Proofs.Expr.Values

/-!
# Texts one line further down

A text that stands one line further down is cut, parsed and evaluated as before, with all line
numbers one higher. Line zero stands for no line and stays what it is.
-/

namespace QubitScript

/-- The number of the line after a line. -/
def raise (line : Nat) : Nat := if line = 0 then 0 else line + 1

theorem raise_of_pos {line : Nat} (h : 0 < line) : raise line = line + 1 := if_neg (by omega)

/-- The same on the next line. -/
def Located.raise {α : Type} (located : Located α) : Located α :=
  ⟨QubitScript.raise located.line, located.item⟩

/-- What has been found on a line, as it is found on the next one. -/
def raiseFound {ε α : Type} (raised : α → α) (found : Except (Located ε) α) :
    Except (Located ε) α :=
  (found.map raised).mapError Located.raise

theorem raiseFound_bind {ε α β : Type} {raised : α → α} {raised' : β → β}
    (x : Except (Located ε) α) {f f' : α → Except (Located ε) β}
    (hf : ∀ a, f' (raised a) = raiseFound raised' (f a)) :
    raiseFound raised x >>= f' = raiseFound raised' (x >>= f) := by
  cases x with
  | error fault => rfl
  | ok a => exact hf a

namespace Expr

mutual

/-- The same tree on the next line. -/
def raise : Expr → Expr
  | .literal value line => .literal value (QubitScript.raise line)
  | .variable name line => .variable name (QubitScript.raise line)
  | .negate operand line => .negate (raise operand) (QubitScript.raise line)
  | .binary op left right line => .binary op (raise left) (raise right) (QubitScript.raise line)
  | .call name arguments line => .call name (raiseAll arguments) (QubitScript.raise line)

def raiseAll : List Expr → List Expr
  | [] => []
  | expr :: exprs => raise expr :: raiseAll exprs

end

/-! ## Tokens -/

theorem tokenize_raise (text : List Char) : ∀ {line : Nat}, 0 < line →
    tokenize text (QubitScript.raise line) =
      raiseFound (List.map Located.raise) (tokenize text line) := by
  induction text using cut_induction with
  | nil =>
      intro line _
      rw [tokenize_nil, tokenize_nil]
      rfl
  | piece c rest ih =>
      intro line hline
      rcases hcut : cut c rest with ⟨piece, after⟩
      rw [hcut] at ih
      cases piece with
      | fault found =>
          rw [tokenize_fault hcut, tokenize_fault hcut]
          rfl
      | gap =>
          rw [tokenize_gap hcut, tokenize_gap hcut]
          exact ih hline
      | token token =>
          rw [tokenize_token_eq hcut, tokenize_token_eq hcut]
          -- Both counts go up at the same line breaks, and neither of them is at zero.
          have hnext : (if c == '\n' then QubitScript.raise line + 1 else QubitScript.raise line) =
              QubitScript.raise (if c == '\n' then line + 1 else line) := by
            split
            · rw [raise_of_pos hline, raise_of_pos (Nat.succ_pos line)]
            · rfl
          have hpos : 0 < (if c == '\n' then line + 1 else line) := by split <;> omega
          rw [hnext, ih hpos]
          cases tokenize after (if c == '\n' then line + 1 else line) <;> rfl

/-! ## Parsers -/

/-- Tokens that begin with an item begin with it on any line. -/
theorem eq_cons_of_map_raise {tokens rest : List (Located Token)} {line : Nat} {token : Token}
    (h : tokens.map Located.raise = ⟨line, token⟩ :: rest) :
    ∃ line others, tokens = ⟨line, token⟩ :: others ∧ others.map Located.raise = rest := by
  obtain ⟨⟨first, item⟩, others, rfl, hfirst, hothers⟩ := List.map_eq_cons_iff.mp h
  cases congrArg Located.item hfirst
  exact ⟨first, others, rfl, hothers⟩

/-- What a parser gives, and what it gives one line further down. -/
inductive Raises {α : Type} (raised : α → α) {bound bound' : Nat} :
    Except ParseError (Parsed α bound) → Except ParseError (Parsed α bound') → Prop
  | ok (parsed : Parsed α bound) (shorter : (parsed.rest.map Located.raise).length < bound') :
      Raises raised (.ok parsed) (.ok ⟨raised parsed.value, parsed.rest.map Located.raise, shorter⟩)
  | error (fault : ParseError) : Raises raised (.error fault) (.error fault.raise)

namespace Raises

variable {α β : Type} {raised : α → α} {raised' : β → β} {bound bound' large large' : Nat}

theorem bind {x : Except ParseError (Parsed α bound)} {x' : Except ParseError (Parsed α bound')}
    {f : Parsed α bound → Except ParseError (Parsed β large)}
    {f' : Parsed α bound' → Except ParseError (Parsed β large')} (hx : Raises raised x x')
    (hf : ∀ parsed shorter,
      Raises raised' (f parsed) (f' ⟨raised parsed.value, parsed.rest.map Located.raise,
        shorter⟩)) :
    Raises raised' (x >>= f) (x' >>= f') := by
  cases hx with
  | ok parsed shorter => exact hf parsed shorter
  | error fault => exact .error fault

theorem widen {x : Except ParseError (Parsed α bound)} {x' : Except ParseError (Parsed α bound')}
    (hx : Raises raised x x') {h : bound ≤ large} {h' : bound' ≤ large'} :
    Raises raised (do let all ← x; return all.widen h) (do let all ← x'; return all.widen h') :=
  hx.bind fun parsed shorter => .ok (parsed.widen h) (Nat.lt_of_lt_of_le shorter h')

theorem map {x : Except ParseError (Parsed α bound)} {x' : Except ParseError (Parsed α bound')}
    (hx : Raises raised x x') (f f' : α → β) (hf : ∀ a, f' (raised a) = raised' (f a))
    {h : bound ≤ large} {h' : bound' ≤ large'} :
    Raises raised' (do let all ← x; return (all.map f).widen h)
      (do let all ← x'; return (all.map f').widen h') := by
  refine hx.bind fun parsed shorter => ?_
  change Raises raised' _ (.ok ⟨f' (raised parsed.value), _, Nat.lt_of_lt_of_le shorter h'⟩)
  rw [hf]
  exact .ok ((parsed.map f).widen h) _

end Raises

mutual

theorem raises_additive (tokens : List (Located Token)) :
    Raises raise (parseAdditive tokens) (parseAdditive (tokens.map Located.raise)) := by
  rw [parseAdditive, parseAdditive]
  refine (raises_multiplicative tokens).bind fun left _ => ?_
  have := left.shorter
  exact (raises_additiveTail left.value left.rest).widen
termination_by 9 * tokens.length + 5

theorem raises_additiveTail (left : Expr) (tokens : List (Located Token)) :
    Raises raise (parseAdditiveTail left tokens)
      (parseAdditiveTail left.raise (tokens.map Located.raise)) := by
  match tokens with
  | [] =>
      rw [parseAdditiveTail]
      change Raises raise _ (parseAdditiveTail left.raise [])
      rw [parseAdditiveTail]
      exact .ok ⟨left, [], _⟩ _
  | ⟨line, token⟩ :: rest =>
      rw [parseAdditiveTail]
      change Raises raise _
        (parseAdditiveTail left.raise (⟨_, token⟩ :: rest.map Located.raise))
      rw [parseAdditiveTail]
      cases hop : additiveOp? token with
      | none => exact .ok ⟨left, ⟨line, token⟩ :: rest, _⟩ _
      | some op =>
          refine (raises_multiplicative rest).bind fun right _ => ?_
          have := right.shorter
          exact (raises_additiveTail (.binary op left right.value line) right.rest).widen
termination_by 9 * tokens.length + 6

theorem raises_multiplicative (tokens : List (Located Token)) :
    Raises raise (parseMultiplicative tokens) (parseMultiplicative (tokens.map Located.raise)) := by
  rw [parseMultiplicative, parseMultiplicative]
  refine (raises_unary tokens).bind fun left _ => ?_
  have := left.shorter
  exact (raises_multiplicativeTail left.value left.rest).widen
termination_by 9 * tokens.length + 3

theorem raises_multiplicativeTail (left : Expr) (tokens : List (Located Token)) :
    Raises raise (parseMultiplicativeTail left tokens)
      (parseMultiplicativeTail left.raise (tokens.map Located.raise)) := by
  match tokens with
  | [] =>
      rw [parseMultiplicativeTail]
      change Raises raise _ (parseMultiplicativeTail left.raise [])
      rw [parseMultiplicativeTail]
      exact .ok ⟨left, [], _⟩ _
  | ⟨line, token⟩ :: rest =>
      rw [parseMultiplicativeTail]
      change Raises raise _
        (parseMultiplicativeTail left.raise (⟨_, token⟩ :: rest.map Located.raise))
      rw [parseMultiplicativeTail]
      cases hop : multiplicativeOp? token with
      | none => exact .ok ⟨left, ⟨line, token⟩ :: rest, _⟩ _
      | some op =>
          refine (raises_unary rest).bind fun right _ => ?_
          have := right.shorter
          exact (raises_multiplicativeTail (.binary op left right.value line) right.rest).widen
termination_by 9 * tokens.length + 4

theorem raises_unary (tokens : List (Located Token)) :
    Raises raise (parseUnary tokens) (parseUnary (tokens.map Located.raise)) := by
  rw [parseUnary.eq_def tokens]
  split
  next line rest =>
    change Raises raise _ (parseUnary (⟨_, .minus⟩ :: rest.map Located.raise))
    rw [parseUnary]
    exact (raises_unary rest).map (Expr.negate · line) (Expr.negate · _) fun _ => rfl
  next other =>
    rw [parseUnary]
    · exact raises_primary tokens
    · intro line rest heq
      obtain ⟨line, rest, rfl, -⟩ := eq_cons_of_map_raise heq
      exact other line rest rfl
termination_by 9 * tokens.length + 2

theorem raises_primary (tokens : List (Located Token)) :
    Raises raise (parsePrimary tokens) (parsePrimary (tokens.map Located.raise)) := by
  rw [parsePrimary.eq_def tokens]
  split
  next =>
    rw [List.map_nil, parsePrimary]
    exact .error unexpectedEnd
  next line value rest =>
    change Raises raise _ (parsePrimary (⟨_, .integer value⟩ :: rest.map Located.raise))
    rw [parsePrimary]
    exact .ok ⟨Expr.literal (.integer value) line, rest, _⟩ _
  next line value rest =>
    change Raises raise _ (parsePrimary (⟨_, .real value⟩ :: rest.map Located.raise))
    rw [parsePrimary]
    exact .ok ⟨Expr.literal (.real value) line, rest, _⟩ _
  next line value rest =>
    change Raises raise _ (parsePrimary (⟨_, .text value⟩ :: rest.map Located.raise))
    rw [parsePrimary]
    exact .ok ⟨Expr.literal (.text value) line, rest, _⟩ _
  next line name opening rest =>
    change Raises raise _ (parsePrimary (⟨_, .identifier name⟩ ::
      ⟨_, .openParen⟩ :: rest.map Located.raise))
    rw [parsePrimary]
    exact (raises_arguments rest).map (Expr.call name · line) (Expr.call name · _) fun _ => rfl
  next line name rest other =>
    change Raises raise _ (parsePrimary (⟨_, .identifier name⟩ :: rest.map Located.raise))
    rw [parsePrimary]
    · exact .ok ⟨Expr.variable name line, rest, _⟩ _
    · intro line rest heq
      obtain ⟨line, rest, rfl, -⟩ := eq_cons_of_map_raise heq
      exact other line rest rfl
  next line rest =>
    change Raises raise _ (parsePrimary (⟨_, .openParen⟩ :: rest.map Located.raise))
    rw [parsePrimary]
    refine (raises_additive rest).bind fun ⟨value, inner, _⟩ shorter => ?_
    dsimp only at shorter ⊢
    split
    next closing _ => exact .ok ⟨value, closing, _⟩ _
    -- Raising lines makes no closing parenthesis of another token.
    next other =>
      split
      next found =>
        obtain ⟨closing, after, rfl, -⟩ := eq_cons_of_map_raise found
        exact absurd rfl (other closing after)
      next => exact .error ⟨line, .expectedClosingParen⟩
  next line rest =>
    change Raises raise _ (parsePrimary (⟨_, .lineEnd⟩ :: rest.map Located.raise))
    rw [parsePrimary]
    exact .error _
  next line token rest h1 h2 h3 h4 h5 h6 h7 =>
    change Raises raise _ (parsePrimary (⟨_, token⟩ :: rest.map Located.raise))
    rw [parsePrimary]
    · exact .error _
    exacts [h1, h2, h3, fun name _ _ _ => h5 name, h5, h6, h7]
termination_by 9 * tokens.length + 1

theorem raises_arguments (tokens : List (Located Token)) :
    Raises raiseAll (parseArguments tokens) (parseArguments (tokens.map Located.raise)) := by
  rw [parseArguments.eq_def tokens]
  split
  next line rest =>
    change Raises raiseAll _
      (parseArguments (⟨_, .closeParen⟩ :: rest.map Located.raise))
    rw [parseArguments]
    exact .ok ⟨[], rest, _⟩ _
  next other =>
    rw [parseArguments]
    · exact raises_argumentList tokens
    · intro line rest heq
      obtain ⟨line, rest, rfl, -⟩ := eq_cons_of_map_raise heq
      exact other line rest rfl
termination_by 9 * tokens.length + 8

theorem raises_argumentList (tokens : List (Located Token)) :
    Raises raiseAll (parseArgumentList tokens) (parseArgumentList (tokens.map Located.raise)) := by
  rw [parseArgumentList, parseArgumentList]
  refine (raises_additive tokens).bind fun ⟨value, rest, hrest⟩ shorter => ?_
  dsimp only at shorter ⊢
  split
  next comma after =>
    have : after.length < tokens.length := by
      rw [List.length_cons] at hrest
      omega
    exact (raises_argumentList after).map (value :: ·) (value.raise :: ·) fun _ => rfl
  next closing after => exact .ok ⟨[value], after, _⟩ _
  next line after => exact .error ⟨line, .unexpectedEnd⟩
  next line token after notComma notClosing notEnd =>
    split
    next found =>
      cases found
      exact (notComma rfl).elim
    next found =>
      cases found
      exact (notClosing rfl).elim
    next found =>
      cases found
      exact (notEnd rfl).elim
    next found =>
      cases found
      exact .error ⟨line, .expectedCommaOrParen token⟩
    next found => cases found
  next => exact .error unexpectedEnd
termination_by 9 * tokens.length + 7

end

/-! ## Texts -/

theorem expectEnd_raise (tokens : List (Located Token)) :
    expectEnd (tokens.map Located.raise) = (expectEnd tokens).mapError Located.raise := by
  induction tokens with
  | nil => rfl
  | cons token tokens ih =>
      obtain ⟨line, item⟩ := token
      cases item with
      | lineEnd => exact ih
      | _ => rfl

theorem parseWhole_raise (tokens : List (Located Token)) :
    parseWhole (tokens.map Located.raise) = raiseFound raise (parseWhole tokens) := by
  have hparsed := raises_additive tokens
  rw [parseWhole, parseWhole]
  generalize parseAdditive tokens = x at hparsed
  generalize parseAdditive (tokens.map Located.raise) = x' at hparsed
  cases hparsed with
  | ok parsed shorter =>
      change (expectEnd (parsed.rest.map Located.raise) >>= fun _ => pure parsed.value.raise) =
        raiseFound raise (expectEnd parsed.rest >>= fun _ => pure parsed.value)
      rw [expectEnd_raise]
      cases expectEnd parsed.rest <;> rfl
  | error fault => rfl

end Expr

/-- The same assignment on the next line. -/
def Assignment.raise (assignment : Assignment) : Assignment :=
  ⟨assignment.name, assignment.value.raise, QubitScript.raise assignment.line⟩

namespace Expr

theorem parseAssignment_raise (tokens : List (Located Token)) :
    parseAssignment (tokens.map Located.raise) =
      raiseFound Assignment.raise (parseAssignment tokens) := by
  rw [parseAssignment.eq_def tokens]
  split
  next line name sign rest =>
    change (parseWhole (rest.map Located.raise) >>= fun value =>
      pure (Assignment.mk name value (QubitScript.raise line))) = _
    rw [parseWhole_raise]
    exact raiseFound_bind _ fun value => rfl
  next other =>
    rw [parseAssignment]
    · rw [List.any_map]
      cases tokens with
      | nil => rfl
      | cons token tokens =>
          dsimp only [List.map_cons, List.head?_cons, Option.elim_some]
          change (if ((token :: tokens).any fun token => isEquals token.item) then _ else _) = _
          split <;> rfl
    · intro line name sign rest heq
      obtain ⟨line, others, rfl, hothers⟩ := eq_cons_of_map_raise heq
      obtain ⟨sign, rest, rfl, -⟩ := eq_cons_of_map_raise hothers
      exact other line name sign rest rfl

theorem tokensOf_raise (source : String) {line : Nat} (hline : 0 < line) :
    tokensOf source (QubitScript.raise line) =
      raiseFound (List.map Located.raise) (tokensOf source line) := by
  rw [tokensOf, tokensOf, tokenize_raise source.toList hline]
  cases tokenize source.toList line <;> rfl

theorem read_raise (source : String) {line : Nat} (hline : 0 < line) :
    read source (QubitScript.raise line) = raiseFound raise (read source line) := by
  rw [read, read, tokensOf_raise source hline]
  exact raiseFound_bind _ parseWhole_raise

end Expr

theorem Assignment.read_raise (source : String) {line : Nat} (hline : 0 < line) :
    read source (QubitScript.raise line) = raiseFound raise (read source line) := by
  rw [read, read, Expr.tokensOf_raise source hline]
  exact raiseFound_bind _ Expr.parseAssignment_raise

/-! ## Evaluations -/

namespace Expr

variable {bindings : Bindings}

theorem onLine_raise {ε α : Type} (line : Nat) (action : Printing ε α) :
    action.onLine (QubitScript.raise line) = (action.onLine line).adapt Located.raise := by
  rw [Printing.onLine, Printing.onLine, adapt_adapt]
  rfl

mutual

theorem eval_raise : ∀ expr : Expr,
    eval bindings expr.raise = (eval bindings expr).adapt Located.raise
  | .literal value line => by
      rw [raise, eval, eval]
      rfl
  | .variable name line => by
      rw [raise, eval, eval, onLine_raise]
  | .negate operand line => by
      rw [raise, eval, eval]
      exact bind_eq_adapt (eval_raise operand) fun _ => onLine_raise line _
  | .binary op left right line => by
      rw [raise, eval, eval]
      exact bind_eq_adapt (eval_raise left) fun _ =>
        bind_eq_adapt (eval_raise right) fun _ => onLine_raise line _
  | .call name arguments line => by
      rw [raise, eval, eval]
      exact bind_eq_adapt (evalAll_raise arguments) fun _ => onLine_raise line _

theorem evalAll_raise : ∀ exprs : List Expr,
    evalAll bindings (raiseAll exprs) = (evalAll bindings exprs).adapt Located.raise
  | [] => by
      rw [raiseAll, evalAll]
      rfl
  | expr :: exprs => by
      rw [raiseAll, evalAll, evalAll]
      exact bind_eq_adapt (eval_raise expr) fun _ => bind_eq_adapt (evalAll_raise exprs) fun _ =>
        rfl

end

end Expr

end QubitScript
