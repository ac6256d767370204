import QubitScript.Proofs.Expr.Cuts
import QubitScript.Proofs.Expr.Parsing
import QubitScript.Proofs.Expr.Values

/-!
# Faults name the line of their text

No parser of expressions gets past the end of a line. So whatever is wrong with a list of tokens is
found at one of them up to the first end of a line, or at one that is left over. In a text of one
line all tokens stand on that line, the last one being its end.
-/

namespace QubitScript.Expr

open Grammar

/-! ## Faults of parsers -/

/-- The tokens go on to `rest` with no end of a line before it. -/
def LeadsTo (tokens rest : List (Located Token)) : Prop :=
  ∃ taken, tokens = taken ++ rest ∧ ∀ token ∈ taken, token.item ≠ .lineEnd

/-- The fault is laid to one of the tokens up to the first end of a line. If the fault is that there
is nothing more, it is laid to that end. Of tokens that run out before, nothing is said. -/
inductive LaidTo (fault : ParseError) : List (Located Token) → Prop
  | nil : LaidTo fault []
  | here {token : Located Token} {rest : List (Located Token)} :
      fault.line = token.line → (fault.item = .unexpectedEnd → token.item = .lineEnd) →
      LaidTo fault (token :: rest)
  | later {token : Located Token} {rest : List (Located Token)} :
      token.item ≠ .lineEnd → LaidTo fault rest → LaidTo fault (token :: rest)

/-- The fault is that tokens are left over, and it is laid to one of them. -/
def LeftOver (fault : ParseError) (tokens : List (Located Token)) : Prop :=
  ∃ token ∈ tokens, fault = ⟨token.line, .trailingToken token.item⟩

/-- Whatever is wrong with tokens is found at one of them. -/
def FaultsAtTokens {α : Type} (parse : List (Located Token) → Except ParseError α) : Prop :=
  ∀ {tokens : List (Located Token)} {fault : ParseError},
    parse tokens = .error fault → LaidTo fault tokens ∨ LeftOver fault tokens

section Parsers

variable {tokens taken rest : List (Located Token)} {fault : ParseError}

theorem LaidTo.after (h : LaidTo fault rest) (hleads : LeadsTo tokens rest) :
    LaidTo fault tokens := by
  obtain ⟨taken, rfl, htaken⟩ := hleads
  induction taken with
  | nil => exact h
  | cons token taken ih =>
      obtain ⟨htoken, htaken⟩ := List.forall_mem_cons.mp htaken
      exact .later htoken (ih htaken)

theorem LaidTo.exists_line (h : LaidTo fault tokens)
    (hend : ∃ token ∈ tokens, token.item = .lineEnd) :
    ∃ token ∈ tokens, fault.line = token.line := by
  induction h with
  | nil =>
      obtain ⟨_, hmem, -⟩ := hend
      cases hmem
  | @here token rest hline _ => exact ⟨token, .head rest, hline⟩
  | @later token rest htoken _ ih =>
      obtain ⟨last, hlast, hitem⟩ := hend
      rcases List.mem_cons.mp hlast with rfl | hlast
      · exact absurd hitem htoken
      · obtain ⟨found, hfound, hline⟩ := ih ⟨last, hlast, hitem⟩
        exact ⟨found, .tail token hfound, hline⟩

theorem LaidTo.line_eq {before after : List (Located Token)} {last : Located Token}
    (h : LaidTo fault (before ++ last :: after))
    (hbefore : ∀ token ∈ before, token.item ≠ .lineEnd) (hlast : last.item = .lineEnd)
    (hfault : fault.item = .unexpectedEnd) : fault.line = last.line := by
  induction before with
  | nil =>
      cases h with
      | here hline _ => exact hline
      | later hother _ => exact absurd hlast hother
  | cons token before ih =>
      obtain ⟨htoken, hbefore⟩ := List.forall_mem_cons.mp hbefore
      cases h with
      | here _ hend => exact absurd (hend hfault) htoken
      | later _ hrest => exact ih hrest hbefore

theorem LeadsTo.mem (h : LeadsTo tokens rest) {token : Located Token} (htoken : token ∈ rest) :
    token ∈ tokens := by
  obtain ⟨taken, rfl, -⟩ := h
  exact List.mem_append_right taken htoken

/-- An expression does not hold the end of a line. -/
theorem leadsTo_of_shape (htokens : tokens = taken ++ rest) (shape : Shape taken) :
    LeadsTo tokens rest := by
  refine ⟨taken, htokens, fun token htoken hend => ?_⟩
  have := shape.within token htoken
  rw [hend] at this
  cases this

theorem leadsTo_of_additive {parsed : Parsed Expr tokens.length}
    (h : parseAdditive tokens = .ok parsed) : LeadsTo tokens parsed.rest := by
  obtain ⟨taken, htokens, derives⟩ := additive_of_reads ⟨parsed, h, rfl, rfl⟩
  exact leadsTo_of_shape htokens derives.shape

theorem leadsTo_of_multiplicative {parsed : Parsed Expr tokens.length}
    (h : parseMultiplicative tokens = .ok parsed) : LeadsTo tokens parsed.rest := by
  obtain ⟨taken, htokens, derives⟩ := multiplicative_of_reads ⟨parsed, h, rfl, rfl⟩
  exact leadsTo_of_shape htokens derives.shape

theorem leadsTo_of_unary {parsed : Parsed Expr tokens.length}
    (h : parseUnary tokens = .ok parsed) : LeadsTo tokens parsed.rest := by
  obtain ⟨taken, htokens, derives⟩ := unary_of_reads ⟨parsed, h, rfl, rfl⟩
  exact leadsTo_of_shape htokens derives.shape

theorem ne_lineEnd_of_additiveOp {token : Token} {op : BinaryOp} (h : additiveOp? token = some op) :
    token ≠ .lineEnd := by
  rintro rfl
  cases h

theorem ne_lineEnd_of_multiplicativeOp {token : Token} {op : BinaryOp}
    (h : multiplicativeOp? token = some op) : token ≠ .lineEnd := by
  rintro rfl
  cases h

mutual

theorem laidTo_of_additive {tokens : List (Located Token)} {fault : ParseError}
    (hfault : parseAdditive tokens = .error fault) : LaidTo fault tokens := by
  rw [parseAdditive] at hfault
  rcases bind_eq_error.mp hfault with hfault | ⟨left, hleft, hfault⟩
  · exact laidTo_of_multiplicative hfault
  · have := left.shorter
    exact (laidTo_of_additiveTail (error_of_bind_pure hfault)).after
      (leadsTo_of_multiplicative hleft)
termination_by 9 * tokens.length + 5

theorem laidTo_of_additiveTail {tokens : List (Located Token)} {left : Expr} {fault : ParseError}
    (hfault : parseAdditiveTail left tokens = .error fault) : LaidTo fault tokens := by
  match tokens, hfault with
  | [], _ => exact .nil
  | token :: rest, hfault =>
      rw [parseAdditiveTail] at hfault
      split at hfault
      · cases hfault
      next op hop =>
        refine .later (ne_lineEnd_of_additiveOp hop) ?_
        rcases bind_eq_error.mp hfault with hfault | ⟨right, hright, hfault⟩
        · exact laidTo_of_multiplicative hfault
        · have := right.shorter
          exact (laidTo_of_additiveTail (error_of_bind_pure hfault)).after
            (leadsTo_of_multiplicative hright)
termination_by 9 * tokens.length + 6

theorem laidTo_of_multiplicative {tokens : List (Located Token)} {fault : ParseError}
    (hfault : parseMultiplicative tokens = .error fault) : LaidTo fault tokens := by
  rw [parseMultiplicative] at hfault
  rcases bind_eq_error.mp hfault with hfault | ⟨left, hleft, hfault⟩
  · exact laidTo_of_unary hfault
  · have := left.shorter
    exact (laidTo_of_multiplicativeTail (error_of_bind_pure hfault)).after (leadsTo_of_unary hleft)
termination_by 9 * tokens.length + 3

theorem laidTo_of_multiplicativeTail {tokens : List (Located Token)} {left : Expr}
    {fault : ParseError} (hfault : parseMultiplicativeTail left tokens = .error fault) :
    LaidTo fault tokens := by
  match tokens, hfault with
  | [], _ => exact .nil
  | token :: rest, hfault =>
      rw [parseMultiplicativeTail] at hfault
      split at hfault
      · cases hfault
      next op hop =>
        refine .later (ne_lineEnd_of_multiplicativeOp hop) ?_
        rcases bind_eq_error.mp hfault with hfault | ⟨right, hright, hfault⟩
        · exact laidTo_of_unary hfault
        · have := right.shorter
          exact (laidTo_of_multiplicativeTail (error_of_bind_pure hfault)).after
            (leadsTo_of_unary hright)
termination_by 9 * tokens.length + 4

theorem laidTo_of_unary {tokens : List (Located Token)} {fault : ParseError}
    (hfault : parseUnary tokens = .error fault) : LaidTo fault tokens := by
  rw [parseUnary.eq_def] at hfault
  split at hfault
  next => exact .later (by simp) (laidTo_of_unary (error_of_bind_pure hfault))
  next => exact laidTo_of_primary hfault
termination_by 9 * tokens.length + 2

theorem laidTo_of_primary {tokens : List (Located Token)} {fault : ParseError}
    (hfault : parsePrimary tokens = .error fault) : LaidTo fault tokens := by
  rw [parsePrimary.eq_def] at hfault
  split at hfault
  next => exact .nil
  next => cases hfault
  next => cases hfault
  next => cases hfault
  next =>
    exact .later (by simp) (.later (by simp) (laidTo_of_arguments (error_of_bind_pure hfault)))
  next => cases hfault
  next =>
    rcases bind_eq_error.mp hfault with hfault | ⟨inner, -, hfault⟩
    · exact .later (by simp) (laidTo_of_additive hfault)
    · split at hfault
      · cases hfault
      · cases hfault
        exact .here rfl (by simp)
  next =>
    cases hfault
    exact .here rfl fun _ => rfl
  next =>
    cases hfault
    exact .here rfl (by simp)
termination_by 9 * tokens.length + 1

theorem laidTo_of_arguments {tokens : List (Located Token)} {fault : ParseError}
    (hfault : parseArguments tokens = .error fault) : LaidTo fault tokens := by
  rw [parseArguments.eq_def] at hfault
  split at hfault
  next => cases hfault
  next => exact laidTo_of_argumentList hfault
termination_by 9 * tokens.length + 8

theorem laidTo_of_argumentList {tokens : List (Located Token)} {fault : ParseError}
    (hfault : parseArgumentList tokens = .error fault) : LaidTo fault tokens := by
  rw [parseArgumentList] at hfault
  rcases bind_eq_error.mp hfault with hfault | ⟨first, hfirst, hfault⟩
  · exact laidTo_of_additive hfault
  · refine .after ?_ (leadsTo_of_additive hfirst)
    split at hfault
    next comma after found =>
      have hshorter := first.shorter
      have : after.length < tokens.length := by
        rw [found, List.length_cons] at hshorter
        omega
      rw [found]
      exact .later (by simp) (laidTo_of_argumentList (error_of_bind_pure hfault))
    next => cases hfault
    next found =>
      cases hfault
      rw [found]
      exact .here rfl fun _ => rfl
    next found =>
      cases hfault
      rw [found]
      exact .here rfl (by simp)
    next found =>
      rw [found]
      exact .nil
termination_by 9 * tokens.length + 7

end

theorem leftOver_of_expectEnd (hfault : expectEnd tokens = .error fault) :
    LeftOver fault tokens := by
  induction tokens with
  | nil => cases hfault
  | cons token tokens ih =>
      rw [expectEnd.eq_def] at hfault
      split at hfault
      next heq => cases heq
      next heq =>
        cases heq
        obtain ⟨found, hfound, h⟩ := ih hfault
        exact ⟨found, .tail _ hfound, h⟩
      next heq =>
        cases heq
        cases hfault
        exact ⟨_, .head tokens, rfl⟩

theorem faultsAtTokens_parseWhole : FaultsAtTokens parseWhole := by
  intro tokens fault hfault
  rw [parseWhole] at hfault
  rcases bind_eq_error.mp hfault with hfault | ⟨parsed, hparsed, hfault⟩
  · exact .inl (laidTo_of_additive hfault)
  · obtain ⟨token, htoken, h⟩ := leftOver_of_expectEnd (error_of_bind_pure hfault)
    exact .inr ⟨token, (leadsTo_of_additive hparsed).mem htoken, h⟩

theorem faultsAtTokens_parseAssignment : FaultsAtTokens parseAssignment := by
  intro tokens fault hfault
  rw [parseAssignment.eq_def] at hfault
  split at hfault
  next =>
    rcases faultsAtTokens_parseWhole (error_of_bind_pure hfault) with h | ⟨token, htoken, h⟩
    · exact .inl (.later (by simp) (.later (by simp) h))
    · exact .inr ⟨token, .tail _ (.tail _ htoken), h⟩
  next =>
    cases tokens with
    | nil => exact .inl .nil
    | cons token tokens =>
        dsimp only at hfault
        split at hfault <;> cases hfault <;> exact .inl (.here rfl (by simp))

end Parsers

/-! ## Tokens of one line -/

/-- Tokens that stand on one line, the last of them being its end. -/
structure Ended (line : Nat) (tokens : List (Located Token)) : Prop where
  line : ∀ token ∈ tokens, token.line = line
  last : ∃ token, tokens.getLast? = some token ∧ token.item = .lineEnd

theorem Ended.onLine (line : Nat) (tokens : List Token) : Ended line (onLine line tokens) := by
  refine ⟨fun token htoken => ?_, ⟨line, .lineEnd⟩, List.getLast?_concat, rfl⟩
  rcases List.mem_append.mp htoken with h | h
  · obtain ⟨item, -, rfl⟩ := List.mem_map.mp h
    rfl
  · cases List.mem_singleton.mp h
    rfl

/-- Whatever is wrong with the tokens of a line, it is laid to one of them. -/
theorem Ended.line_eq {line : Nat} {tokens : List (Located Token)} {fault : ParseError}
    (h : Ended line tokens) (hfault : LaidTo fault tokens ∨ LeftOver fault tokens) :
    fault.line = line := by
  obtain ⟨last, hlast, hend⟩ := h.last
  rcases hfault with hlaid | ⟨token, htoken, rfl⟩
  · obtain ⟨token, htoken, hline⟩ := hlaid.exists_line ⟨last, List.mem_of_getLast? hlast, hend⟩
    exact hline.trans (h.line token htoken)
  · exact h.line token htoken

/-! ## Lines of trees -/

/-- All nodes of the tree carry the line. -/
inductive OnLine (line : Nat) : Expr → Prop
  | literal {value : Literal} : OnLine line (.literal value line)
  | name {name : String} : OnLine line (.variable name line)
  | negate {operand : Expr} : OnLine line operand → OnLine line (.negate operand line)
  | binary {op : BinaryOp} {left right : Expr} :
      OnLine line left → OnLine line right → OnLine line (.binary op left right line)
  | call {name : String} {arguments : List Expr} :
      (∀ argument ∈ arguments, OnLine line argument) → OnLine line (.call name arguments line)

section Trees

variable {line : Nat}

/-- Tokens on both sides of a sign stand on a line, and so does the sign. -/
theorem lines_of_sign {first second : List (Located Token)} {sign : Located Token}
    (h : ∀ token ∈ first ++ sign :: second, token.line = line) :
    (∀ token ∈ first, token.line = line) ∧ sign.line = line ∧
      ∀ token ∈ second, token.line = line := by
  obtain ⟨hfirst, hothers⟩ := List.forall_mem_append.mp h
  exact ⟨hfirst, List.forall_mem_cons.mp hothers⟩

mutual

theorem onLine_of_additive {tokens : List (Located Token)} {expr : Expr} :
    Additive tokens expr → (∀ token ∈ tokens, token.line = line) → expr.OnLine line
  | .one term, h => onLine_of_multiplicative term h
  | .more first _ second, h => by
      obtain ⟨hfirst, hsign, hsecond⟩ := lines_of_sign h
      have hleft := onLine_of_additive first hfirst
      have hright := onLine_of_multiplicative second hsecond
      cases hsign
      exact .binary hleft hright

theorem onLine_of_multiplicative {tokens : List (Located Token)} {expr : Expr} :
    Multiplicative tokens expr → (∀ token ∈ tokens, token.line = line) → expr.OnLine line
  | .one factor, h => onLine_of_unary factor h
  | .more first _ second, h => by
      obtain ⟨hfirst, hsign, hsecond⟩ := lines_of_sign h
      have hleft := onLine_of_multiplicative first hfirst
      have hright := onLine_of_unary second hsecond
      cases hsign
      exact .binary hleft hright

theorem onLine_of_unary {tokens : List (Located Token)} {expr : Expr} :
    Unary tokens expr → (∀ token ∈ tokens, token.line = line) → expr.OnLine line
  | .negate operand, h => by
      obtain ⟨hsign, htokens⟩ := List.forall_mem_cons.mp h
      have hoperand := onLine_of_unary operand htokens
      cases hsign
      exact .negate hoperand
  | .primary primary, h => onLine_of_primary primary h

theorem onLine_of_primary {tokens : List (Located Token)} {expr : Expr} :
    Primary tokens expr → (∀ token ∈ tokens, token.line = line) → expr.OnLine line
  | .integer, h => by
      cases h _ (.head _)
      exact .literal
  | .real, h => by
      cases h _ (.head _)
      exact .literal
  | .text, h => by
      cases h _ (.head _)
      exact .literal
  | .name, h => by
      cases h _ (.head _)
      exact .name
  | .call arguments, h => by
      obtain ⟨hname, -, hinner⟩ := @lines_of_sign line [_] _ _ h
      have harguments := onLine_of_arguments arguments (List.forall_mem_append.mp hinner).1
      cases hname _ (.head _)
      exact .call harguments
  | .group inner, h =>
      onLine_of_additive inner (List.forall_mem_append.mp (List.forall_mem_cons.mp h).2).1

theorem onLine_of_arguments {tokens : List (Located Token)} {exprs : List Expr} :
    Arguments tokens exprs → (∀ token ∈ tokens, token.line = line) →
    ∀ expr ∈ exprs, expr.OnLine line
  | .none, _ => nofun
  | .some list, h => onLine_of_argumentList list h

theorem onLine_of_argumentList {tokens : List (Located Token)} {exprs : List Expr} :
    ArgumentList tokens exprs → (∀ token ∈ tokens, token.line = line) →
    ∀ expr ∈ exprs, expr.OnLine line
  | .last inner, h => List.forall_mem_singleton.mpr (onLine_of_additive inner h)
  | .more inner others, h => by
      obtain ⟨hinner, -, hothers⟩ := lines_of_sign h
      exact List.forall_mem_cons.mpr
        ⟨onLine_of_additive inner hinner, onLine_of_argumentList others hothers⟩

end

theorem onLine_of_whole {tokens : List (Located Token)} {expr : Expr}
    (h : ∀ token ∈ tokens, token.line = line) (hexpr : parseWhole tokens = .ok expr) :
    expr.OnLine line := by
  rw [parseWhole] at hexpr
  obtain ⟨parsed, hparsed, hexpr⟩ := bind_eq_ok.mp hexpr
  obtain ⟨_, -, hexpr⟩ := bind_eq_ok.mp hexpr
  cases hexpr
  obtain ⟨taken, htokens, derives⟩ := additive_of_reads ⟨parsed, hparsed, rfl, rfl⟩
  refine onLine_of_additive derives fun token htoken => h token ?_
  rw [htokens]
  exact List.mem_append_left _ htoken

theorem onLine_of_assignment {tokens : List (Located Token)} {assignment : Assignment}
    (h : ∀ token ∈ tokens, token.line = line)
    (hassignment : parseAssignment tokens = .ok assignment) : assignment.value.OnLine line := by
  rw [parseAssignment.eq_def] at hassignment
  split at hassignment
  next =>
    obtain ⟨value, hvalue, hassignment⟩ := bind_eq_ok.mp hassignment
    cases hassignment
    exact onLine_of_whole (fun token htoken => h token (.tail _ (.tail _ htoken))) hvalue
  next =>
    dsimp only at hassignment
    split at hassignment <;> cases hassignment

end Trees

/-! ## Faults of evaluations -/

section Evaluations

variable {bindings : Bindings} {line : Nat}

theorem values_eq_error {exprs : List Expr} {fault : EvalError}
    (h : values bindings exprs = .error fault) :
    ∃ expr ∈ exprs, expr.value bindings = .error fault := by
  induction exprs with
  | nil =>
      rw [values_nil] at h
      cases h
  | cons expr exprs ih =>
      rw [values, evalAll, Printing.outcome_bind fun _ =>
        Printing.steady_bind (steady_evalAll exprs)
        fun _ => Printing.steady_pure _] at h
      rcases bind_eq_error.mp h with h | ⟨value, -, h⟩
      · exact ⟨expr, .head _, h⟩
      · rw [Printing.outcome_bind fun _ => Printing.steady_pure _] at h
        obtain ⟨found, hfound, h⟩ := ih (error_of_bind_pure h)
        exact ⟨found, .tail _ hfound, h⟩

/-- A fault of an evaluation names the line of a node. -/
theorem line_of_value {expr : Expr} {fault : EvalError} (h : expr.OnLine line)
    (hfault : expr.value bindings = .error fault) : fault.line = line := by
  induction h with
  | literal =>
      rw [value_literal] at hfault
      cases hfault
  | name =>
      rw [value, eval, Printing.outcome_onLine] at hfault
      obtain ⟨_, -, rfl⟩ := mapError_eq_error.mp hfault
      rfl
  | negate _ ih =>
      rw [value_negate_eq] at hfault
      rcases bind_eq_error.mp hfault with hfault | ⟨_, -, hfault⟩
      · exact ih hfault
      · obtain ⟨_, -, rfl⟩ := mapError_eq_error.mp hfault
        rfl
  | @binary op left right _ _ ihLeft ihRight =>
      rw [value_binary_eq] at hfault
      rcases bind_eq_error.mp hfault with hfault | ⟨l, -, hfault⟩
      · exact ihLeft hfault
      · rcases bind_eq_error.mp hfault with hfault | ⟨r, -, hfault⟩
        · exact ihRight hfault
        · obtain ⟨_, -, rfl⟩ := mapError_eq_error.mp hfault
          rfl
  | call _ ih =>
      rw [value, eval, Printing.outcome_bind fun _ =>
        Printing.steady_onLine (steady_callFunction _ _)] at hfault
      rcases bind_eq_error.mp hfault with hfault | ⟨_, -, hfault⟩
      · obtain ⟨argument, hargument, hfault⟩ := values_eq_error hfault
        exact ih argument hargument hfault
      · obtain ⟨_, -, rfl⟩ := mapError_eq_error.mp hfault
        rfl

end Evaluations

/-! ## Texts of one line -/

section Texts

variable {line : Nat} {source : String}

theorem line_of_tokenize {text : List Char} {fault : Located TokenFault} :
    '\n' ∉ text → tokenize text line = .error fault → fault.line = line := by
  induction text using cut_induction with
  | nil =>
      intro _ h
      rw [tokenize_nil] at h
      cases h
  | piece c rest ih =>
      intro hline h
      rcases hcut : cut c rest with ⟨piece, after⟩
      rw [hcut] at ih
      cases piece with
      | fault found =>
          rw [tokenize_fault hcut] at h
          cases h
          rfl
      | gap =>
          rw [tokenize_gap hcut] at h
          exact ih (not_mem_after hcut hline) h
      | token token =>
          rw [tokenize_token hcut (List.ne_of_not_mem_cons hline).symm] at h
          exact ih (not_mem_after hcut hline) (map_eq_error.mp h)

theorem line_of_tokensOf {fault : ParseError} (hline : '\n' ∉ source.toList)
    (h : tokensOf source line = .error fault) : fault.line = line := by
  obtain ⟨found, hfound, rfl⟩ := mapError_eq_error.mp h
  exact line_of_tokenize hline hfound

theorem ended_of_tokensOf {tokens : List (Located Token)} (hline : '\n' ∉ source.toList)
    (h : tokensOf source line = .ok tokens) : Ended line tokens := by
  obtain ⟨items, -, rfl⟩ := cuts_of_tokenize hline (mapError_eq_ok.mp h)
  exact .onLine line items

theorem line_of_parse {α : Type} {parse : List (Located Token) → Except ParseError α}
    {fault : ParseError} (hparse : FaultsAtTokens parse) (hline : '\n' ∉ source.toList)
    (h : tokensOf source line >>= parse = .error fault) : fault.line = line := by
  rcases bind_eq_error.mp h with h | ⟨tokens, htokens, h⟩
  · exact line_of_tokensOf hline h
  · exact (ended_of_tokensOf hline htokens).line_eq (hparse h)

theorem line_of_read {fault : ParseError} (hline : '\n' ∉ source.toList)
    (h : read source line = .error fault) : fault.line = line :=
  line_of_parse faultsAtTokens_parseWhole hline h

theorem onLine_of_read {expr : Expr} (hline : '\n' ∉ source.toList)
    (h : read source line = .ok expr) : expr.OnLine line := by
  obtain ⟨tokens, htokens, h⟩ := bind_eq_ok.mp h
  exact onLine_of_whole (ended_of_tokensOf hline htokens).line h

theorem line_of_readAssignment {fault : ParseError} (hline : '\n' ∉ source.toList)
    (h : Assignment.read source line = .error fault) : fault.line = line :=
  line_of_parse faultsAtTokens_parseAssignment hline h

theorem onLine_of_readAssignment {assignment : Assignment} (hline : '\n' ∉ source.toList)
    (h : Assignment.read source line = .ok assignment) : assignment.value.OnLine line := by
  obtain ⟨tokens, htokens, h⟩ := bind_eq_ok.mp h
  exact onLine_of_assignment (ended_of_tokensOf hline htokens).line h

end Texts

end QubitScript.Expr
