import QubitScript.Proofs.Expr.Grammar
import QubitScript.Proofs.Expr.Reads

/-!
# Parsing follows the grammar

What a parser has read is a sentence of its level, and every sentence is read, up to where it ends,
unless the token after it would continue it. So an expression parses exactly when it is a sentence,
and a sentence has one tree.
-/

namespace QubitScript.Expr.Grammar

variable {tokens rest : List (Located Token)}

/-! ## What is read is a sentence -/

theorem additiveSign_of_op {token : Token} {op : BinaryOp} (h : additiveOp? token = some op) :
    AdditiveSign token op := by
  cases token <;> cases h <;> constructor

theorem multiplicativeSign_of_op {token : Token} {op : BinaryOp}
    (h : multiplicativeOp? token = some op) : MultiplicativeSign token op := by
  cases token <;> cases h <;> constructor

mutual

theorem additive_of_reads {tokens rest : List (Located Token)} {expr : Expr}
    (h : Reads (parseAdditive tokens) expr rest) :
    ∃ taken, tokens = taken ++ rest ∧ Additive taken expr := by
  obtain ⟨left, middle, hleft, htail⟩ := reads_additive.mp h
  have := hleft.shorter
  obtain ⟨before, htokens, hbefore⟩ := multiplicative_of_reads hleft
  obtain ⟨after, hmiddle, whole⟩ := additive_of_readsTail (.one hbefore) htail
  exact ⟨before ++ after, by rw [htokens, hmiddle, List.append_assoc], whole⟩
termination_by 9 * tokens.length + 5

/-- What is read after the first terms of a sum continues the sum. -/
theorem additive_of_readsTail {before tokens rest : List (Located Token)} {left expr : Expr}
    (hbefore : Additive before left) (h : Reads (parseAdditiveTail left tokens) expr rest) :
    ∃ after, tokens = after ++ rest ∧ Additive (before ++ after) expr := by
  match tokens, h with
  | [], h =>
      obtain ⟨rfl, rfl⟩ := reads_additiveTail_nil.mp h
      exact ⟨[], rfl, by rwa [List.append_nil]⟩
  | token :: tail, h =>
      match hop : additiveOp? token.item with
      | none =>
          obtain ⟨rfl, rfl⟩ := (reads_additiveTail_end hop).mp h
          exact ⟨[], rfl, by rwa [List.append_nil]⟩
      | some op =>
          -- What was read before becomes the left operand, so the sum groups to the left.
          obtain ⟨right, middle, hright, htail⟩ := (reads_additiveTail_sign hop).mp h
          have := hright.shorter
          obtain ⟨term, hterm, hsecond⟩ := multiplicative_of_reads hright
          obtain ⟨after, hmiddle, whole⟩ := additive_of_readsTail
            (.more hbefore (additiveSign_of_op hop) hsecond) htail
          refine ⟨token :: term ++ after, ?_, by rwa [← List.append_assoc]⟩
          rw [hterm, hmiddle, List.append_assoc, List.cons_append]
termination_by 9 * tokens.length + 6

theorem multiplicative_of_reads {tokens rest : List (Located Token)} {expr : Expr}
    (h : Reads (parseMultiplicative tokens) expr rest) :
    ∃ taken, tokens = taken ++ rest ∧ Multiplicative taken expr := by
  obtain ⟨left, middle, hleft, htail⟩ := reads_multiplicative.mp h
  have := hleft.shorter
  obtain ⟨before, htokens, hbefore⟩ := unary_of_reads hleft
  obtain ⟨after, hmiddle, whole⟩ := multiplicative_of_readsTail (.one hbefore) htail
  exact ⟨before ++ after, by rw [htokens, hmiddle, List.append_assoc], whole⟩
termination_by 9 * tokens.length + 3

/-- What is read after the first factors of a product continues the product. -/
theorem multiplicative_of_readsTail {before tokens rest : List (Located Token)} {left expr : Expr}
    (hbefore : Multiplicative before left)
    (h : Reads (parseMultiplicativeTail left tokens) expr rest) :
    ∃ after, tokens = after ++ rest ∧ Multiplicative (before ++ after) expr := by
  match tokens, h with
  | [], h =>
      obtain ⟨rfl, rfl⟩ := reads_multiplicativeTail_nil.mp h
      exact ⟨[], rfl, by rwa [List.append_nil]⟩
  | token :: tail, h =>
      match hop : multiplicativeOp? token.item with
      | none =>
          obtain ⟨rfl, rfl⟩ := (reads_multiplicativeTail_end hop).mp h
          exact ⟨[], rfl, by rwa [List.append_nil]⟩
      | some op =>
          obtain ⟨right, middle, hright, htail⟩ := (reads_multiplicativeTail_sign hop).mp h
          have := hright.shorter
          obtain ⟨factor, hfactor, hsecond⟩ := unary_of_reads hright
          obtain ⟨after, hmiddle, whole⟩ := multiplicative_of_readsTail
            (.more hbefore (multiplicativeSign_of_op hop) hsecond) htail
          refine ⟨token :: factor ++ after, ?_, by rwa [← List.append_assoc]⟩
          rw [hfactor, hmiddle, List.append_assoc, List.cons_append]
termination_by 9 * tokens.length + 4

theorem unary_of_reads {tokens rest : List (Located Token)} {expr : Expr}
    (h : Reads (parseUnary tokens) expr rest) :
    ∃ taken, tokens = taken ++ rest ∧ Unary taken expr := by
  by_cases hminus : ∃ line after, tokens = ⟨line, .minus⟩ :: after
  · obtain ⟨line, after, htokens⟩ := hminus
    subst htokens
    obtain ⟨operand, hoperand, rfl⟩ := reads_unary_minus.mp h
    obtain ⟨taken, htaken, derives⟩ := unary_of_reads hoperand
    exact ⟨⟨line, .minus⟩ :: taken, by rw [htaken, List.cons_append], .negate derives⟩
  · have hprimary := (reads_unary_other fun line after h => hminus ⟨line, after, h⟩).mp h
    obtain ⟨taken, htaken, derives⟩ := primary_of_reads hprimary
    exact ⟨taken, htaken, .primary derives⟩
termination_by 9 * tokens.length + 2

theorem primary_of_reads {tokens rest : List (Located Token)} {expr : Expr}
    (h : Reads (parsePrimary tokens) expr rest) :
    ∃ taken, tokens = taken ++ rest ∧ Primary taken expr := by
  match tokens, h with
  | ⟨line, .integer value⟩ :: after, h =>
      rw [parsePrimary] at h
      obtain ⟨rfl, rfl⟩ := reads_ok.mp h
      exact ⟨[_], rfl, .integer⟩
  | ⟨line, .real value⟩ :: after, h =>
      rw [parsePrimary] at h
      obtain ⟨rfl, rfl⟩ := reads_ok.mp h
      exact ⟨[_], rfl, .real⟩
  | ⟨line, .text value⟩ :: after, h =>
      rw [parsePrimary] at h
      obtain ⟨rfl, rfl⟩ := reads_ok.mp h
      exact ⟨[_], rfl, .text⟩
  | ⟨line, .identifier name⟩ :: after, h =>
      -- A name is a call when a parenthesis comes next, and a variable otherwise.
      by_cases hopen : ∃ opening inner, after = ⟨opening, .openParen⟩ :: inner
      · obtain ⟨opening, inner, rfl⟩ := hopen
        obtain ⟨arguments, harguments, rfl⟩ := reads_primary_call.mp h
        obtain ⟨taken, closing, htaken, derives⟩ := arguments_of_reads harguments
        refine ⟨⟨line, .identifier name⟩ :: ⟨opening, .openParen⟩ :: (taken ++
          [⟨closing, .closeParen⟩]), ?_, .call derives⟩
        rw [htaken, List.cons_append, List.cons_append, List.append_assoc, List.singleton_append]
      · obtain ⟨rfl, rfl⟩ :=
          (reads_primary_name fun opening inner h => hopen ⟨opening, inner, h⟩).mp h
        exact ⟨[_], rfl, .name⟩
  | ⟨opening, .openParen⟩ :: after, h =>
      obtain ⟨closing, hinner⟩ := reads_primary_group.mp h
      obtain ⟨taken, htaken, derives⟩ := additive_of_reads hinner
      refine ⟨⟨opening, .openParen⟩ :: (taken ++ [⟨closing, .closeParen⟩]), ?_, .group derives⟩
      rw [htaken, List.cons_append, List.append_assoc, List.singleton_append]
  | [], h
  | ⟨_, .plus⟩ :: _, h | ⟨_, .minus⟩ :: _, h | ⟨_, .star⟩ :: _, h | ⟨_, .slash⟩ :: _, h
  | ⟨_, .backslash⟩ :: _, h | ⟨_, .equals⟩ :: _, h | ⟨_, .closeParen⟩ :: _, h
  | ⟨_, .comma⟩ :: _, h | ⟨_, .lineEnd⟩ :: _, h | ⟨_, .ignored⟩ :: _, h =>
      rw [parsePrimary] at h
      · exact absurd h not_reads_error
      all_goals nofun
termination_by 9 * tokens.length + 1

theorem arguments_of_reads {tokens rest : List (Located Token)} {arguments : List Expr}
    (h : Reads (parseArguments tokens) arguments rest) :
    ∃ taken line, tokens = taken ++ ⟨line, .closeParen⟩ :: rest ∧ Arguments taken arguments := by
  by_cases hclose : ∃ line after, tokens = ⟨line, .closeParen⟩ :: after
  · obtain ⟨line, after, rfl⟩ := hclose
    obtain ⟨rfl, rfl⟩ := reads_arguments_none.mp h
    exact ⟨[], line, rfl, .none⟩
  · have hlist := (reads_arguments_some fun line after h => hclose ⟨line, after, h⟩).mp h
    obtain ⟨taken, line, htaken, derives⟩ := argumentList_of_reads hlist
    exact ⟨taken, line, htaken, .some derives⟩
termination_by 9 * tokens.length + 8

theorem argumentList_of_reads {tokens rest : List (Located Token)} {arguments : List Expr}
    (h : Reads (parseArgumentList tokens) arguments rest) :
    ∃ taken line, tokens = taken ++ ⟨line, .closeParen⟩ :: rest ∧
      ArgumentList taken arguments := by
  rcases reads_argumentList.mp h with ⟨first, line, hfirst, rfl⟩ |
    ⟨first, line, after, hfirst, others, hothers, rfl⟩
  · obtain ⟨taken, htaken, derives⟩ := additive_of_reads hfirst
    exact ⟨taken, line, htaken, .last derives⟩
  · have := hfirst.shorter
    obtain ⟨taken, htaken, derives⟩ := additive_of_reads hfirst
    obtain ⟨more, closing, hmore, list⟩ := argumentList_of_reads hothers
    refine ⟨taken ++ ⟨line, .comma⟩ :: more, closing, ?_, .more derives list⟩
    rw [htaken, hmore, List.append_assoc, List.cons_append]
termination_by 9 * tokens.length + 7

end

/-! ## Every sentence is read -/

theorem op_of_additiveSign {token : Token} {op : BinaryOp} (h : AdditiveSign token op) :
    additiveOp? token = some op := by
  cases h <;> rfl

theorem op_of_multiplicativeSign {token : Token} {op : BinaryOp}
    (h : MultiplicativeSign token op) : multiplicativeOp? token = some op := by
  cases h <;> rfl

/-- No call begins where the tokens begin, so a name before them is a variable. -/
def Detached (tokens : List (Located Token)) : Prop :=
  ∀ line after, tokens ≠ ⟨line, .openParen⟩ :: after

/-- A product before the tokens is over. -/
structure ProductEnds (tokens : List (Located Token)) : Prop where
  detached : Detached tokens
  noSign : ∀ token ∈ tokens.head?, multiplicativeOp? token.item = none

/-- A sum before the tokens is over. -/
structure SumEnds (tokens : List (Located Token)) : Prop extends ProductEnds tokens where
  noFurtherSign : ∀ token ∈ tokens.head?, additiveOp? token.item = none

theorem detached_cons {token : Located Token} (h : token.item ≠ .openParen) :
    Detached (token :: tokens) := by
  rintro line after ⟨⟩
  exact h rfl

theorem ProductEnds.sign {token : Located Token} {op : BinaryOp} (h : AdditiveSign token.item op) :
    ProductEnds (token :: tokens) := by
  obtain ⟨line, sign⟩ := token
  cases h <;> exact ⟨detached_cons nofun, by simp [multiplicativeOp?]⟩

theorem SumEnds.closeParen {line : Nat} : SumEnds (⟨line, .closeParen⟩ :: tokens) :=
  ⟨⟨detached_cons nofun, by simp [multiplicativeOp?]⟩, by simp [additiveOp?]⟩

theorem SumEnds.comma {line : Nat} : SumEnds (⟨line, .comma⟩ :: tokens) :=
  ⟨⟨detached_cons nofun, by simp [multiplicativeOp?]⟩, by simp [additiveOp?]⟩

theorem SumEnds.breaks (h : ∀ token ∈ tokens, token.item = .lineEnd) : SumEnds tokens := by
  cases tokens with
  | nil => exact ⟨⟨nofun, nofun⟩, nofun⟩
  | cons token tail =>
      have htoken := h token (List.mem_cons_self ..)
      refine ⟨⟨detached_cons (by rw [htoken]; nofun), ?_⟩, ?_⟩
      · simp [htoken, multiplicativeOp?]
      · simp [htoken, additiveOp?]

theorem reads_tail_of_productEnds {left : Expr} (h : ProductEnds tokens) :
    Reads (parseMultiplicativeTail left tokens) left tokens := by
  cases tokens with
  | nil => exact reads_multiplicativeTail_nil.mpr ⟨rfl, rfl⟩
  | cons token tail => exact (reads_multiplicativeTail_end (h.noSign token rfl)).mpr ⟨rfl, rfl⟩

theorem reads_tail_of_sumEnds {left : Expr} (h : SumEnds tokens) :
    Reads (parseAdditiveTail left tokens) left tokens := by
  cases tokens with
  | nil => exact reads_additiveTail_nil.mpr ⟨rfl, rfl⟩
  | cons token tail => exact (reads_additiveTail_end (h.noFurtherSign token rfl)).mpr ⟨rfl, rfl⟩

theorem Primary.ne_minus {expr : Expr} (h : Primary tokens expr) (line : Nat)
    (after : List (Located Token)) : tokens ++ rest ≠ ⟨line, .minus⟩ :: after := by
  cases h <;> simp

theorem ArgumentList.ne_closeParen {exprs : List Expr} (h : ArgumentList tokens exprs) (line : Nat)
    (after : List (Located Token)) : tokens ++ rest ≠ ⟨line, .closeParen⟩ :: after := by
  obtain ⟨first, hfirst, hbegins⟩ := h.shape.begins
  obtain ⟨tail, rfl⟩ := List.head?_eq_some_iff.mp hfirst
  rintro ⟨⟩
  cases hbegins

mutual

/-- A sum is read together with what continues it. -/
theorem Additive.reads {tokens : List (Located Token)} {left : Expr} :
    Additive tokens left → ∀ {rest after : List (Located Token)} {expr : Expr}, ProductEnds rest →
      Reads (parseAdditiveTail left rest) expr after →
      Reads (parseAdditive (tokens ++ rest)) expr after
  | .one term => fun hrest htail =>
      reads_additive.mpr ⟨_, _, term.reads hrest.detached (reads_tail_of_productEnds hrest), htail⟩
  | .more first sign second => fun hrest htail => by
      rw [List.append_assoc, List.cons_append]
      refine first.reads (.sign sign) ((reads_additiveTail_sign (op_of_additiveSign sign)).mpr
        ⟨_, _, ?_, htail⟩)
      exact second.reads hrest.detached (reads_tail_of_productEnds hrest)

/-- A product is read together with what continues it. -/
theorem Multiplicative.reads {tokens : List (Located Token)} {left : Expr} :
    Multiplicative tokens left → ∀ {rest after : List (Located Token)} {expr : Expr},
      Detached rest → Reads (parseMultiplicativeTail left rest) expr after →
      Reads (parseMultiplicative (tokens ++ rest)) expr after
  | .one factor => fun hrest htail => reads_multiplicative.mpr ⟨_, _, factor.reads hrest, htail⟩
  | .more first sign second => fun hrest htail => by
      rw [List.append_assoc, List.cons_append]
      refine first.reads (detached_cons ?_) ((reads_multiplicativeTail_sign
        (op_of_multiplicativeSign sign)).mpr ⟨_, _, second.reads hrest, htail⟩)
      cases sign <;> nofun

theorem Unary.reads {tokens : List (Located Token)} {expr : Expr} :
    Unary tokens expr → ∀ {rest : List (Located Token)}, Detached rest →
      Reads (parseUnary (tokens ++ rest)) expr rest
  | .negate operand => fun hrest => reads_unary_minus.mpr ⟨_, operand.reads hrest, rfl⟩
  | .primary primary => fun hrest =>
      (reads_unary_other primary.ne_minus).mpr (primary.reads hrest)

theorem Primary.reads {tokens : List (Located Token)} {expr : Expr} :
    Primary tokens expr → ∀ {rest : List (Located Token)}, Detached rest →
      Reads (parsePrimary (tokens ++ rest)) expr rest
  | .integer | .real | .text => fun _ => by
      rw [List.singleton_append, parsePrimary]
      exact reads_ok.mpr ⟨rfl, rfl⟩
  | .name => fun hrest => (reads_primary_name hrest).mpr ⟨rfl, rfl⟩
  | .call arguments => fun _ => by
      rw [List.cons_append, List.cons_append, List.append_assoc, List.singleton_append]
      exact reads_primary_call.mpr ⟨_, arguments.reads, rfl⟩
  | .group inner => fun _ => by
      rw [List.cons_append, List.append_assoc, List.singleton_append]
      exact reads_primary_group.mpr
        ⟨_, inner.reads SumEnds.closeParen.toProductEnds (reads_tail_of_sumEnds .closeParen)⟩

theorem Arguments.reads {tokens : List (Located Token)} {arguments : List Expr} :
    Arguments tokens arguments → ∀ {rest : List (Located Token)} {line : Nat},
      Reads (parseArguments (tokens ++ ⟨line, .closeParen⟩ :: rest)) arguments rest
  | .none => reads_arguments_none.mpr ⟨rfl, rfl⟩
  | .some list => (reads_arguments_some list.ne_closeParen).mpr list.reads

theorem ArgumentList.reads {tokens : List (Located Token)} {arguments : List Expr} :
    ArgumentList tokens arguments → ∀ {rest : List (Located Token)} {line : Nat},
      Reads (parseArgumentList (tokens ++ ⟨line, .closeParen⟩ :: rest)) arguments rest
  | .last expr => reads_argumentList.mpr (.inl ⟨_, _,
      expr.reads SumEnds.closeParen.toProductEnds (reads_tail_of_sumEnds .closeParen), rfl⟩)
  | .more expr others => by
      rw [List.append_assoc, List.cons_append]
      exact reads_argumentList.mpr (.inr ⟨_, _, _,
        expr.reads SumEnds.comma.toProductEnds (reads_tail_of_sumEnds .comma), _, others.reads,
        rfl⟩)

end

/-! ## Whole lines -/

theorem expectEnd_eq_ok : expectEnd tokens = .ok () ↔ ∀ token ∈ tokens, token.item = .lineEnd := by
  fun_induction expectEnd tokens with
  | case1 => simp
  | case2 line rest ih => simp [ih]
  | case3 line token rest h => simpa using fun h' => absurd h' h

theorem parseWhole_eq_ok {expr : Expr} :
    parseWhole tokens = .ok expr ↔ ∃ body breaks, tokens = body ++ breaks ∧ Additive body expr ∧
      ∀ token ∈ breaks, token.item = .lineEnd := by
  rw [parseWhole, bind_eq_ok]
  constructor
  · rintro ⟨parsed, hparsed, h⟩
    obtain ⟨⟨⟩, hend, h⟩ := bind_eq_ok.mp h
    cases pure_eq_ok.mp h
    obtain ⟨body, hbody, derives⟩ := additive_of_reads ⟨parsed, hparsed, rfl, rfl⟩
    exact ⟨body, parsed.rest, hbody, derives, expectEnd_eq_ok.mp hend⟩
  · rintro ⟨body, breaks, rfl, derives, hbreaks⟩
    have hends := SumEnds.breaks hbreaks
    obtain ⟨parsed, hparsed, rfl, hrest⟩ := derives.reads hends.toProductEnds
      (reads_tail_of_sumEnds hends)
    refine ⟨parsed, hparsed, bind_eq_ok.mpr ⟨(), ?_, rfl⟩⟩
    rw [hrest]
    exact expectEnd_eq_ok.mpr hbreaks

theorem parseAssignment_eq_ok {assignment : Assignment} :
    parseAssignment tokens = .ok assignment ↔ ∃ line rest,
      tokens = ⟨assignment.line, .identifier assignment.name⟩ :: ⟨line, .equals⟩ :: rest ∧
        parseWhole rest = .ok assignment.value := by
  fun_cases parseAssignment tokens with
  | case1 line name equals rest =>
      rw [bind_eq_ok]
      constructor
      · rintro ⟨value, hvalue, h⟩
        cases pure_eq_ok.mp h
        exact ⟨equals, rest, rfl, hvalue⟩
      · rintro ⟨_, _, ⟨⟩, hvalue⟩
        exact ⟨assignment.value, hvalue, rfl⟩
  | case2 _ other | case3 _ other =>
      refine ⟨nofun, ?_⟩
      rintro ⟨line, rest, rfl, -⟩
      exact (other _ _ _ _ rfl).elim

/-- What is left over of tokens that end in a line break is line breaks, at least one. -/
theorem breaks_of_lineEnd {before body breaks : List (Located Token)} {expr : Expr} {last : Nat}
    (htokens : before ++ [⟨last, .lineEnd⟩] = body ++ breaks) (hbody : Additive body expr)
    (hbreaks : ∀ token ∈ breaks, token.item = .lineEnd) : Breaks breaks := by
  refine ⟨?_, hbreaks⟩
  rintro rfl
  rw [List.append_nil] at htokens
  have := hbody.shape.within ⟨last, .lineEnd⟩ (htokens ▸ List.mem_append_right _ (.head _))
  cases this

theorem parseWhole_eq_ok_iff_sentence {before : List (Located Token)} {last : Nat} {expr : Expr}
    (htokens : before ++ [⟨last, .lineEnd⟩] = tokens) :
    parseWhole tokens = .ok expr ↔ Sentence tokens expr := by
  rw [parseWhole_eq_ok]
  constructor
  · rintro ⟨body, breaks, rfl, hbody, hbreaks⟩
    exact ⟨body, breaks, rfl, hbody, breaks_of_lineEnd htokens hbody hbreaks⟩
  · rintro ⟨body, breaks, rfl, hbody, -, hbreaks⟩
    exact ⟨body, breaks, rfl, hbody, hbreaks⟩

theorem parseAssignment_eq_ok_iff_sentence {before : List (Located Token)} {last : Nat}
    {assignment : Assignment} (htokens : before ++ [⟨last, .lineEnd⟩] = tokens) :
    parseAssignment tokens = .ok assignment ↔ AssignmentSentence tokens assignment := by
  rw [parseAssignment_eq_ok]
  refine exists_congr fun line => exists_congr fun rest => and_congr_right fun h => ?_
  match before with
  | [] | [_] => rw [h] at htokens; cases htokens
  | _ :: _ :: before =>
      rw [h] at htokens
      cases htokens
      exact parseWhole_eq_ok_iff_sentence rfl

theorem error_of_ne_ok {α : Type} {result : Except ParseError α} (h : ∀ a, result ≠ .ok a) :
    ∃ fault, result = .error fault := by
  cases result with
  | error fault => exact ⟨fault, rfl⟩
  | ok a => exact absurd rfl (h a)

/-- Of tokens that end in a line break exactly the sentences parse, a sentence has one tree, and all
other tokens have a fault. -/
theorem parse_eq_ok_iff_sentence (before : List (Located Token)) (last : Nat) :
    let tokens := before ++ [⟨last, .lineEnd⟩]
    (∀ expr, parseWhole tokens = .ok expr ↔ Sentence tokens expr) ∧
    (∀ expr expr', Sentence tokens expr → Sentence tokens expr' → expr = expr') ∧
    ((∀ expr, ¬ Sentence tokens expr) → ∃ fault, parseWhole tokens = .error fault) ∧
    (∀ assignment,
      parseAssignment tokens = .ok assignment ↔ AssignmentSentence tokens assignment) ∧
    ((∀ assignment, ¬ AssignmentSentence tokens assignment) →
      ∃ fault, parseAssignment tokens = .error fault) := by
  intro tokens
  have whole : ∀ {expr}, parseWhole tokens = .ok expr ↔ Sentence tokens expr :=
    parseWhole_eq_ok_iff_sentence rfl
  have assignment : ∀ {a}, parseAssignment tokens = .ok a ↔ AssignmentSentence tokens a :=
    parseAssignment_eq_ok_iff_sentence rfl
  refine ⟨fun _ => whole, fun expr expr' h h' => ?_, fun h => ?_, fun _ => assignment, fun h => ?_⟩
  · exact Except.ok.inj ((whole.mpr h).symm.trans (whole.mpr h'))
  · exact error_of_ne_ok fun expr hexpr => h expr (whole.mp hexpr)
  · exact error_of_ne_ok fun a ha => h a (assignment.mp ha)

end QubitScript.Expr.Grammar
