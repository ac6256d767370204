import QubitScript.CommandLine
import QubitScript.Proofs.Expr.Integers
import QubitScript.Proofs.Expr.Parsing
import QubitScript.Proofs.Lexer.Spacing
import QubitScript.Proofs.Line.Retokenizing
import QubitScript.Proofs.Session.Replay

/-!
# Integers that are read back

An integer is printed as its digits, with a minus sign before them if it is negative. On a line the
sign is an operator, so the digits are read as an integer of their own and then negated. That gives
the integer back, unless it is the smallest one: its digits alone are too large.
-/

namespace QubitScript

open QubitScript.Text

/-! ## Tokens of names and integers -/

theorem callStart_of_isNameStart {caseSensitive : Bool} {c : Char} (h : Expr.isNameStart c = true) :
    (callStart caseSensitive).contains c = true := by
  have hstart : (callStart true).contains c = true := by
    simp only [callStart, if_true, CharSet.contains_union, contains_range, contains_single,
      Bool.or_eq_true]
    rw [Expr.isNameStart, Bool.or_eq_true, beq_iff_eq] at h
    rcases h with halpha | rfl
    · rcases (Bool.or_eq_true _ _).mp halpha with hupper | hlower
      · exact .inl (.inl (of_decide_eq_true hupper))
      · obtain ⟨hlow, hhigh⟩ := (Bool.and_eq_true _ _).mp hlower
        exact .inr ⟨of_decide_eq_true hlow, of_decide_eq_true hhigh⟩
    · exact .inl (.inr rfl)
  exact contains_of_diff (by cases caseSensitive <;> decide) hstart

theorem isNamePart_of_mem {name : String} (h : isIdentifier name = true) :
    ∀ c ∈ name.toList, Expr.isNamePart c = true := by
  obtain ⟨c, rest, htext, hc, hrest⟩ := exists_head_of_isIdentifier h
  rw [htext]
  exact List.forall_mem_cons.mpr ⟨Expr.isNamePart_of_isNameStart hc, hrest⟩

theorem isWord_of_isNamePart {c : Char} (h : Expr.isNamePart c = true) : isWord c = true := by
  by_cases hdigit : c.isDigit = true
  · exact isWord_of_isDigit hdigit
  · have hstart : Expr.isNameStart c = true := by
      simpa [Expr.isNamePart, Expr.isNameStart, Char.isAlphanum, hdigit] using h
    exact isWord_of_callStart (@callStart_of_isNameStart true c hstart)

/-- Without a colon there is no marker. -/
theorem not_isMarker {caseSensitive : Bool} {text : List Char} (h : ':' ∉ text) :
    ¬ Pattern.IsMarker caseSensitive text := by
  rintro ⟨first, others, rfl, -⟩
  exact h (List.mem_append_right _ (.head _))

theorem not_isMarker_of_words {caseSensitive : Bool} {text : List Char}
    (h : ∀ c ∈ text, isWord c = true) : ¬ Pattern.IsMarker caseSensitive text :=
  not_isMarker fun hcolon => absurd (h ':' hcolon) (by decide)

namespace Token

def ofName (name : String) : Token := .plain Kind.name name

def equals : Token := .plain Kind.operator "="

def minus : Token := .plain Kind.operator "-"

/-- The token of the digits of a number. -/
def ofDigits (m : Nat) : Token := .plain Kind.number m.repr

variable {caseSensitive : Bool} {name : String} {m : Nat}

theorem isCommandToken_ofName (h : isIdentifier name = true) :
    (ofName name).IsCommandToken caseSensitive := by
  obtain ⟨c, rest, htext, hc, hrest⟩ := exists_head_of_isIdentifier h
  have htakes : (namePattern caseSensitive).Takes name.toList := by
    rw [htext]
    exact .seq (Pattern.takes_char (callStart_of_isNameStart hc))
      (Pattern.takes_star_set.mpr fun d hd => isWord_of_isNamePart (hrest d hd))
  exact ⟨⟨_, by simp [commandPatterns, ofName, plain], htakes⟩, rfl⟩

theorem isCommandToken_of_sign {text : String} {c : Char} (htext : text.toList = [c])
    (hc : operatorSet.contains c = true) :
    (plain Kind.operator text).IsCommandToken caseSensitive := by
  have htakes : (Pattern.oneOfEach [operatorSet]).Takes text.toList := by
    rw [htext]
    exact Pattern.takes_char hc
  exact ⟨⟨_, by simp [commandPatterns, plain], htakes⟩, rfl⟩

theorem isCommandToken_ofDigits : (ofDigits m).IsCommandToken caseSensitive := by
  have hdigits := isDigits_repr m
  have hrun : digitsPattern.Takes m.repr.toList :=
    Pattern.takes_plus_set.mpr ⟨hdigits.1, fun c hc => contains_digitSet.mpr (hdigits.2 c hc)⟩
  have htakes : numberPattern.Takes m.repr.toList := by
    rw [← List.append_nil m.repr.toList]
    exact .seq hrun .upToDone
  exact ⟨⟨_, by simp [commandPatterns, ofDigits, plain], htakes⟩, rfl⟩

theorem readsAs_ofName (h : isIdentifier name = true) :
    (ofName name).ReadsAs (.identifier name) := by
  have hparts := isNamePart_of_mem h
  obtain ⟨c, rest, htext, hc, -⟩ := exists_head_of_isIdentifier h
  have hname : IsName name.toList := by
    refine ⟨by rw [htext]; nofun, fun d hd => isWord_of_isNamePart (hparts d hd), ?_⟩
    rw [htext]
    rintro _ ⟨⟩
    exact isDigit_of_callStart (@callStart_of_isNameStart true c hc)
  exact .name rfl hname hparts

theorem readsAs_ofDigits (hm : m < 2 ^ (63 : Nat)) :
    (ofDigits m).ReadsAs (.integer (.ofNat m)) := by
  have hvalue : natOfDigits (ofDigits m).lexeme.toList = m := natOfDigits_repr m
  have hsmall : natOfDigits (ofDigits m).lexeme.toList < 2 ^ (63 : Nat) := by rwa [hvalue]
  have hread : (ofDigits m).ReadsAs (.integer (.ofNat (natOfDigits (ofDigits m).lexeme.toList))) :=
    .integer rfl (isDigits_repr m) hsmall
  rwa [hvalue] at hread

theorem readsAs_equals : equals.ReadsAs .equals := .operator rfl rfl (by decide) rfl

theorem readsAs_minus : minus.ReadsAs .minus := .operator rfl rfl (by decide) rfl

end Token

/-! ## Integers -/

/-- The tokens that an integer is written with. -/
inductive Spelled (n : Int64) : List Token → Prop
  | digits {m : Nat} : n.toInt = m → Spelled n [.ofDigits m]
  | negated {m : Nat} : n.toInt = -m → 0 < m → Spelled n [.minus, .ofDigits m]

theorem exists_spelled (n : Int64) : ∃ terms, Spelled n terms := by
  by_cases hsign : 0 ≤ n.toInt
  · exact ⟨_, .digits (Int.toNat_of_nonneg hsign).symm⟩
  · have hm : n.toInt = -((-n.toInt).toNat : Int) := by omega
    exact ⟨_, .negated hm (by omega)⟩

/-- Tokens without gaps between them, and one gap before all of them. -/
def tight (gap : String) : List Token → List (String × Token)
  | [] => []
  | term :: terms => (gap, term) :: terms.map ("", ·)

theorem map_tight (gap : String) (terms : List Token) : (tight gap terms).map (·.2) = terms := by
  cases terms with
  | nil => rfl
  | cons term terms =>
      rw [tight, List.map_cons, List.map_map]
      exact congrArg (term :: ·) (List.map_id _)

/-- What terms stand for is an expression with that value under the bindings. -/
def Denotes (bindings : Bindings) (line : Nat) (terms : List Token) (value : Value) : Prop :=
  ∃ reads expr, List.Forall₂ Token.ReadsAs terms reads ∧
    Expr.Grammar.Additive (reads.map (⟨line, ·⟩)) expr ∧ expr.value bindings = .ok value

namespace Spelled

variable {n : Int64} {terms : List Token}

theorem spaced_tight (h : Spelled n terms) (gap : String) :
    Lexer.spaced (tight gap terms) = gap ++ (Value.integer n).write := by
  have hwrite : (Value.integer n).write = n.toInt.repr := Int.toString_eq_repr
  rw [hwrite, Int.repr_eq_if]
  cases h with
  | @digits m hm =>
      rw [hm, if_pos (Int.natCast_nonneg m), Int.toNat_natCast]
      simp [tight, Lexer.spaced, String.join, Token.ofDigits, Token.plain]
  | @negated m hm hpos =>
      rw [hm, if_neg (by omega), neg_neg, Int.toNat_natCast]
      simp [tight, Lexer.spaced, String.join, Token.ofDigits, Token.minus, Token.plain,
        String.append_assoc]

/-- The sign is an operator, so the digits may come right after it. -/
theorem scannable {lexer : Lexer} {caseSensitive : Bool} (h : Spelled n terms) (gap : String)
    (hgap : lexer.IsGap gap.toList) : lexer.Scannable caseSensitive (tight gap terms) := by
  have hdigits : ∀ {m : Nat} {gap : String}, lexer.IsGap gap.toList →
      lexer.Scannable caseSensitive [(gap, .ofDigits m)] := by
    intro m gap hgap
    have hwords : ∀ c ∈ m.repr.toList, isWord c = true :=
      fun c hc => isWord_of_isDigit ((isDigits_repr m).2 c hc)
    exact .cons hgap Token.isCommandToken_ofDigits (not_isMarker_of_words hwords) (.inr .nil) .nil
  cases h with
  | digits => exact hdigits hgap
  | negated =>
      exact .cons hgap (Token.isCommandToken_of_sign rfl (by decide)) (not_isMarker (by decide))
        (.inl rfl) (hdigits .nil)

theorem denotes (h : Spelled n terms) (hn : n ≠ .minValue) (bindings : Bindings) (line : Nat) :
    Denotes bindings line terms (.integer n) := by
  have hlow := n.le_toInt
  have hhigh := n.toInt_lt
  cases h with
  | @digits m hm =>
      have hsmall : m < 2 ^ (63 : Nat) := by omega
      have hinteger : Int64.ofNat m = n := by
        rw [← Int64.toInt_inj, Int64.toInt_ofNat_of_lt hsmall, hm]
      exact ⟨_, _, .cons (Token.readsAs_ofDigits hsmall) .nil, .one (.one (.primary .integer)),
        hinteger ▸ Expr.value_literal⟩
  | @negated m hm =>
      -- Only the digits of the smallest integer are more than the largest integer.
      have hleast : n.toInt ≠ -2 ^ 63 := by
        rw [← Int64.toInt_minValue]
        exact mt Int64.toInt_inj.mp hn
      have hsmall : m < 2 ^ (63 : Nat) := by omega
      have hnegate : (Value.integer (.ofNat m)).negate = .ok (.integer n) := by
        rw [Value.negate_eq_integer]
        refine ⟨_, rfl, ?_⟩
        rw [Int64.toInt_ofNat_of_lt hsmall, hm]
      exact ⟨_, _, .cons Token.readsAs_minus (.cons (Token.readsAs_ofDigits hsmall) .nil),
        .one (.one (.negate (.primary .integer))),
        Expr.value_negate.mpr ⟨_, Expr.value_literal, hnegate⟩⟩

theorem not_mem_equals (h : Spelled n terms) : ∀ term ∈ terms, '=' ∉ term.lexeme.toList := by
  have hdigits : ∀ m : Nat, '=' ∉ (Token.ofDigits m).lexeme.toList :=
    fun m => (IsNumber.integer (isDigits_repr m)).not_mem_equals
  cases h with
  | @digits m => exact List.forall_mem_singleton.mpr (hdigits m)
  | @negated m =>
      exact List.forall_mem_cons.mpr ⟨by decide, List.forall_mem_singleton.mpr (hdigits m)⟩

end Spelled

/-! ## Lines that are put together -/

theorem Expr.Grammar.parseWhole_onLine {reads : List Expr.Token} {line : Nat} {expr : Expr}
    (h : Additive (reads.map (⟨line, ·⟩)) expr) : parseWhole (onLine line reads) = .ok expr :=
  parseWhole_eq_ok.mpr ⟨_, _, rfl, h, by simp⟩

theorem not_mem_joined {terms : List Token} (h : ∀ term ∈ terms, '=' ∉ term.lexeme.toList) :
    '=' ∉ (joined terms).toList := by
  rw [joined, mem_intercalate_blank (by decide)]
  rintro ⟨_, hlexeme, hmem⟩
  obtain ⟨term, hterm, rfl⟩ := List.mem_map.mp hlexeme
  exact h term hterm hmem

/-- A line that is cut into terms and put together again from their lexemes. -/
structure Assembles (lexer : Lexer) (text : String) (terms : List Token) : Prop where
  tokens : lexer.tokenize text = .ok terms
  source : ∃ itemized, ItemizedLine.ofTokens terms = .ok itemized ∧
    Command.classify itemized.items = some (.expression itemized.items) ∧
    (Chain.build itemized.items).resolve itemized.handles = .ok (joined terms)

namespace Session

variable {session : Session Machine} {text : String} {terms : List Token} {value : Value}

/-- Such a line makes one request, with the lexemes. -/
theorem run_of_assembles {σ : Type} {lexer : Lexer} (h : Assembles lexer text terms)
    (executor : Executor σ) (line : Nat) (state : σ) :
    (lineAction lexer executor text line).run.run state =
      if '=' ∈ (joined terms).toList then
        let (result, after) := (executor.assign (joined terms) line).run.run state
        ((result.map .assigned).mapError .execution, after)
      else
        let (result, after) := (executor.evaluate (joined terms) line).run.run state
        ((result.map .value).mapError .execution, after) := by
  obtain ⟨htokens, itemized, hitems, hclass, hsource⟩ := h
  rw [lineAction, htokens]
  dsimp only
  rw [hitems]
  dsimp only
  rw [ItemizedLine.run, hclass]
  exact Command.run_expression executor hsource line state

variable (hexecutor : session.executor = Machine.executor)
include hexecutor

theorem interpret_of_plain (h : Assembles session.lexer text terms)
    (hplain : ∀ term ∈ terms, '=' ∉ term.lexeme.toList) :
    (session.interpret text).1 =
      ((((Machine.evaluate (joined terms) (session.lines + 1)).run.run session.state).1).map
        Outcome.value).mapError LineError.execution := by
  rw [interpret_eq_lineAction, run_of_assembles h, if_neg (not_mem_joined hplain), hexecutor]
  rfl

/-- A line without an equals sign has the value of the expression that it is read as. -/
theorem interpret_expression (h : Assembles session.lexer text terms)
    (hplain : ∀ term ∈ terms, '=' ∉ term.lexeme.toList)
    (hvalue : Denotes session.state.bindings (session.lines + 1) terms value) :
    (session.interpret text).1 = .ok (.value value) := by
  obtain ⟨reads, expr, hreads, hexpr, hvalue⟩ := hvalue
  have hread : Expr.read (joined terms) (session.lines + 1) = .ok expr := by
    rw [Expr.read, Expr.tokensOf, tokenize_of_reads _ hreads]
    exact Expr.Grammar.parseWhole_onLine hexpr
  rw [interpret_of_plain hexecutor h hplain, Machine.result_evaluate.mpr ⟨expr, hread, hvalue⟩]
  rfl

/-- A line without an equals sign fails at the first term that is refused. -/
theorem interpret_refused {refused : Token} {fault : Expr.TokenFault}
    (h : Assembles session.lexer text terms) (hplain : ∀ term ∈ terms, '=' ∉ term.lexeme.toList)
    (hrefused : FirstRefused terms refused fault) :
    (session.interpret text).1 =
      .error (.execution (.parse ⟨session.lines + 1, .token fault⟩)) := by
  have hread : Expr.read (joined terms) (session.lines + 1) =
      .error ⟨session.lines + 1, .token fault⟩ := by
    rw [Expr.read, Expr.tokensOf, tokenize_of_firstRefused _ hrefused]
    rfl
  rw [interpret_of_plain hexecutor h hplain, Machine.run_evaluate, hread]
  rfl

/-- A line that is a name, an equals sign and an expression binds the name to the value. -/
theorem interpret_assignment {name : String} (hname : isIdentifier name = true)
    (h : Assembles session.lexer text (.ofName name :: .equals :: terms))
    (hvalue : Denotes session.state.bindings (session.lines + 1) terms value) :
    (session.interpret text).1 = .ok (.assigned ⟨name, value⟩) ∧
      (session.interpret text).2.state.bindings = session.state.bindings.bind name value := by
  obtain ⟨reads, expr, hreads, hexpr, hvalue⟩ := hvalue
  have hequals : '=' ∈ (joined (.ofName name :: .equals :: terms)).toList := by
    rw [joined, mem_intercalate_blank (by decide)]
    exact ⟨"=", .tail _ (.head _), by decide⟩
  have hread : Assignment.read (joined (.ofName name :: .equals :: terms)) (session.lines + 1) =
      .ok ⟨name, expr, session.lines + 1⟩ := by
    rw [Assignment.read, Expr.tokensOf,
      tokenize_of_reads _ (.cons (Token.readsAs_ofName hname) (.cons Token.readsAs_equals hreads))]
    show Expr.parseAssignment (Expr.onLine _ (.identifier name :: .equals :: reads)) = _
    exact Expr.Grammar.parseAssignment_eq_ok.mpr
      ⟨session.lines + 1, _, rfl, Expr.Grammar.parseWhole_onLine hexpr⟩
  have heval : (Machine.eval expr).run.run session.state =
      (.ok value, ((Machine.eval expr).run.run session.state).2) := by
    refine Prod.ext ?_ rfl
    rw [Machine.result_eval, hvalue]
    rfl
  rw [interpret_eq_lineAction, run_of_assembles h, if_pos hequals, hexecutor]
  dsimp only [Machine.executor]
  rw [Machine.run_assign, hread]
  dsimp only
  rw [heval]
  exact ⟨rfl, congrArg (·.bind name value) (Machine.unchanged_eval expr session.state).bindings⟩

end Session

/-! ## The lines of an integer -/

namespace Spelled

variable {options : LexerOptions} {lexer : Lexer} {n : Int64} {terms : List Token}
  (hlexer : Lexer.build commandRules options = .ok lexer)
include hlexer

/-- The text of an integer is a line, however the lexer was built. -/
theorem assembles (h : Spelled n terms) : Assembles lexer (Value.integer n).write terms := by
  have htokens : lexer.tokenize (Value.integer n).write = .ok terms := by
    have hscanned := Lexer.tokenize_scannable hlexer (h.scannable "" .nil)
    rwa [h.spaced_tight, String.empty_append, map_tight] at hscanned
  cases h with
  | digits => exact ⟨htokens, _, rfl, rfl, rfl⟩
  | negated => exact ⟨htokens, _, rfl, rfl, rfl⟩

/-- An assignment of an integer is a line for a lexer that skips blanks. -/
theorem assembles_assignment (homit : options.omitBlanks = true) {name : String}
    (hname : isIdentifier name = true) (h : Spelled n terms) :
    Assembles lexer (name ++ " = " ++ (Value.integer n).write)
      (.ofName name :: .equals :: terms) := by
  have hgap : lexer.IsGap " ".toList :=
    Lexer.isGap_of_blank hlexer homit (List.all_eq_true.mp (by decide))
  have hwords : ∀ c ∈ (Token.ofName name).lexeme.toList, isWord c = true :=
    fun c hc => isWord_of_isNamePart (isNamePart_of_mem hname c hc)
  have hscannable : lexer.Scannable options.caseSensitive
      (("", .ofName name) :: (" ", .equals) :: tight " " terms) := by
    refine .cons .nil (Token.isCommandToken_ofName hname) (not_isMarker_of_words hwords) (.inr ?_)
      ?_
    · intro c hc
      rw [Lexer.toList_spaced_cons] at hc
      cases hc
      decide
    · exact .cons hgap (Token.isCommandToken_of_sign rfl (by decide)) (not_isMarker (by decide))
        (.inl rfl) (h.scannable " " hgap)
  have htext : Lexer.spaced (("", .ofName name) :: (" ", .equals) :: tight " " terms) =
      name ++ " = " ++ (Value.integer n).write := by
    apply String.toList_injective
    rw [Lexer.toList_spaced_cons, Lexer.toList_spaced_cons, h.spaced_tight]
    simp [Token.ofName, Token.equals, Token.plain]
  have htokens : lexer.tokenize (name ++ " = " ++ (Value.integer n).write) =
      .ok (.ofName name :: .equals :: terms) := by
    have hscanned := Lexer.tokenize_scannable hlexer hscannable
    rwa [htext, List.map_cons, List.map_cons, map_tight] at hscanned
  cases h with
  | digits => exact ⟨htokens, _, rfl, rfl, rfl⟩
  | negated => exact ⟨htokens, _, rfl, rfl, rfl⟩

end Spelled

section Integers

variable {options : LexerOptions} {session : Session Machine}
  (hlexer : Lexer.build commandRules options = .ok session.lexer)
  (hexecutor : session.executor = Machine.executor)
include hlexer hexecutor

/-- Without its sign the smallest integer is too large. -/
theorem smallest_integer_refused : (session.interpret (Value.integer .minValue).write).1 =
    .error (.execution (.parse ⟨session.lines + 1, .token (.tooLarge "9223372036854775808")⟩)) := by
  have hspelled : Spelled .minValue [.minus, .ofDigits (2 ^ 63)] :=
    .negated (by rw [Int64.toInt_minValue]; rfl) (by decide)
  have hlexeme : (Token.ofDigits (2 ^ 63)).lexeme = "9223372036854775808" := by decide +kernel
  have hlarge : (Token.ofDigits (2 ^ 63)).Refused (.tooLarge "9223372036854775808") := by
    rw [← hlexeme]
    exact .tooLarge rfl (isDigits_repr _) (natOfDigits_repr _).ge
  exact Session.interpret_refused hexecutor (hspelled.assembles hlexer) hspelled.not_mem_equals
    (.later Token.readsAs_minus (.here hlarge))

end Integers

/-- Every integer but the smallest one is read back from how it is printed: as a line of its own,
and as what an assignment is answered with, if blanks are skipped. -/
theorem integers_read_back {options : LexerOptions} {session : Session Machine}
    (hlexer : Lexer.build commandRules options = .ok session.lexer)
    (hexecutor : session.executor = Machine.executor) {n : Int64} (hn : n ≠ .minValue) :
    (session.interpret (Value.integer n).write).1 = .ok (.value (.integer n)) ∧
    (options.omitBlanks = true → ∀ name, isIdentifier name = true →
      let outcome := Outcome.assigned ⟨name, .integer n⟩
      let line := name ++ " = " ++ (Value.integer n).write
      CommandLine.answer outcome = line ++ "\n" ∧
      (session.interpret line).1 = .ok outcome ∧
      (session.interpret line).2.state.bindings.get? name = some (.integer n)) := by
  obtain ⟨terms, h⟩ := exists_spelled n
  have hdenotes := h.denotes hn session.state.bindings (session.lines + 1)
  refine ⟨Session.interpret_expression hexecutor (h.assembles hlexer) h.not_mem_equals hdenotes, ?_⟩
  intro homit name hname outcome line
  obtain ⟨hresult, hbindings⟩ := Session.interpret_assignment hexecutor hname
    (h.assembles_assignment hlexer homit hname) hdenotes
  refine ⟨rfl, hresult, ?_⟩
  rw [hbindings, Bindings.get?_bind, if_pos rfl]

/-- The integer after the smallest one, in a session that has the name bound to another. -/
theorem second_smallest_integer_read_back : ∃ start, Session.start {} = .ok start ∧
    let session := (start.interpret "_x1 = 2").2
    session.state.bindings.get? "_x1" = some (.integer 2) ∧
    (session.interpret "-9223372036854775807").1 = .ok (.value (.integer (-9223372036854775807))) ∧
    (session.interpret "_x1 = -9223372036854775807").1 =
      .ok (.assigned ⟨"_x1", .integer (-9223372036854775807)⟩) ∧
    (session.interpret "_x1 = -9223372036854775807").2.state.bindings.get? "_x1" =
      some (.integer (-9223372036854775807)) := by
  obtain ⟨start, hstart⟩ := Session.exists_start
  obtain ⟨lexer, hlexer, rfl⟩ := Session.start_eq_ok hstart
  let start := Session.new lexer Machine.executor .new .default
  obtain ⟨hsame, hexecutor⟩ := start.interpret_keeps "_x1 = 2"
  have hbuilt : Lexer.build commandRules {} = .ok (start.interpret "_x1 = 2").2.lexer :=
    hsame ▸ hlexer
  have hwrite : (Value.integer (-9223372036854775807)).write = "-9223372036854775807" := by
    decide +kernel
  obtain ⟨-, hbefore⟩ := @integers_read_back {} start hlexer rfl 2 (by decide)
  obtain ⟨-, -, htwo⟩ := hbefore rfl "_x1" (by decide)
  obtain ⟨hvalue, hassigned⟩ :=
    @integers_read_back {} _ hbuilt hexecutor (-9223372036854775807) (by decide)
  obtain ⟨-, houtcome, hbound⟩ := hassigned rfl "_x1" (by decide)
  rw [hwrite] at hvalue houtcome hbound
  exact ⟨start, hstart, htwo, hvalue, houtcome, hbound⟩

theorem exists_lexer_keeping_blanks : ∃ lexer,
    Lexer.build commandRules { omitBlanks := false } = .ok lexer ∧
    ∃ fault, lexer.tokenize "x = 1" = .error fault := by
  have hrefused : ((commandLexer { omitBlanks := false }).tokenize "x = 1").toOption = none := by
    decide +kernel
  refine ⟨_, build_commandRules _, ?_⟩
  cases htokens : (commandLexer { omitBlanks := false }).tokenize "x = 1" with
  | error fault => exact ⟨fault, rfl⟩
  | ok tokens => simp [htokens, Except.toOption] at hrefused

/-- The smallest integer is not read back by a session as it is started, and no assignment is by one
that keeps blanks. -/
theorem smallest_integer_and_kept_blanks_refused :
    (∃ start, Session.start {} = .ok start ∧
      (start.interpret (Value.integer .minValue).write).1 =
        .error (.execution (.parse ⟨1, .token (.tooLarge "9223372036854775808")⟩))) ∧
    ∃ start, Session.start { omitBlanks := false } = .ok start ∧
      ∃ error, (start.interpret "x = 1").1 = .error error := by
  constructor
  · obtain ⟨start, hstart⟩ := Session.exists_start
    obtain ⟨lexer, hlexer, rfl⟩ := Session.start_eq_ok hstart
    exact ⟨_, hstart, smallest_integer_refused hlexer rfl⟩
  · obtain ⟨lexer, hlexer, fault, hfault⟩ := exists_lexer_keeping_blanks
    let start := Session.new lexer Machine.executor .new .default
    have hstart : Session.start { omitBlanks := false } = .ok start :=
      Session.start_of_build hlexer
    have hstarted : start.lexer.tokenize "x = 1" = .error fault := hfault
    obtain ⟨error, herror⟩ := Session.interpret_of_lexFault hstarted
    exact ⟨start, hstart, error, by rw [herror]⟩

end QubitScript
