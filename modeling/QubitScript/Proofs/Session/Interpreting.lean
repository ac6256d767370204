import QubitScript.Proofs.Line.Requests

/-!
# Lines of a session

What interpreting a line comes to: a fault of the lexer or of the items, which leaves the state of
the executor alone, or a run of the items on that state. The lexer and the executor stay what they
are, so what holds of one line holds of all lines of a session.
-/

namespace QubitScript.Session

variable {σ : Type}

/-- Interprets lines one after another, whether they succeed or fail. -/
def interpretAll (session : Session σ) : List String → List (Except LineError Outcome) × Session σ
  | [] => ([], session)
  | line :: lines =>
    let (result, session) := session.interpret line
    let (results, session) := session.interpretAll lines
    (result :: results, session)

/-- The tokens of a line that has calls and gets as far as running them. -/
structure ReachesCalls (session : Session σ) (text : String) (tokens : List Token) : Prop where
  tokenized : session.lexer.tokenize text = .ok tokens
  itemized : ∃ itemized, ItemizedLine.ofTokens tokens = .ok itemized
  call : ∃ token ∈ tokens, token.isCall

/-! ## One line -/

variable {session : Session σ} {text : String} {tokens : List Token}

theorem tokenize_skipLine_of_ok (htokens : session.lexer.tokenize text = .ok tokens) :
    session.skipLine.tokenize text = .ok tokens := by
  have hlexer : session.skipLine.lexer.tokenize text = .ok tokens := htokens
  rw [tokenize, hlexer]
  rfl

theorem interpret_of_lexFault {fault : LexFault}
    (hfault : session.lexer.tokenize text = .error fault) :
    ∃ error, session.interpret text = (.error error, session.skipLine) := by
  have hlexer : session.skipLine.lexer.tokenize text = .error fault := hfault
  have htokenize : ∃ fault, session.skipLine.tokenize text = .error fault := by
    rw [tokenize, hlexer]
    exact ⟨_, rfl⟩
  obtain ⟨located, hlocated⟩ := htokenize
  refine ⟨.lex located, ?_⟩
  unfold interpret
  simp only [hlocated]

theorem interpret_of_tokens (htokens : session.lexer.tokenize text = .ok tokens) :
    session.interpret text = (session.skipLine.submit (rawText tokens)).runTokens tokens := by
  unfold interpret
  simp only [tokenize_skipLine_of_ok htokens]

theorem interpret_of_itemFault {error : LineError}
    (htokens : session.lexer.tokenize text = .ok tokens)
    (herror : ItemizedLine.ofTokens tokens = .error error) :
    session.interpret text = (.error error, session.skipLine.submit (rawText tokens)) := by
  rw [interpret_of_tokens htokens, runTokens, herror]

theorem interpret_of_items {itemized : ItemizedLine}
    (htokens : session.lexer.tokenize text = .ok tokens)
    (hitems : ItemizedLine.ofTokens tokens = .ok itemized) :
    session.interpret text = (session.skipLine.submit (rawText tokens)).act
      (itemized.run session.executor (session.lines + 1)) := by
  rw [interpret_of_tokens htokens, runTokens_of_ok _ hitems]
  rfl

/-- A line runs its items, unless it has none because of a fault. -/
theorem interpret_cases (session : Session σ) (text : String) :
    ((∃ error, (session.interpret text).1 = .error error) ∧
      (session.interpret text).2.state = session.state ∧
      ∀ tokens, ¬ session.ReachesCalls text tokens) ∨
    ∃ tokens itemized, session.lexer.tokenize text = .ok tokens ∧
      ItemizedLine.ofTokens tokens = .ok itemized ∧
      session.interpret text = (session.skipLine.submit (rawText tokens)).act
        (itemized.run session.executor (session.lines + 1)) := by
  cases htokens : session.lexer.tokenize text with
  | error fault =>
      obtain ⟨error, hinterpret⟩ := interpret_of_lexFault htokens
      rw [hinterpret]
      refine .inl ⟨⟨error, rfl⟩, rfl, fun tokens hreaches => ?_⟩
      rw [hreaches.tokenized] at htokens
      cases htokens
  | ok tokens =>
      cases hitems : ItemizedLine.ofTokens tokens with
      | error error =>
          rw [interpret_of_itemFault htokens hitems]
          refine .inl ⟨⟨error, rfl⟩, rfl, fun others hreaches => ?_⟩
          have htokens' := hreaches.tokenized
          obtain ⟨itemized, hitemized⟩ := hreaches.itemized
          rw [htokens] at htokens'
          cases htokens'
          rw [hitems] at hitemized
          cases hitemized
      | ok itemized => exact .inr ⟨tokens, itemized, rfl, hitems, interpret_of_items htokens hitems⟩

/-- The parts of a session that no line changes. -/
theorem interpret_keeps (session : Session σ) (text : String) :
    (session.interpret text).2.lexer = session.lexer ∧
      (session.interpret text).2.executor = session.executor := by
  unfold interpret
  dsimp only
  split
  · exact ⟨rfl, rfl⟩
  · unfold runTokens
    split
    · exact ⟨rfl, rfl⟩
    · split <;> exact ⟨rfl, rfl⟩

/-- What a line does on the state of an executor alone. It fails before it does anything when it
cannot be tokenized or itemized. -/
def lineAction (lexer : Lexer) (executor : Executor σ) (text : String) (line : Nat) :
    Command.Acting σ Outcome :=
  match lexer.tokenize text with
  | .error fault => throw (.lex { fault with line := line + fault.line - 1 })
  | .ok tokens =>
    match ItemizedLine.ofTokens tokens with
    | .error error => throw error
    | .ok itemized => itemized.run executor line

/-- The challenges after a line. A line that cannot be tokenized is not shown to them. -/
def bookAfter (session : Session σ) (text : String) : ChallengeBook :=
  match session.lexer.tokenize text with
  | .error _ => session.book
  | .ok tokens => session.book.check (rawText tokens)

/-- A line does its action on the state, and what it does besides does not depend on the state. -/
theorem interpret_eq_lineAction (session : Session σ) (text : String) :
    let ran :=
      (lineAction session.lexer session.executor text (session.lines + 1)).run.run session.state
    session.interpret text =
      (ran.1, ⟨session.lexer, session.executor, ran.2, session.bookAfter text,
        session.lines + 1⟩) := by
  unfold lineAction bookAfter
  cases htokens : session.lexer.tokenize text with
  | error fault =>
      have hsession : session.skipLine.tokenize text =
          .error { fault with line := session.lines + 1 + fault.line - 1 } := by
        rw [tokenize]
        exact congrArg (Except.mapError _) htokens
      unfold interpret
      simp only [hsession]
      rfl
  | ok tokens =>
      cases hitems : ItemizedLine.ofTokens tokens with
      | error error =>
          rw [interpret_of_itemFault htokens hitems]
          dsimp only
          rw [hitems]
          rfl
      | ok itemized =>
          rw [interpret_of_items htokens hitems]
          dsimp only
          rw [hitems]
          rfl

/-! ## Many lines -/

/-- What every line preserves holds after all lines. -/
theorem interpretAll_induction {P : Session σ → Prop} (lines : List String) :
    ∀ session : Session σ, P session →
    (∀ session line, P session → P (session.interpret line).2) →
    P (session.interpretAll lines).2 := by
  induction lines with
  | nil => exact fun _ h _ => h
  | cons line lines ih =>
      intro session h step
      exact ih _ (step session line h) step

theorem interpretAll_keeps (lines : List String) (session : Session σ) :
    (session.interpretAll lines).2.lexer = session.lexer ∧
      (session.interpretAll lines).2.executor = session.executor := by
  refine interpretAll_induction
    (P := fun after => after.lexer = session.lexer ∧ after.executor = session.executor)
    lines session ⟨rfl, rfl⟩ ?_
  rintro before line ⟨hlexer, hexecutor⟩
  obtain ⟨hlexer', hexecutor'⟩ := before.interpret_keeps line
  exact ⟨hlexer'.trans hlexer, hexecutor'.trans hexecutor⟩

end QubitScript.Session
