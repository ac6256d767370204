import QubitScript.Proofs.Session.Effects

/-!
# Lines are counted

Every line of a session counts, whether it succeeds, fails or is skipped, and so does every line of
a script. A script ends with the first line that fails.
-/

namespace QubitScript

namespace Session

/-- What can be done with a session between two lines that matter: interpreting a line, or counting
one. -/
inductive Step
  | line (text : String)
  | skip

variable {σ : Type}

def step (session : Session σ) : Step → Session σ
  | .line text => (session.interpret text).2
  | .skip => session.skipLine

/-- The session after some steps, whether the lines have succeeded or failed. -/
def after (session : Session σ) (steps : List Step) : Session σ := steps.foldl step session

theorem lines_interpret (session : Session σ) (text : String) :
    (session.interpret text).2.lines = session.lines + 1 := by
  unfold interpret
  dsimp only
  split
  · rfl
  · unfold runTokens
    split
    · rfl
    · split <;> rfl

/-- Every step counts one line, and the lexer and the executor stay what they are. -/
theorem step_counts (session : Session σ) (step : Step) :
    (session.step step).lexer = session.lexer ∧ (session.step step).executor = session.executor ∧
      (session.step step).lines = session.lines + 1 := by
  cases step with
  | line text =>
      obtain ⟨hlexer, hexecutor⟩ := session.interpret_keeps text
      exact ⟨hlexer, hexecutor, session.lines_interpret text⟩
  | skip => exact ⟨rfl, rfl, rfl⟩

theorem after_counts (steps : List Step) : ∀ session : Session σ,
    (session.after steps).lexer = session.lexer ∧
      (session.after steps).executor = session.executor ∧
      (session.after steps).lines = session.lines + steps.length := by
  induction steps with
  | nil => exact fun _ => ⟨rfl, rfl, rfl⟩
  | cons step steps ih =>
      intro session
      obtain ⟨hlexer, hexecutor, hlines⟩ := session.step_counts step
      obtain ⟨hlexer', hexecutor', hlines'⟩ := ih (session.step step)
      refine ⟨hlexer'.trans hlexer, hexecutor'.trans hexecutor, hlines'.trans ?_⟩
      rw [hlines, List.length_cons]
      omega

end Session

/-! ## Lines of a script -/

namespace Script

theorem not_mem_dropReturn {c : Char} {line : List Char} (h : c ∉ line) : c ∉ dropReturn line := by
  rw [dropReturn]
  split
  · exact fun hc => h ((List.dropLast_sublist _).mem hc)
  · exact h

theorem not_mem_splitLines {text : List Char} : ∀ {piece : List Char}, '\n' ∉ piece →
    ∀ line ∈ splitLines piece text, '\n' ∉ line := by
  induction text with
  | nil =>
      intro piece hpiece line hline
      rw [splitLines] at hline
      split at hline
      · cases hline
      · cases List.mem_singleton.mp hline
        rwa [List.mem_reverse]
  | cons c text ih =>
      intro piece hpiece line hline
      rw [splitLines.eq_def] at hline
      split at hline
      next heq => cases heq
      next heq =>
        cases heq
        rcases List.mem_cons.mp hline with rfl | hline
        · exact not_mem_dropReturn (by rwa [List.mem_reverse])
        · exact ih List.not_mem_nil line hline
      next hbreak heq =>
        cases heq
        refine ih ?_ line hline
        rw [List.mem_cons, not_or]
        refine ⟨?_, hpiece⟩
        rintro rfl
        exact hbreak rfl

/-- The lines of a script have no line breaks in them. -/
theorem not_mem_newline_of_mem_lines {source line : String} (h : line ∈ lines source) :
    '\n' ∉ line.toList := by
  obtain ⟨text, htext, rfl⟩ := List.mem_map.mp h
  rw [String.toList_ofList]
  exact not_mem_splitLines List.not_mem_nil text htext

theorem step_of_blank (showValues : Bool) (session : Session Machine) {line : String}
    (h : isBlankLine line = true) : step showValues session line = (.ok (), session.skipLine) := by
  rw [step, if_pos h]

theorem step_of_error {showValues : Bool} {session : Session Machine} {line : String}
    (hline : isBlankLine line = false) {error : LineError}
    (h : (session.interpret line).1 = .error error) :
    (step showValues session line).1 = .error error := by
  rw [step, hline, if_neg (by decide)]
  rcases hran : session.interpret line with ⟨result, after⟩
  rw [hran] at h
  cases h
  rfl

/-- Every line of a script counts, a blank one too. -/
theorem step_counts (showValues : Bool) (session : Session Machine) (line : String) :
    (step showValues session line).2.lexer = session.lexer ∧
      (step showValues session line).2.executor = session.executor ∧
      (step showValues session line).2.lines = session.lines + 1 := by
  obtain ⟨hlexer, hexecutor, hlines⟩ := session.step_counts (.line line)
  rw [step]
  split
  · exact ⟨rfl, rfl, rfl⟩
  · split
    next hinterpret =>
      have hsession := congrArg Prod.snd hinterpret
      cases hsession
      exact ⟨hlexer, hexecutor, hlines⟩
    next hinterpret =>
      have hsession := congrArg Prod.snd hinterpret
      cases hsession
      split <;> exact ⟨hlexer, hexecutor, hlines⟩

theorem runLines_of_blank {showValues : Bool} {session : Session Machine} {line : String}
    {rest : List String} (h : isBlankLine line = true) :
    runLines showValues session (line :: rest) = runLines showValues session.skipLine rest := by
  rw [runLines, step_of_blank showValues session h]

theorem runLines_of_error {showValues : Bool} {session : Session Machine} {line : String}
    {rest : List String} {error : LineError} (h : (step showValues session line).1 = .error error) :
    (runLines showValues session (line :: rest)).1 = .error error := by
  rw [runLines]
  rcases hstep : step showValues session line with ⟨result, after⟩
  rw [hstep] at h
  cases h
  rfl

/-- Lines fail when all lines up to one succeed, and that one fails. -/
theorem runLines_eq_error {showValues : Bool} {error : LineError} {texts : List String} :
    ∀ {session : Session Machine}, (runLines showValues session texts).1 = .error error →
    ∃ before failing rest between, texts = before ++ failing :: rest ∧
      runLines showValues session before = (.ok (), between) ∧
      (step showValues between failing).1 = .error error ∧
      between.lexer = session.lexer ∧ between.executor = session.executor ∧
      between.lines = session.lines + before.length := by
  induction texts with
  | nil => exact nofun
  | cons text texts ih =>
      intro session h
      have hcounts := step_counts showValues session text
      rw [runLines] at h
      rcases hstep : step showValues session text with ⟨found | _, next⟩
      · rw [hstep] at h
        cases h
        exact ⟨[], text, texts, session, rfl, rfl, congrArg Prod.fst hstep, rfl, rfl, rfl⟩
      · rw [hstep] at h hcounts
        obtain ⟨hlexer, hexecutor, hlines⟩ := hcounts
        obtain ⟨before, failing, rest, between, rfl, hbefore, hfailing, hlexer', hexecutor',
          hlines'⟩ :=
          ih h
        refine ⟨text :: before, failing, rest, between, rfl, ?_, hfailing, hlexer'.trans hlexer,
          hexecutor'.trans hexecutor, ?_⟩
        · rw [runLines, hstep]
          exact hbefore
        · dsimp only at hlines
          rw [hlines', hlines, List.length_cons]
          omega

theorem interpret_of_step {showValues : Bool} {session : Session Machine} {text : String}
    {error : LineError} (h : (step showValues session text).1 = .error error) :
    (session.interpret text).1 = .error error := by
  rw [step] at h
  split at h
  · cases h
  · split at h
    next hinterpret =>
      cases h
      exact congrArg Prod.fst hinterpret
    next => cases h

end Script

end QubitScript
