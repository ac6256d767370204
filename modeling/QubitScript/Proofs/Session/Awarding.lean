import QubitScript.Proofs.Session.Challenges
import QubitScript.Proofs.Session.Replay

/-!
# Awards for gates

A gate is applied whatever the case of its name is and wherever there are blanks in the parentheses.
The challenges look at the text as it was written. So of the calls that apply a gate to qubits with
simple names, just those without blanks earn its challenge, and for the Hadamard gate just those
with one of four spellings of the name.
-/

namespace QubitScript

open QubitScript.Text

/-! ## Names of gates -/

namespace Gate

variable {name : String} {gate : Gate}

theorem lower_of_ofName? (h : ofName? name = some gate) : (name.toLower, gate) ∈ aliases := by
  obtain ⟨before, after, heq, -⟩ := List.lookup_eq_some_iff.mp h
  rw [heq]
  exact List.mem_append_right _ (.head _)

theorem toList_toLower : name.toLower.toList = name.toList.map Char.toLower :=
  String.toList_map

theorem eq_of_toLower {c : Char} (h : c.toLower = 'e') : c = 'e' ∨ c = 'E' := by
  by_cases hupper : 'A'.val ≤ c.val ∧ c.val ≤ 'Z'.val
  · have hval : c.val + ('a'.val - 'A'.val) = 'E'.val + ('a'.val - 'A'.val) :=
      congrArg Char.val ((dif_pos hupper).symm.trans h)
    exact .inr (Char.ext ((UInt32.add_left_inj _).mp hval))
  · exact .inl ((dif_neg hupper).symm.trans h)

/-- Every name for entangling ends in one of the spellings, if only in its last letter. -/
theorem suffix_of_entangle (h : ofName? name = some .entangle) :
    ∃ spelling ∈ entangleSpellings, spelling.toList <:+ name.toList := by
  have hlower : name.toLower = "e" ∨ name.toLower = "entangle" := by
    simpa [aliases] using lower_of_ofName? h
  have hlast : (name.toList.map Char.toLower).getLast? = some 'e' := by
    rw [← toList_toLower]
    rcases hlower with hlower | hlower <;> rw [hlower] <;> rfl
  rw [List.getLast?_map, Option.map_eq_some_iff] at hlast
  obtain ⟨c, hc, hcase⟩ := hlast
  obtain ⟨front, hname⟩ := List.getLast?_eq_some_iff.mp hc
  rcases eq_of_toLower hcase with rfl | rfl
  · exact ⟨"e", by decide, front, hname.symm⟩
  · exact ⟨"E", by decide, front, hname.symm⟩

/-- No name for the Hadamard gate is longer than the spelling that it ends in. -/
theorem suffix_of_hadamard_iff (h : ofName? name = some .h) :
    (∃ spelling ∈ hadamardSpellings, spelling.toList <:+ name.toList) ↔
      name ∈ hadamardSpellings := by
  constructor
  · rintro ⟨spelling, hspelling, hsuffix⟩
    have hname : name.toLower ∈ ["h", "had", "hadamard"] := by
      simpa [aliases] using lower_of_ofName? h
    have hlower : (spelling.toList.map Char.toLower) <:+ name.toLower.toList := by
      rw [toList_toLower]
      exact hsuffix.map _
    have hlength : name.toLower.toList.length = name.toList.length := by
      rw [toList_toLower, List.length_map]
    have hsame : ∀ lower ∈ ["h", "had", "hadamard"], ∀ spelling ∈ hadamardSpellings,
        spelling.toList.map Char.toLower <:+ lower.toList →
        spelling.toList.length = lower.toList.length := by
      decide
    have heq := hsuffix.eq_of_length ((hsame _ hname _ hspelling hlower).trans hlength)
    exact String.toList_inj.mp heq ▸ hspelling
  · exact fun hmem => ⟨name, hmem, List.suffix_refl _⟩

end Gate

/-! ## Calls of words -/

/-- The text of a call with at least one argument, all of which are words. -/
structure WordCall (text name inner : List Char) (arguments : List (List Char)) : Prop where
  call : CallText text name inner
  split : Call.splitArguments inner = .ok arguments
  nonempty : arguments ≠ []
  words : ∀ argument ∈ arguments, IsWords argument

namespace WordCall

variable {text name inner : List Char} {arguments : List (List Char)}

theorem exists_parted (h : WordCall text name inner arguments) :
    ∃ pieces, Parted inner pieces ∧ pieces.map trim = arguments := by
  obtain ⟨pieces, hpieces⟩ := parted_of_enclosed h.call.enclosed
  have hsplit := h.split
  by_cases hblank : trim inner = []
  · rw [Call.splitArguments_blank hblank] at hsplit
    exact absurd (Except.ok.inj hsplit).symm h.nonempty
  · rw [Call.splitArguments_parted hpieces hblank] at hsplit
    split at hsplit
    · cases hsplit
    · exact ⟨pieces, hpieces, Except.ok.inj hsplit⟩

theorem not_parenthesis (h : WordCall text name inner arguments) {c : Char} (hc : c ∈ inner) :
    c ≠ '(' ∧ c ≠ ')' := by
  obtain ⟨pieces, hpieces, rfl⟩ := h.exists_parted
  rcases hpieces.mem hc with rfl | hblank | ⟨piece, hpiece, htrim⟩
  · decide
  · constructor <;> rintro rfl <;> exact absurd hblank (by decide)
  · have hword := (h.words _ (List.mem_map_of_mem hpiece)).2 c htrim
    constructor <;> rintro rfl <;> exact absurd hword (by decide)

/-- Such a text has one pair of parentheses, so what is looked for can only be the call itself. -/
theorem writes_iff (h : WordCall text name inner arguments) {spellings : List String}
    {inside : List Char → Prop} :
    Writes spellings inside text ↔
      (∃ spelling ∈ spellings, spelling.toList <:+ name) ∧ inside inner := by
  constructor
  · rintro ⟨before, spelling, inner', after, hspelling, hinside, htext⟩
    have hopening : '(' ∉ inner ++ [')'] := by
      rw [List.mem_append, List.mem_singleton]
      rintro (hmem | hclosing)
      · exact (h.not_parenthesis hmem).1 rfl
      · cases hclosing
    have hname : '(' ∉ name := h.call.not_mem_name (by decide)
    rw [h.call.text, ← List.append_assoc] at htext
    obtain ⟨hfront, -, hback⟩ := (List.append_cons_inj_of_notMem hname hopening).mp htext
    obtain ⟨rfl, -, -⟩ := (List.append_cons_inj_of_notMem
      (fun hmem => (h.not_parenthesis hmem).2 rfl) List.not_mem_nil).mp hback
    exact ⟨⟨spelling, hspelling, before, hfront.symm⟩, hinside⟩
  · rintro ⟨⟨spelling, hspelling, before, rfl⟩, hinside⟩
    refine ⟨before, spelling, inner, [], hspelling, hinside, ?_⟩
    rw [h.call.text, List.append_assoc]

theorem not_blank_iff (h : WordCall text name inner arguments) :
    (∀ c ∈ text, isBlank c = false) ↔ ∀ c ∈ inner, isBlank c = false := by
  have hname : ∀ c ∈ name, isBlank c = false := fun c hc => isBlank_of_isWord (h.call.word c hc)
  rw [h.call.text, List.forall_mem_append, List.forall_mem_cons, List.forall_mem_append,
    List.forall_mem_singleton]
  constructor
  · exact fun hall => hall.2.2.1
  · exact fun hinner => ⟨hname, by decide, hinner, by decide⟩

theorem inner_eq (h : WordCall text name inner arguments)
    (hblank : ∀ c ∈ inner, isBlank c = false) :
    inner = [','].intercalate arguments := by
  obtain ⟨pieces, hpieces, rfl⟩ := h.exists_parted
  exact hpieces.eq_intercalate hblank

end WordCall

theorem IsPair.not_blank {text : List Char} (h : IsPair text) : ∀ c ∈ text, isBlank c = false := by
  obtain ⟨first, second, hfirst, hsecond, rfl⟩ := h
  intro c hc
  rcases List.mem_append.mp hc with hc | hc
  · exact isBlank_of_isWord (hfirst.2 c hc)
  · rcases List.mem_cons.mp hc with rfl | hc
    · decide
    · exact isBlank_of_isWord (hsecond.2 c hc)

theorem IsListed.not_blank {text : List Char} (h : IsListed text) :
    ∀ c ∈ text, isBlank c = false := by
  rcases h with hwords | ⟨pieces, -, hpieces, rfl⟩
  · exact fun c hc => isBlank_of_isWord (hwords.2 c hc)
  · intro c hc
    obtain ⟨piece, hpiece, hc⟩ := List.mem_flatten.mp hc
    obtain ⟨first, second, hfirst, hsecond, rfl⟩ := hpieces piece hpiece
    rcases List.mem_append.mp hc with hc | hc
    · exact isBlank_of_isWord (hfirst c hc)
    · rcases List.mem_cons.mp hc with rfl | hc
      · decide
      · exact isBlank_of_isWord (hsecond.2 c hc)

/-- Entangling two qubits is looked for in every spelling, but without blanks. -/
theorem writes_entangle_iff {text name inner first second : List Char}
    (h : WordCall text name inner [first, second])
    (hgate : Gate.ofName? (String.ofList name) = some .entangle) :
    Writes entangleSpellings IsPair text ↔ ∀ c ∈ text, isBlank c = false := by
  rw [h.writes_iff, h.not_blank_iff]
  constructor
  · exact fun hwrites => hwrites.2.not_blank
  · intro hblank
    have hsuffix := Gate.suffix_of_entangle hgate
    rw [String.toList_ofList] at hsuffix
    obtain ⟨hfirst, hothers⟩ := List.forall_mem_cons.mp h.words
    refine ⟨hsuffix, first, second, hfirst, List.forall_mem_singleton.mp hothers, ?_⟩
    rw [h.inner_eq hblank, List.intercalate_cons_of_ne_nil (List.cons_ne_nil _ _),
      List.intercalate_singleton, List.append_assoc]
    rfl

/-- The Hadamard gate is looked for in some spellings, and without blanks. -/
theorem writes_hadamard_iff {text name inner qubit : List Char}
    (h : WordCall text name inner [qubit])
    (hgate : Gate.ofName? (String.ofList name) = some .h) :
    Writes hadamardSpellings IsListed text ↔
      (∀ c ∈ text, isBlank c = false) ∧ String.ofList name ∈ hadamardSpellings := by
  rw [h.writes_iff, h.not_blank_iff, ← Gate.suffix_of_hadamard_iff hgate, String.toList_ofList]
  constructor
  · exact fun hwrites => ⟨hwrites.2.not_blank, hwrites.1⟩
  · rintro ⟨hblank, hsuffix⟩
    refine ⟨hsuffix, .inl ?_⟩
    rw [h.inner_eq hblank, List.intercalate_singleton]
    exact List.forall_mem_singleton.mp h.words

/-! ## Lines of a session -/

theorem Writes.append {names : List String} {inside : List Char → Prop} {text : List Char}
    (h : Writes names inside text) (front back : List Char) :
    Writes names inside (front ++ text ++ back) := by
  obtain ⟨before, name, inner, after, hname, hinside, rfl⟩ := h
  refine ⟨front ++ before, name, inner, after ++ back, hname, hinside, ?_⟩
  simp

/-- What a token writes is in the text of its line. -/
theorem Writes.rawText {names : List String} {inside : List Char → Prop} {tokens : List Token}
    {token : Token} (htoken : token ∈ tokens) (h : Writes names inside token.lexeme.toList) :
    Writes names inside (rawText tokens).toList := by
  obtain ⟨before, after, rfl⟩ := List.append_of_mem htoken
  have hraw : (QubitScript.rawText (before ++ token :: after)).toList =
      (QubitScript.rawText before).toList ++ token.lexeme.toList ++
        (QubitScript.rawText after).toList := by
    simp [QubitScript.rawText, String.join_append]
  rw [hraw]
  exact h.append _ _

namespace Session

variable {σ : Type} {text : String} {tokens : List Token}

theorem book_interpret (session : Session σ) (text : String) :
    (session.interpret text).2.book = session.bookAfter text := by
  rw [interpret_eq_lineAction]

theorem book_of_tokens {session : Session σ} (htokens : session.lexer.tokenize text = .ok tokens) :
    (session.interpret text).2.book = session.book.check (QubitScript.rawText tokens) := by
  rw [book_interpret, bookAfter, htokens]

/-- The challenges of a session stay the same, whatever is awarded. -/
theorem patterns_interpretAll (lines : List String) (session : Session σ) :
    (session.interpretAll lines).2.book.patterns = session.book.patterns := by
  refine interpretAll_induction (P := fun after => after.book.patterns = session.book.patterns)
    lines session rfl fun before line hbefore => ?_
  rw [book_interpret, bookAfter]
  split
  · exact hbefore
  · exact ChallengeBook.patterns_check.trans hbefore

variable {session : Session Machine} {outcome : Outcome}

/-- A line that succeeds applies the gates of its calls and no others. -/
theorem exists_applied (hexecutor : session.executor = Machine.executor)
    (h : (session.interpret text).1 = .ok outcome) :
    ∃ tokens applied, session.lexer.tokenize text = .ok tokens ∧
      (session.interpret text).2.state.register.instructions =
        session.state.register.instructions ++ applied ∧
      ∀ instruction ∈ applied, instruction.qubits.length = instruction.gate.arity ∧
        ∃ token ∈ tokens, token.isCall ∧ ∃ site : CallSite,
          token.AsksFor (session.lines + 1) site ∧ site.instruction? = some instruction := by
  rcases interpret_machine_cases hexecutor text with
    ⟨tokens, sites, succeeding, others, hreaches, asks, rfl, stops⟩ | ⟨-, hbinds⟩
  · have hresult := stops.result
    cases others with
    | cons site others =>
        obtain ⟨error, herror, -⟩ := hresult
        cases herror.symm.trans h
    | nil =>
        refine ⟨tokens, succeeding.filterMap CallSite.instruction?, hreaches.tokenized,
          Register.instructions_applyAll stops.gates, fun instruction hinstruction => ?_⟩
        obtain ⟨site, hsite, heq⟩ := List.mem_filterMap.mp hinstruction
        obtain ⟨token, htoken, hasks⟩ := exists_of_forall₂ asks (List.mem_append_left [] hsite)
        obtain ⟨hmem, hcall⟩ := List.mem_filter.mp htoken
        exact ⟨Register.arity_of_applyAll stops.gates instruction hinstruction, token, hmem, hcall,
          site, hasks, heq⟩
  · -- A line without calls leaves the register alone.
    have hregister : (session.interpret text).2.state.register = session.state.register := by
      rcases hbinds with ⟨-, hunchanged⟩ | ⟨_, -, hregister, -⟩
      · exact hunchanged.register
      · exact hregister
    rcases interpret_cases session text with ⟨⟨error, herror⟩, -, -⟩ | ⟨tokens, _, htokens, -, -⟩
    · cases herror.symm.trans h
    · refine ⟨tokens, [], htokens, ?_, nofun⟩
      rw [hregister, List.append_nil]

/-- A call token that asks for a gate on words has the text of such a call. -/
theorem wordCall_of_asksFor {options : LexerOptions} {lexer : Lexer}
    (hlexer : Lexer.build commandRules options = .ok lexer)
    (htokens : lexer.tokenize text = .ok tokens) {token : Token} (htoken : token ∈ tokens)
    (hcall : token.isCall) {line : Nat} {site : CallSite} (hasks : token.AsksFor line site)
    (hne : site.arguments ≠ [])
    (hwords : ∀ argument ∈ site.arguments, IsWords argument.toList) :
    splitCall token.lexeme = .ok (site.name, site.arguments) ∧ ∃ inner,
      WordCall token.lexeme.toList site.name.toList inner (site.arguments.map String.toList) := by
  have hkind : token.kind = Kind.call := beq_iff_eq.mp hcall
  have hvalue := value_of_commandToken hlexer htokens htoken (by rw [hkind]; decide)
  obtain ⟨lexeme, hlexeme, hsplit, -, -⟩ := hasks
  cases hvalue.symm.trans hlexeme
  obtain ⟨name, inner, htext⟩ := callText_of_tokenize hlexer htokens htoken hkind
  obtain ⟨front, pieces, hpieces, hname, harguments⟩ := splitCall_eq_ok.mp hsplit
  obtain ⟨_, hinner, ⟨⟩⟩ := map_eq_ok.mp (htext.split.symm.trans hpieces)
  have htoList : site.arguments.map String.toList = pieces := by
    rw [← harguments, List.map_map]
    simp [Function.comp_def]
  refine ⟨hsplit, inner, ?_⟩
  rw [← hname, String.toList_ofList, htoList]
  refine ⟨htext, hinner, fun hnone => hne ?_, fun argument hargument => ?_⟩
  · rw [← harguments, hnone]
    rfl
  · rw [← htoList] at hargument
    obtain ⟨_, hmem, rfl⟩ := List.mem_map.mp hargument
    exact hwords _ hmem

end Session

/-- In a session with the built-in challenges a line that succeeds earns the first one if its text
writes a pair of words in parentheses after a spelling of entangling, and the second one if it
writes words in parentheses after some spellings of the Hadamard gate. The line may apply these
gates to qubits named by words without earning anything: a call of either gate is such a text if
there are no blanks in it, and for the Hadamard gate only if the name is written in one of four
ways. -/
theorem challenges_of_applied_gates {options : LexerOptions} {start : Session Machine}
    (hstart : Session.start options = .ok start) (lines : List String) {text : String}
    {outcome : Outcome} (hline : ((start.interpretAll lines).2.interpret text).1 = .ok outcome) :
    let session := (start.interpretAll lines).2
    let after := (session.interpret text).2
    ∃ tokens applied, session.lexer.tokenize text = .ok tokens ∧
      after.state.register.instructions = session.state.register.instructions ++ applied ∧
      (after.book.isAwarded 1 = true ↔ session.book.isAwarded 1 = true ∨
        Writes entangleSpellings IsPair (rawText tokens).toList) ∧
      (after.book.isAwarded 2 = true ↔ session.book.isAwarded 2 = true ∨
        Writes hadamardSpellings IsListed (rawText tokens).toList) ∧
      ∀ instruction ∈ applied, (∀ qubit ∈ instruction.qubits, IsWords qubit.toList) →
        ∃ token ∈ tokens, ∃ name, splitCall token.lexeme = .ok (name, instruction.qubits) ∧
          Gate.ofName? name = some instruction.gate ∧
          (instruction.gate = .entangle →
            (Writes entangleSpellings IsPair token.lexeme.toList ↔
              ∀ c ∈ token.lexeme.toList, isBlank c = false) ∧
            ((∀ c ∈ token.lexeme.toList, isBlank c = false) → after.book.isAwarded 1 = true)) ∧
          (instruction.gate = .h →
            (Writes hadamardSpellings IsListed token.lexeme.toList ↔
              (∀ c ∈ token.lexeme.toList, isBlank c = false) ∧ name ∈ hadamardSpellings) ∧
            ((∀ c ∈ token.lexeme.toList, isBlank c = false) → name ∈ hadamardSpellings →
              after.book.isAwarded 2 = true)) := by
  intro session after
  obtain ⟨lexer, hlexer, rfl⟩ := Session.start_eq_ok hstart
  obtain ⟨hsession, hexecutor⟩ := Session.interpretAll_keeps lines
    (.new lexer Machine.executor .new .default)
  have hexecutor : session.executor = Machine.executor := hexecutor
  obtain ⟨tokens, applied, htokens, hinstructions, hasked⟩ :=
    Session.exists_applied hexecutor hline
  have hbook : after.book = session.book.check (rawText tokens) := Session.book_of_tokens htokens
  have hpatterns : session.book.patterns = ChallengeBook.default.patterns :=
    Session.patterns_interpretAll lines _
  obtain ⟨hfirst, hsecond⟩ := isAwarded_check_default hpatterns (rawText tokens)
  rw [← hbook] at hfirst hsecond
  refine ⟨tokens, applied, htokens, hinstructions, hfirst, hsecond,
    fun instruction hinstruction hwords => ?_⟩
  obtain ⟨harity, token, htoken, hcall, site, hasks, hsite⟩ := hasked instruction hinstruction
  rw [CallSite.instruction?, Option.map_eq_some_iff] at hsite
  obtain ⟨gate, hgate, rfl⟩ := hsite
  have hne : site.arguments ≠ [] := by
    rintro hnone
    rw [hnone] at harity
    cases gate <;> cases harity
  have hbuilt : Lexer.build commandRules options = .ok session.lexer :=
    hlexer.trans (congrArg Except.ok hsession.symm)
  obtain ⟨hsplit, inner, hword⟩ :=
    Session.wordCall_of_asksFor hbuilt htokens htoken hcall hasks hne hwords
  refine ⟨token, htoken, site.name, hsplit, hgate, ?_, ?_⟩
  · rintro rfl
    obtain ⟨first, second, harguments⟩ : ∃ first second, site.arguments = [first, second] :=
      List.length_eq_two.mp harity
    rw [harguments] at hword
    have hwrites := writes_entangle_iff hword (by rwa [String.ofList_toList])
    exact ⟨hwrites, fun hblank => hfirst.mpr (.inr (.rawText htoken (hwrites.mpr hblank)))⟩
  · rintro rfl
    obtain ⟨qubit, harguments⟩ : ∃ qubit, site.arguments = [qubit] :=
      List.length_eq_one_iff.mp harity
    rw [harguments] at hword
    have hwrites := writes_hadamard_iff hword (by rwa [String.ofList_toList])
    rw [String.ofList_toList] at hwrites
    exact ⟨hwrites, fun hblank hname =>
      hsecond.mpr (.inr (.rawText htoken (hwrites.mpr ⟨hblank, hname⟩)))⟩

/-- Entangling two qubits with a blank before the second one earns nothing. -/
theorem entangling_with_blank_unrewarded : ∃ start outcome, Session.start {} = .ok start ∧
    (start.interpret "entangle(a, b)").1 = .ok outcome ∧
    (start.interpret "entangle(a, b)").2.state.register.instructions = [⟨.entangle, ["a", "b"]⟩] ∧
    (start.interpret "entangle(a, b)").2.book.isAwarded 1 = false := by
  obtain ⟨start, hstart, hscan, hruns, hinstructions⟩ : ∃ start, Session.start {} = .ok start ∧
      (start.lexer.tokenize "entangle(a, b)").toOption =
        some [.plain Kind.call "entangle(a, b)"] ∧
      (start.interpret "entangle(a, b)").1.toOption.isSome = true ∧
      (start.interpret "entangle(a, b)").2.state.register.instructions =
        [⟨.entangle, ["a", "b"]⟩] :=
    ⟨_, Session.start_of_build (build_commandRules {}), by decide +kernel, by decide +kernel,
      by decide +kernel⟩
  cases houtcome : (start.interpret "entangle(a, b)").1 with
  | error error =>
      rw [houtcome] at hruns
      cases hruns
  | ok outcome =>
      obtain ⟨tokens, applied, htokens, happlied, hawarded, -, hcalls⟩ :=
        challenges_of_applied_gates hstart [] houtcome
      have htokens : start.lexer.tokenize "entangle(a, b)" = .ok tokens := htokens
      rw [htokens] at hscan
      cases hscan
      obtain ⟨lexer, -, rfl⟩ := Session.start_eq_ok hstart
      obtain rfl : [⟨.entangle, ["a", "b"]⟩] = applied := hinstructions.symm.trans happlied
      obtain ⟨token, htoken, _, -, -, hentangle, -⟩ := hcalls _ (.head _) (by decide)
      obtain rfl := List.mem_singleton.mp htoken
      obtain ⟨hwrites, -⟩ := hentangle rfl
      refine ⟨_, outcome, hstart, houtcome, hinstructions, Bool.eq_false_iff.mpr fun hbook => ?_⟩
      rcases hawarded.mp hbook with hbefore | hwritten
      · cases hbefore
      · exact absurd (hwrites.mp hwritten ' ' (by decide)) (by decide)

/-- One name of the Hadamard gate is among its spellings and another one is not. -/
example :
    let start := Session.new (commandLexer {}) Machine.executor .new .default
    (["had(q)", "hadamard(q)"].map fun line =>
      ((start.interpret line).2.state.register.instructions,
        (start.interpret line).2.book.isAwarded 2)) =
      [([⟨.h, ["q"]⟩], false), ([⟨.h, ["q"]⟩], true)] := by
  decide +kernel

end QubitScript
