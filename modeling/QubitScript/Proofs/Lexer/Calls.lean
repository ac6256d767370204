import QubitScript.Proofs.Lexer.CommandRules

/-!
# The texts of calls

What the rule for calls takes: a name of word characters and, in parentheses, characters of one line
with at most one more level of parentheses among them. Quotes mean nothing to the rule.
-/

namespace QubitScript

open QubitScript.Text

/-- A character other than a parenthesis or a line break. -/
def Plain (c : Char) : Prop := c ≠ '(' ∧ c ≠ ')' ∧ c ≠ '\n'

/-- Plain characters, and among them plain characters in parentheses. -/
inductive Enclosed : List Char → Prop
  | nil : Enclosed []
  | char {c : Char} {rest : List Char} : Plain c → Enclosed rest → Enclosed (c :: rest)
  | nested {inner rest : List Char} :
      (∀ c ∈ inner, Plain c) → Enclosed rest → Enclosed ('(' :: (inner ++ ')' :: rest))

/-- A name with what it encloses in parentheses. -/
structure CallText (text name inner : List Char) : Prop where
  text : text = name ++ '(' :: (inner ++ [')'])
  nonempty : name ≠ []
  word : ∀ c ∈ name, isWord c = true
  enclosed : Enclosed inner

/-! ## Characters of the rule -/

theorem contains_plainSet {c : Char} : plainSet.contains c = true ↔ Plain c := by
  rw [plainSet, CharSet.contains_compl, CharSet.contains_union, CharSet.contains_union]
  constructor
  · intro h
    refine ⟨?_, ?_, ?_⟩ <;> rintro rfl <;> simp [contains_single.mpr] at h
  · intro h
    simp [← Bool.not_eq_true, contains_single, h.1, h.2.1, h.2.2]

theorem ne_opening_of_isWord {c : Char} (h : isWord c = true) : c ≠ '(' := by
  rintro rfl
  exact absurd h (by decide)

/-! ## The rule -/

namespace Pattern

theorem Takes.eq_of_single {c : Char} {taken : List Char}
    (h : (Pattern.oneOfEach [.single c]).Takes taken) : taken = [c] := by
  obtain ⟨d, rfl, hd⟩ := h.eq_singleton
  rw [contains_single.mp hd]

end Pattern

/-- The characters of a round of the rule: one plain character, or some in parentheses. -/
theorem enclosed_of_takes {number other : Option Nat} {greedy lazy : Bool} {text : List Char}
    (h : (Pattern.star none greedy (.alt number (.oneOfEach [plainSet])
      (.seq (.seq (.oneOfEach [.single '(']) (.star other lazy (.oneOfEach [plainSet])))
        (.oneOfEach [.single ')'])))).Takes text) : Enclosed text := by
  refine h.star_induction .nil fun before after hround hafter => ?_
  cases hround with
  | left hchar =>
      obtain ⟨c, rfl, hc⟩ := hchar.eq_singleton
      exact .char (contains_plainSet.mp hc) hafter
  | right hnested =>
      cases hnested with
      | seq hfront hclosing =>
          cases hfront with
          | @seq _ _ _ inner hopening hinner =>
              have hplain : ∀ c ∈ inner, Plain c := fun c hc =>
                contains_plainSet.mp (hinner.forall_contains c hc)
              rw [hopening.eq_of_single, hclosing.eq_of_single]
              simpa using Enclosed.nested hplain hafter

/-- The parts of a call: its first character, the rest of its name, and what it encloses. -/
theorem exists_parts_of_takes {caseSensitive : Bool} {text : List Char}
    (h : (callPattern caseSensitive).Takes text) : ∃ first others inner,
      text = first :: others ++ '(' :: (inner ++ [')']) ∧
      (callStart caseSensitive).contains first = true ∧ (∀ c ∈ others, isWord c = true) ∧
      Enclosed inner := by
  cases h with
  | seq hfront hclosing =>
      cases hfront with
      | seq hopened hinner =>
          cases hopened with
          | seq hname hopening =>
              cases hname with
              | @seq _ _ start others hstart hothers =>
                  obtain ⟨first, rfl, hfirst⟩ := hstart.eq_singleton
                  refine ⟨first, others, _, ?_, hfirst, hothers.forall_contains,
                    enclosed_of_takes hinner⟩
                  rw [hopening.eq_of_single, hclosing.eq_of_single]
                  simp

theorem callText_of_takes {caseSensitive : Bool} {text : List Char}
    (h : (callPattern caseSensitive).Takes text) : ∃ name inner, CallText text name inner := by
  obtain ⟨first, others, inner, rfl, hfirst, hothers, hinner⟩ := exists_parts_of_takes h
  have hword : ∀ c ∈ first :: others, isWord c = true :=
    List.forall_mem_cons.mpr ⟨isWord_of_callStart hfirst, hothers⟩
  exact ⟨first :: others, inner, rfl, nofun, hword, hinner⟩

/-- A call token of the command notation is a name with what it encloses in parentheses. -/
theorem callText_of_tokenize {options : LexerOptions} {lexer : Lexer}
    (hlexer : Lexer.build commandRules options = .ok lexer) {text : String} {tokens : List Token}
    (htokens : lexer.tokenize text = .ok tokens) {token : Token} (htoken : token ∈ tokens)
    (hcall : token.kind = Kind.call) :
    ∃ name inner, CallText token.lexeme.toList name inner := by
  have htakes : (callPattern options.caseSensitive).Takes token.lexeme.toList :=
    takes_of_commandToken hlexer htokens htoken (by rw [hcall]; rfl)
  exact callText_of_takes htakes

end QubitScript
