import QubitScript.Proofs.Expr.FaultLines

/-!
# Lines of tokens

A token of a text carries the line that it stands on, and the end after the last token the line of
the end of the text. Only a line break is off by one: it carries the line that it begins, not the
one that it ends. So an expression that ends too early is reported on its line where the text ends
there, and on the next line where a line break ends it.
-/

namespace QubitScript.Expr

/-- The tokens of a text, each with what stands before it. Before the text itself stands
`before`. -/
inductive PlacedFrom : List Char → List Char → List (List Char × Token) → Prop
  | nil {before : List Char} : PlacedFrom before [] []
  | gap {before taken after : List Char} {c : Char} {placed : List (List Char × Token)} :
      cut c (taken ++ after) = (.gap, after) → PlacedFrom (before ++ c :: taken) after placed →
      PlacedFrom before (c :: (taken ++ after)) placed
  | token {before taken after : List Char} {c : Char} {token : Token}
      {placed : List (List Char × Token)} :
      cut c (taken ++ after) = (.token token, after) →
      PlacedFrom (before ++ c :: taken) after placed →
      PlacedFrom before (c :: (taken ++ after)) ((before, token) :: placed)

/-- A token on the line that it stands on in a text that begins on `line`, and a line break on the
next one. -/
def locate (line : Nat) : List Char × Token → Located Token
  | (before, .lineEnd) => ⟨line + before.count '\n' + 1, .lineEnd⟩
  | (before, token) => ⟨line + before.count '\n', token⟩

/-! ## Line breaks among the pieces -/

theorem lineEnd_iff_of_cut {c : Char} {rest after : List Char} {token : Token}
    (h : cut c rest = (.token token, after)) : token = .lineEnd ↔ c = '\n' := by
  constructor
  · rintro rfl
    unfold cut at h
    split at h
    · cases h
    · split at h
      · obtain ⟨_, -, -, htext⟩ := quotedPiece_eq_token h
        cases htext
      · split at h
        · cases h
        · split at h
          · rw [numberPiece_eq] at h
            split at h
            · cases h
            · unfold integerPiece at h
              split at h <;> cases h
          · split at h
            next single =>
              cases h
              unfold Token.single? at single
              split at single <;> first | rfl | cases single
            next => cases h
  · rintro rfl
    cases h
    rfl

theorem ne_lineBreak_of_gap {c : Char} {rest after : List Char} (h : cut c rest = (.gap, after)) :
    c ≠ '\n' := by
  rintro rfl
  cases h

theorem not_mem_taken {c : Char} {taken after : List Char} {piece : Piece}
    (h : cut c (taken ++ after) = (piece, after)) : '\n' ∉ taken := by
  have hcount := count_cut_lineBreak c (taken ++ after)
  rw [h, List.count_append] at hcount
  dsimp only at hcount
  exact List.count_eq_zero.mp (by omega)

/-- The line after a piece, which is the next one if the piece is a line break. -/
theorem line_after_piece {c : Char} {taken after : List Char} {piece : Piece}
    (h : cut c (taken ++ after) = (piece, after)) (line : Nat) (before : List Char) :
    line + (before ++ c :: taken).count '\n' =
      if c == '\n' then line + before.count '\n' + 1 else line + before.count '\n' := by
  rw [List.count_append, List.count_cons, List.count_eq_zero.mpr (not_mem_taken h)]
  split <;> omega

theorem mem_lineBreak_cut {c : Char} (hc : c ≠ '\n') (rest : List Char) :
    '\n' ∈ c :: rest ↔ '\n' ∈ (cut c rest).2 := by
  rw [List.mem_cons, or_iff_right hc.symm, ← List.count_pos_iff, ← List.count_pos_iff,
    count_cut_lineBreak]

/-- What is cut off at the front of a text, and the text after it. -/
theorem exists_taken {c : Char} {rest after : List Char} {piece : Piece}
    (h : cut c rest = (piece, after)) : ∃ taken, rest = taken ++ after := by
  obtain ⟨taken, htaken⟩ := cut_suffix c rest
  rw [h] at htaken
  exact ⟨taken, htaken.symm⟩

theorem locate_of_cut {c : Char} {rest after : List Char} {token : Token}
    (h : cut c rest = (.token token, after)) (line : Nat) (before : List Char) :
    locate line (before, token) =
      ⟨if c == '\n' then line + before.count '\n' + 1 else line + before.count '\n', token⟩ := by
  by_cases hc : c = '\n'
  · rw [(lineEnd_iff_of_cut h).mpr hc, if_pos (beq_iff_eq.mpr hc), locate]
  · have hother : token ≠ .lineEnd := fun hend => hc ((lineEnd_iff_of_cut h).mp hend)
    rw [if_neg (by simpa using hc), locate]
    exact hother

/-! ## Tokens of a text -/

variable {line : Nat}

theorem placed_of_tokenize {text : List Char} :
    ∀ {before : List Char} {located : List (Located Token)},
    tokenize text (line + before.count '\n') = .ok located →
    ∃ placed, PlacedFrom before text placed ∧
      located = placed.map (locate line) ++ [⟨line + (before ++ text).count '\n', .lineEnd⟩] := by
  induction text using cut_induction with
  | nil =>
      intro before located h
      rw [tokenize_nil] at h
      cases h
      exact ⟨[], .nil, by rw [List.append_nil, List.map_nil, List.nil_append]⟩
  | piece c rest ih =>
      intro before located h
      rcases hcut : cut c rest with ⟨piece, after⟩
      rw [hcut] at ih
      obtain ⟨taken, rfl⟩ := exists_taken hcut
      have hnext := line_after_piece hcut line before
      have hsplit : before ++ c :: (taken ++ after) = before ++ c :: taken ++ after := by simp
      rw [hsplit]
      cases piece with
      | fault fault =>
          rw [tokenize_fault hcut] at h
          cases h
      | gap =>
          rw [if_neg (by simpa using ne_lineBreak_of_gap hcut)] at hnext
          rw [tokenize_gap hcut, ← hnext] at h
          obtain ⟨placed, hplaced, rfl⟩ := ih h
          exact ⟨placed, .gap hcut hplaced, rfl⟩
      | token token =>
          rw [tokenize_token_eq hcut, ← hnext] at h
          obtain ⟨others, hothers, rfl⟩ := map_eq_ok.mp h
          obtain ⟨placed, hplaced, rfl⟩ := ih hothers
          refine ⟨(before, token) :: placed, .token hcut hplaced, ?_⟩
          rw [List.map_cons, locate_of_cut hcut, ← hnext, List.cons_append]

theorem tokenize_of_placed {before text : List Char} {placed : List (List Char × Token)}
    (h : PlacedFrom before text placed) :
    tokenize text (line + before.count '\n') =
      .ok (placed.map (locate line) ++ [⟨line + (before ++ text).count '\n', .lineEnd⟩]) := by
  induction h with
  | nil => rw [tokenize_nil, List.append_nil, List.map_nil, List.nil_append]
  | @gap before taken after c placed hcut _ ih =>
      have hnext := line_after_piece hcut line before
      rw [if_neg (by simpa using ne_lineBreak_of_gap hcut)] at hnext
      rw [tokenize_gap hcut, ← hnext, ih, List.append_assoc, List.cons_append]
  | @token before taken after c token placed hcut _ ih =>
      rw [tokenize_token_eq hcut, ← line_after_piece hcut, ih, List.map_cons, locate_of_cut hcut,
        ← line_after_piece hcut, List.append_assoc, List.cons_append]
      rfl

/-- The first end of a line among the tokens of a text: its first line break, if it has one. -/
theorem exists_first_end {text : List Char} : ∀ {located : List (Located Token)},
    tokenize text line = .ok located →
    ∃ before last after, located = before ++ last :: after ∧
      (∀ token ∈ before, token.item ≠ .lineEnd) ∧ last.item = .lineEnd ∧
      last.line = if '\n' ∈ text then line + 1 else line := by
  induction text using cut_induction with
  | nil =>
      intro located h
      rw [tokenize_nil] at h
      cases h
      exact ⟨[], _, [], rfl, by simp, rfl, rfl⟩
  | piece c rest ih =>
      intro located h
      have hmem : c ≠ '\n' → ('\n' ∈ c :: rest ↔ '\n' ∈ (cut c rest).2) :=
        fun hc => mem_lineBreak_cut hc rest
      rcases hcut : cut c rest with ⟨piece, after⟩
      rw [hcut] at ih hmem
      cases piece with
      | fault fault =>
          rw [tokenize_fault hcut] at h
          cases h
      | gap =>
          rw [tokenize_gap hcut] at h
          simp only [hmem (ne_lineBreak_of_gap hcut)]
          exact ih h
      | token token =>
          -- The first line break is the first end; up to it all tokens stand on the line of the
          -- text.
          by_cases hc : c = '\n'
          · have hend := (lineEnd_iff_of_cut hcut).mpr hc
            rw [tokenize_token_eq hcut, hend, if_pos (beq_iff_eq.mpr hc)] at h
            obtain ⟨others, -, rfl⟩ := map_eq_ok.mp h
            refine ⟨[], _, others, rfl, by simp, rfl, ?_⟩
            rw [if_pos (List.mem_cons.mpr (.inl hc.symm))]
          · have hother : token ≠ .lineEnd := fun hend => hc ((lineEnd_iff_of_cut hcut).mp hend)
            rw [tokenize_token hcut hc] at h
            obtain ⟨others, hothers, rfl⟩ := map_eq_ok.mp h
            obtain ⟨before, last, after, rfl, hbefore, hlast⟩ := ih hothers
            simp only [hmem hc]
            exact ⟨⟨line, token⟩ :: before, last, after, rfl,
              List.forall_mem_cons.mpr ⟨hother, hbefore⟩, hlast⟩

/-! ## Texts that end too early -/

variable {source : String} {last : Nat}

theorem not_leftOver_of_unexpectedEnd {tokens : List (Located Token)} :
    ¬ LeftOver ⟨last, .unexpectedEnd⟩ tokens := by
  rintro ⟨_, -, h⟩
  cases h

/-- Whatever is parsed, a text that ends too early does so at its first end of a line. -/
theorem line_of_unexpectedEnd {α : Type} {parse : List (Located Token) → Except ParseError α}
    (hparse : FaultsAtTokens parse)
    (h : tokensOf source line >>= parse = .error ⟨last, .unexpectedEnd⟩) :
    last = if '\n' ∈ source.toList then line + 1 else line := by
  rcases bind_eq_error.mp h with h | ⟨tokens, htokens, h⟩
  · obtain ⟨_, -, h⟩ := mapError_eq_error.mp h
    cases h
  · obtain ⟨before, found, after, rfl, hbefore, hend, hline⟩ :=
      exists_first_end (mapError_eq_ok.mp htokens)
    rcases hparse h with h | h
    · exact (h.line_eq hbefore hend rfl).trans hline
    · exact absurd h not_leftOver_of_unexpectedEnd

/-- The line of every token of a text, and the line of an end that comes too early. The end after
the last token stands at the end of the text. -/
theorem lines_of_tokens (source : String) (line : Nat) :
    (∀ located, tokenize source.toList line = .ok located ↔
      ∃ placed, PlacedFrom [] source.toList placed ∧
        located = placed.map (locate line) ++ [⟨line + source.toList.count '\n', .lineEnd⟩]) ∧
    ∀ last, read source line = .error ⟨last, .unexpectedEnd⟩ ∨
        Assignment.read source line = .error ⟨last, .unexpectedEnd⟩ →
      last = if '\n' ∈ source.toList then line + 1 else line := by
  refine ⟨fun located => ⟨@placed_of_tokenize line _ [] located, ?_⟩, ?_⟩
  · rintro ⟨placed, hplaced, rfl⟩
    exact tokenize_of_placed hplaced
  · rintro last (h | h)
    · exact line_of_unexpectedEnd faultsAtTokens_parseWhole h
    · exact line_of_unexpectedEnd faultsAtTokens_parseAssignment h

/-- A sum that the end of line one cuts short, which is reported on line two. -/
theorem lines_of_broken_sum :
    tokenize "1 +\n2".toList 1 =
      .ok [⟨1, .integer 1⟩, ⟨1, .plus⟩, ⟨2, .lineEnd⟩, ⟨2, .integer 2⟩, ⟨2, .lineEnd⟩] ∧
    read "1 +\n2" 1 = .error ⟨2, .unexpectedEnd⟩ ∧
    2 = if '\n' ∈ "1 +\n2".toList then 1 + 1 else 1 := by
  have hread : read "1 +\n2" 1 = .error ⟨2, .unexpectedEnd⟩ := by with_unfolding_all rfl
  have hplaced : PlacedFrom [] "1 +\n2".toList
      [([], .integer 1), (['1', ' '], .plus), (['1', ' ', '+'], .lineEnd),
        (['1', ' ', '+', '\n'], .integer 2)] :=
    @PlacedFrom.token _ [] _ _ _ _ (by with_unfolding_all rfl) <|
    @PlacedFrom.gap _ [] _ _ _ (by with_unfolding_all rfl) <|
    @PlacedFrom.token _ [] _ _ _ _ (by with_unfolding_all rfl) <|
    @PlacedFrom.token _ [] _ _ _ _ (by with_unfolding_all rfl) <|
    @PlacedFrom.token _ [] _ _ _ _ (by with_unfolding_all rfl) .nil
  exact ⟨((lines_of_tokens "1 +\n2" 1).1 _).mpr ⟨_, hplaced, by with_unfolding_all rfl⟩, hread,
    (lines_of_tokens "1 +\n2" 1).2 2 (.inl hread)⟩

end QubitScript.Expr
