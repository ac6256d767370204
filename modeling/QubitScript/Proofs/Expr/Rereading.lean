import QubitScript.Proofs.Expr.Parsing
import QubitScript.Proofs.Expr.Thinning

/-!
# Reading a text that has lost blanks

If a text of one line is an expression, it stays one when it loses blanks beside separators. The
value is the same unless a literal has lost a blank, and then it is another one. Two separators with
blanks alone between them stand for separators side by side, unless they are part of a literal.
-/

namespace QubitScript.Expr

open Grammar QubitScript.Text

theorem read_eq_ok {text : List Char} {line : Nat} {expr : Expr} (hline : '\n' ∉ text) :
    Expr.read (String.ofList text) line = .ok expr ↔
      ∃ tokens, Cuts text tokens ∧ parseWhole (onLine line tokens) = .ok expr := by
  rw [Expr.read, tokensOf, String.toList_ofList, bind_eq_ok]
  simp only [mapError_eq_ok]
  constructor
  · rintro ⟨located, htokens, hparse⟩
    obtain ⟨tokens, hcuts, rfl⟩ := cuts_of_tokenize hline htokens
    exact ⟨tokens, hcuts, hparse⟩
  · rintro ⟨tokens, hcuts, hparse⟩
    exact ⟨_, tokenize_of_cuts hcuts hline, hparse⟩

/-! ## Shorter literals -/

theorem thinner_breaks {breaks breaks' : List (Located Token)} (h : ThinnerTokens breaks breaks') :
    (∀ token ∈ breaks, token.item = .lineEnd) →
    (∀ token ∈ breaks', token.item = .lineEnd) ∧ literalLength breaks = 0 ∧
      literalLength breaks' = 0 := by
  induction h with
  | nil => exact fun _ => ⟨nofun, rfl, rfl⟩
  | @cons token token' _ _ hitem _ ih =>
      intro hbreaks
      obtain ⟨hbreak, hothers⟩ := List.forall_mem_cons.mp hbreaks
      obtain ⟨hothers', hlong, hshort⟩ := ih hothers
      rw [hbreak] at hitem
      have hbreak' : token'.item = .lineEnd := by
        generalize token'.item = item at hitem
        cases hitem
        rfl
      refine ⟨List.forall_mem_cons.mpr ⟨hbreak', hothers'⟩, ?_, ?_⟩
      · rw [literalLength_cons, hbreak, hlong]
        rfl
      · rw [literalLength_cons, hbreak', hshort]
        rfl

/-- Thinner tokens parse as well. -/
theorem parseWhole_thinner {tokens tokens' : List (Located Token)} {expr : Expr}
    (hthinner : ThinnerTokens tokens tokens') (h : parseWhole tokens = .ok expr) :
    ∃ expr', parseWhole tokens' = .ok expr' ∧
      Follows (literalLength tokens) (literalLength tokens') expr expr' := by
  obtain ⟨body, breaks, rfl, hbody, hbreaks⟩ := parseWhole_eq_ok.mp h
  obtain ⟨body', breaks', rfl, hthinbody, hthinbreaks⟩ := hthinner.append
  obtain ⟨expr', hbody', hfollows⟩ := hbody.thinned hthinbody
  obtain ⟨hbreaks', hlong, hshort⟩ := thinner_breaks hthinbreaks hbreaks
  refine ⟨expr', parseWhole_eq_ok.mpr ⟨body', breaks', rfl, hbody', hbreaks'⟩, ?_⟩
  rw [literalLength_append, literalLength_append, hlong, hshort]
  exact hfollows

section Lines

variable {tokens tokens' : List Token}

theorem thinner_onLine (line line' : Nat) (h : List.Forall₂ Thinner tokens tokens') :
    ThinnerTokens (onLine line tokens) (onLine line' tokens') := by
  induction h with
  | nil => exact List.Forall₂.cons .same .nil
  | cons htoken _ ih => exact List.Forall₂.cons htoken ih

theorem literalLength_onLine (line : Nat) :
    literalLength (onLine line tokens) = totalWeight tokens := by
  rw [onLine, literalLength_append, literalLength, List.map_map, Function.comp_def, List.map_id']
  rfl

end Lines

/-- The value of a text that loses blanks: it stays unless a literal has lost some. -/
theorem value_of_loses {loss : Prop} {text text' : List Char} {line : Nat} {expr : Expr}
    {bindings : Bindings} {v : Value} (line' : Nat) (h : Loses loss text text')
    (hline : '\n' ∉ text)
    (hline' : '\n' ∉ text') (hread : Expr.read (String.ofList text) line = .ok expr)
    (hvalue : expr.value bindings = .ok v) :
    ∃ expr' v', Expr.read (String.ofList text') line' = .ok expr' ∧
      expr'.value bindings = .ok v' ∧ (v' = v ↔ ¬ loss) := by
  obtain ⟨tokens, hcuts, hparse⟩ := (read_eq_ok hline).mp hread
  obtain ⟨tokens', hcuts', hthinner, hstrict, hsame⟩ := h tokens hcuts
  obtain ⟨expr', hparse', hfollows⟩ :=
    parseWhole_thinner (thinner_onLine line line' hthinner) hparse
  obtain ⟨v', hvalue', hclose⟩ := hfollows bindings v hvalue
  refine ⟨expr', v', (read_eq_ok hline').mpr ⟨tokens', hcuts', hparse'⟩, hvalue', ?_⟩
  rw [literalLength_onLine, literalLength_onLine] at hclose
  cases hclose with
  | same hequal =>
      refine ⟨fun _ hloss => ?_, fun _ => rfl⟩
      exact absurd hequal (hstrict hloss).ne'
  | shorter hless hshorter =>
      constructor
      · intro hsame
        cases hsame
        exact absurd hshorter (Nat.lt_irrefl _)
      · intro hnone
        rw [hsame hnone] at hless
        exact absurd hless (Nat.lt_irrefl _)

/-! ## Separators outside of literals -/

theorem not_inQuotes_of_cuts {text : List Char} {tokens : List Token} (h : Cuts text tokens) :
    ¬ InQuotes text := by
  induction h with
  | nil =>
      rw [InQuotes]
      decide
  | @gap c rest after _ hcut _ ih =>
      by_cases hc : c = '"'
      · subst hc
        exact absurd hcut cut_quote_ne_gap
      · rwa [inQuotes_of_cut hc, hcut]
  | @token c rest after _ _ hcut _ ih =>
      by_cases hc : c = '"'
      · subst hc
        obtain ⟨body, rfl, hbody, -⟩ := quotedPiece_eq_token hcut
        rwa [inQuotes_literal hbody]
      · rwa [inQuotes_of_cut hc, hcut]

theorem not_inQuotes_of_read {text : List Char} {line : Nat} {expr : Expr} (hline : '\n' ∉ text)
    (hread : Expr.read (String.ofList text) line = .ok expr) : ¬ InQuotes text := by
  obtain ⟨tokens, hcuts, -⟩ := (read_eq_ok hline).mp hread
  exact not_inQuotes_of_cuts hcuts

/-- A text is cut where a break comes that is in no literal. -/
theorem cuts_after {after : List Char} (hafter : ∀ c ∈ after.head?, isBreak c = true)
    (before : List Char) : ∀ {tokens : List Token},
    ¬ InQuotes before → Cuts (before ++ after) tokens →
    ∃ firsts lasts, tokens = firsts ++ lasts ∧ Cuts after lasts := by
  induction before using pieces_induction with
  | nil => exact fun {tokens} _ hcuts => ⟨[], tokens, rfl, hcuts⟩
  | unclosed before hunclosed =>
      intro tokens hclosed hcuts
      obtain ⟨body, _, _, hbody, htext, -, -⟩ := cuts_quote.mp hcuts
      obtain ⟨front, rfl, -⟩ := literal_goes_on hunclosed hbody htext
      exact absurd (inQuotes_opened fun c hc => hbody c (List.mem_append_left _ hc)) hclosed
  | literal body before hbody ih =>
      intro tokens hclosed hcuts
      rw [inQuotes_literal hbody] at hclosed
      rw [List.cons_append, List.append_assoc, List.cons_append] at hcuts
      cases hcuts with
      | gap hcut _ => exact absurd hcut cut_quote_ne_gap
      | token hcut hrest =>
          cases (quotedPiece_append hbody).symm.trans hcut
          obtain ⟨firsts, lasts, rfl, hlasts⟩ := ih hclosed hrest
          exact ⟨_ :: firsts, lasts, rfl, hlasts⟩
  | piece c before hc ih =>
      intro tokens hclosed hcuts
      rw [inQuotes_of_cut hc] at hclosed
      have happend : cut c (before ++ after) = ((cut c before).1, (cut c before).2 ++ after) :=
        cut_append hc hafter
      cases hcuts with
      | gap hcut hrest =>
          obtain ⟨-, rfl⟩ := Prod.mk.inj (happend.symm.trans hcut)
          exact ih hclosed hrest
      | token hcut hrest =>
          obtain ⟨-, rfl⟩ := Prod.mk.inj (happend.symm.trans hcut)
          obtain ⟨firsts, lasts, rfl, hlasts⟩ := ih hclosed hrest
          exact ⟨_ :: firsts, lasts, rfl, hlasts⟩

theorem cuts_blanks {blanks text : List Char} {tokens : List Token}
    (hblanks : ∀ c ∈ blanks, LineBlank c) (hcuts : Cuts (blanks ++ text) tokens) :
    Cuts text tokens := by
  induction blanks with
  | nil => exact hcuts
  | cons blank blanks ih =>
      obtain ⟨hblank, hothers⟩ := List.forall_mem_cons.mp hblanks
      exact ih hothers (cuts_blank hblank hcuts)

/-- In tokens that parse, commas stand where they can also at the ends of lines. -/
theorem isChain_of_parseWhole {tokens : List (Located Token)} {expr : Expr}
    (h : parseWhole tokens = .ok expr) : tokens.IsChain Adjacent := by
  obtain ⟨body, breaks, rfl, hbody, hbreaks⟩ := parseWhole_eq_ok.mp h
  have hcomma : ∀ token ∈ breaks, token.item ≠ .comma := by
    intro token htoken
    rw [hbreaks token htoken]
    nofun
  refine List.isChain_append.mpr ⟨hbody.shape.adjacent, ?_, ?_⟩
  · refine List.Pairwise.isChain (List.pairwise_of_forall_mem_list ?_)
    exact fun left hleft right hright => .of_no_comma (hcomma left hleft) (hcomma right hright)
  · intro left hleft right hright
    obtain ⟨last, hlast, hends⟩ := hbody.shape.ends
    rw [hlast, Option.mem_some_iff] at hleft
    subst hleft
    exact .of_no_comma (ne_comma_of_ends hends) (hcomma right (List.mem_of_mem_head? hright))

/-- Separators with nothing between them but blanks, outside of literals. -/
theorem adjacent_of_read {before blanks after : List Char} {c d : Char} {opening closing : Token}
    {line : Nat} {expr : Expr} (hc : IsSeparator c opening) (hd : IsSeparator d closing)
    (hblanks : ∀ c ∈ blanks, LineBlank c)
    (hline : '\n' ∉ before ++ c :: (blanks ++ d :: after))
    (hread : Expr.read (String.ofList (before ++ c :: (blanks ++ d :: after))) line = .ok expr)
    (hclosed : ¬ InQuotes before) : Adjacent ⟨line, opening⟩ ⟨line, closing⟩ := by
  obtain ⟨tokens, hcuts, hparse⟩ := (read_eq_ok hline).mp hread
  have hbreak : ∀ e ∈ (c :: (blanks ++ d :: after)).head?, isBreak e = true := by
    rintro _ ⟨⟩
    exact hc.2.1
  obtain ⟨firsts, lasts, rfl, hlasts⟩ := cuts_after hbreak before hclosed hcuts
  obtain ⟨others, rfl, hothers⟩ := (cuts_separator hc).mp hlasts
  obtain ⟨others, rfl, -⟩ := (cuts_separator hd).mp (cuts_blanks hblanks hothers)
  have hchain := isChain_of_parseWhole hparse
  rw [onLine, List.map_append, List.map_cons, List.map_cons, List.append_assoc] at hchain
  exact (List.isChain_append_cons_cons.mp hchain).2.1

end QubitScript.Expr
