import QubitScript.Proofs.Expr.Cuts
import QubitScript.Text.Blank

/-!
# Losing blanks

A text that loses a blank beside a parenthesis or a comma is cut into the same tokens, unless the
blank stands in a literal. Then the literal becomes shorter.
-/

namespace QubitScript.Expr

open QubitScript.Text

/-- The second token is the first one, or a shorter literal in its place. -/
inductive Thinner : Token → Token → Prop
  | same {token : Token} : Thinner token token
  | shorter {long short : String} : short.length < long.length → Thinner (.text long) (.text short)

/-- The length of the text of a literal. -/
def weight : Token → Nat
  | .text text => text.length
  | _ => 0

def totalWeight : List Token → Nat
  | [] => 0
  | token :: tokens => weight token + totalWeight tokens

theorem Thinner.trans {a b c : Token} (first : Thinner a b) (second : Thinner b c) :
    Thinner a c := by
  cases first with
  | same => exact second
  | shorter hab =>
      cases second with
      | same => exact .shorter hab
      | shorter hbc => exact .shorter (hbc.trans hab)

theorem Thinner.weight_le {a b : Token} (h : Thinner a b) : weight b ≤ weight a := by
  cases h with
  | same => exact Nat.le_refl _
  | shorter h => exact h.le

theorem thinner_refl (tokens : List Token) : List.Forall₂ Thinner tokens tokens :=
  List.forall₂_same.mpr fun _ _ => .same

theorem thinner_trans {tokens : List Token} : ∀ {tokens' tokens'' : List Token},
    List.Forall₂ Thinner tokens tokens' → List.Forall₂ Thinner tokens' tokens'' →
    List.Forall₂ Thinner tokens tokens'' := by
  induction tokens with
  | nil =>
      intro tokens' tokens'' first second
      cases first
      exact second
  | cons token tokens ih =>
      intro tokens' tokens'' first second
      cases first with
      | cons hfirst first =>
          cases second with
          | cons hsecond second => exact .cons (hfirst.trans hsecond) (ih first second)

theorem totalWeight_append (first second : List Token) :
    totalWeight (first ++ second) = totalWeight first + totalWeight second := by
  induction first with
  | nil => exact (Nat.zero_add _).symm
  | cons token first ih => rw [List.cons_append, totalWeight, totalWeight, ih, Nat.add_assoc]

theorem totalWeight_le {tokens tokens' : List Token} (h : List.Forall₂ Thinner tokens tokens') :
    totalWeight tokens' ≤ totalWeight tokens := by
  induction h with
  | nil => exact Nat.le_refl _
  | cons hfirst _ ih =>
      exact Nat.add_le_add hfirst.weight_le ih

/-- An odd number of quotes before a place means that it is within a literal. -/
def InQuotes (text : List Char) : Prop := text.count '"' % 2 = 1

instance : DecidablePred InQuotes := fun text =>
  inferInstanceAs (Decidable (text.count '"' % 2 = 1))

/-- The second text has the tokens of the first one, or, if there is a loss, shorter literals among
them. -/
def Loses (loss : Prop) (text text' : List Char) : Prop :=
  ∀ tokens, Cuts text tokens → ∃ tokens', Cuts text' tokens' ∧
    List.Forall₂ Thinner tokens tokens' ∧
    (loss → totalWeight tokens' < totalWeight tokens) ∧ (¬ loss → tokens' = tokens)

namespace Loses

variable {loss more : Prop} {a b c : List Char}

theorem refl : Loses False a a := fun tokens h =>
  ⟨tokens, h, thinner_refl tokens, False.elim, fun _ => rfl⟩

theorem congr (h : Loses loss a b) (hloss : loss ↔ more) : Loses more a b := by
  rwa [← hloss]

theorem trans (first : Loses loss a b) (second : Loses more b c) : Loses (loss ∨ more) a c := by
  intro tokens h
  obtain ⟨tokens', h', thinner, strict, same⟩ := first tokens h
  obtain ⟨tokens'', h'', thinner', strict', same'⟩ := second tokens' h'
  refine ⟨tokens'', h'', thinner_trans thinner thinner', ?_, ?_⟩
  · rintro (hloss | hmore)
    · exact (totalWeight_le thinner').trans_lt (strict hloss)
    · exact (strict' hmore).trans_le (totalWeight_le thinner)
  · intro hnone
    rw [same' fun h => hnone (.inr h), same fun h => hnone (.inl h)]

end Loses

/-! ## One blank less -/

/-- A text loses a character at its front, which does no harm outside of a literal, and to a literal
that the text closes no more than to make it shorter. -/
structure Shrinks (text text' : List Char) : Prop where
  break_before : ∀ c ∈ text.head?, isBreak c = true
  break_after : ∀ c ∈ text'.head?, isBreak c = true
  outside : ∀ tokens, Cuts text tokens → Cuts text' tokens
  inside : ∀ body after, Quotable body → text = body ++ '"' :: after →
    ∃ body', Quotable body' ∧ text' = body' ++ '"' :: after ∧ body'.length < body.length

theorem inQuotes_cons {c : Char} {text : List Char} (hc : c ≠ '"') :
    InQuotes (c :: text) ↔ InQuotes text := by
  rw [InQuotes, InQuotes, List.count_cons_of_ne hc]

theorem Quotable.not_mem {body : List Char} (h : Quotable body) : '"' ∉ body :=
  fun hmem => (h _ hmem).1 rfl

theorem inQuotes_literal {body text : List Char} (h : Quotable body) :
    InQuotes ('"' :: (body ++ '"' :: text)) ↔ InQuotes text := by
  rw [InQuotes, InQuotes, List.count_cons_self, List.count_append, List.count_cons_self,
    List.count_eq_zero.mpr h.not_mem]
  omega

theorem inQuotes_opened {body : List Char} (h : Quotable body) : InQuotes ('"' :: body) := by
  rw [InQuotes, List.count_cons_self, List.count_eq_zero.mpr h.not_mem]

theorem inQuotes_of_cut {c : Char} (hc : c ≠ '"') (text : List Char) :
    InQuotes (c :: text) ↔ InQuotes (cut c text).2 := by
  rw [inQuotes_cons hc, InQuotes, InQuotes, count_cut hc (by decide)]

theorem totalWeight_cons (token : Token) (tokens : List Token) :
    totalWeight (token :: tokens) = weight token + totalWeight tokens := rfl

/-- A piece that is cut off before both texts makes no difference between them. -/
theorem Loses.cons {loss : Prop} {c : Char} {before after rest rest' : List Char}
    (hpiece : ∀ piece, cut c before = (piece, rest) → cut c after = (piece, rest'))
    (hrest : (cut c before).2 = rest) (h : Loses loss rest rest') :
    Loses loss (c :: before) (c :: after) := by
  intro tokens hcuts
  cases hcuts with
  | gap hcut hcuts =>
      rw [hcut] at hrest
      subst hrest
      obtain ⟨tokens', hcuts', hthinner, hstrict, hsame⟩ := h _ hcuts
      exact ⟨tokens', .gap (hpiece _ hcut) hcuts', hthinner, hstrict, hsame⟩
  | @token _ _ _ token _ hcut hcuts =>
      rw [hcut] at hrest
      subst hrest
      obtain ⟨tokens', hcuts', hthinner, hstrict, hsame⟩ := h _ hcuts
      refine ⟨token :: tokens', .token (hpiece _ hcut) hcuts', .cons .same hthinner, ?_, ?_⟩
      · intro hloss
        rw [totalWeight_cons, totalWeight_cons]
        exact Nat.add_lt_add_left (hstrict hloss) _
      · intro hnone
        rw [hsame hnone]

theorem cuts_quote {text : List Char} {tokens : List Token} :
    Cuts ('"' :: text) tokens ↔ ∃ body after others, Quotable body ∧
      text = body ++ '"' :: after ∧ tokens = .text (String.ofList body) :: others ∧
      Cuts after others := by
  constructor
  · intro h
    cases h with
    | gap hcut _ => exact absurd hcut cut_quote_ne_gap
    | token hcut hothers =>
        obtain ⟨body, rfl, hbody, rfl⟩ := quotedPiece_eq_token hcut
        exact ⟨body, _, _, hbody, rfl, rfl, hothers⟩
  · rintro ⟨body, after, others, hbody, rfl, rfl, hothers⟩
    exact .token (quotedPiece_append hbody) hothers

/-- A literal that both texts close after what they have in common. -/
theorem Loses.quote {loss : Prop} {body rest rest' : List Char} (hbody : Quotable body)
    (h : Loses loss rest rest') :
    Loses loss ('"' :: (body ++ '"' :: rest)) ('"' :: (body ++ '"' :: rest')) := by
  refine Loses.cons (fun piece hcut => ?_) ?_ h
  · rw [cut_quote, quotedPiece_append hbody] at hcut ⊢
    cases hcut
    rfl
  · rw [cut_quote, quotedPiece_append hbody]

/-- A text is cut from its front on: into literals that are closed and other pieces, up to its end
or to a literal that is never closed. -/
@[elab_as_elim]
theorem pieces_induction {P : List Char → Prop} (nil : P [])
    (unclosed : ∀ rest, (∀ body after, Quotable body → rest ≠ body ++ '"' :: after) →
      P ('"' :: rest))
    (literal : ∀ body rest, Quotable body → P rest → P ('"' :: (body ++ '"' :: rest)))
    (piece : ∀ c rest, c ≠ '"' → P (cut c rest).2 → P (c :: rest)) (text : List Char) : P text := by
  induction text using cut_induction with
  | nil => exact nil
  | piece c rest ih =>
      by_cases hc : c = '"'
      · subst hc
        by_cases hclosed : ∃ body after, Quotable body ∧ rest = body ++ '"' :: after
        · obtain ⟨body, after, hbody, rfl⟩ := hclosed
          rw [cut_quote, quotedPiece_append hbody] at ih
          exact literal body after hbody ih
        · exact unclosed rest fun body after hbody hrest => hclosed ⟨body, after, hbody, hrest⟩
      · exact piece c rest hc ih

/-- A literal that is still open where a text ends goes on in the text after it. -/
theorem literal_goes_on {rest text body after : List Char}
    (hunclosed : ∀ body after, Quotable body → rest ≠ body ++ '"' :: after)
    (hbody : Quotable body) (htext : rest ++ text = body ++ '"' :: after) :
    ∃ front, body = rest ++ front ∧ text = front ++ '"' :: after := by
  rcases List.append_eq_append_iff.mp htext with ⟨front, rfl, hclose⟩ | ⟨more, rfl, hclose⟩
  · exact ⟨front, rfl, hclose⟩
  · cases more with
    | nil =>
        rw [List.append_nil] at hunclosed ⊢
        exact ⟨[], (List.append_nil _).symm, hclose.symm⟩
    | cons d more =>
        cases hclose
        exact absurd rfl (hunclosed body more hbody)

theorem Shrinks.loses {text text' : List Char} (h : Shrinks text text') (before : List Char) :
    Loses (InQuotes before) (before ++ text) (before ++ text') := by
  induction before using pieces_induction with
  | nil =>
      intro tokens hcuts
      exact ⟨tokens, h.outside tokens hcuts, thinner_refl tokens, nofun, fun _ => rfl⟩
  | unclosed before hunclosed =>
      intro tokens hcuts
      obtain ⟨body, after, others, hbody, htext, rfl, hothers⟩ := cuts_quote.mp hcuts
      obtain ⟨front, rfl, hclose⟩ := literal_goes_on hunclosed hbody htext
      have hfront : Quotable front := fun c hc => hbody c (List.mem_append_right _ hc)
      have hopen : Quotable before := fun c hc => hbody c (List.mem_append_left _ hc)
      obtain ⟨short, hshort, rfl, hlength⟩ := h.inside front after hfront hclose
      have hwhole : Quotable (before ++ short) := fun c hc =>
        (List.mem_append.mp hc).elim (hopen c) (hshort c)
      have hless : (String.ofList (before ++ short)).length <
          (String.ofList (before ++ front)).length := by
        simpa only [String.length_ofList, List.length_append, Nat.add_lt_add_iff_left]
      refine ⟨.text (String.ofList (before ++ short)) :: others,
        cuts_quote.mpr ⟨_, after, others, hwhole, (List.append_assoc ..).symm, rfl, hothers⟩,
        .cons (.shorter hless) (thinner_refl others), fun _ => ?_, fun hnone => ?_⟩
      · rw [totalWeight_cons, totalWeight_cons]
        exact Nat.add_lt_add_right hless _
      · exact absurd (inQuotes_opened hopen) hnone
  | literal body before hbody ih =>
      have := (ih.quote hbody).congr (inQuotes_literal hbody).symm
      simpa only [List.cons_append, List.append_assoc] using this
  | piece c before hc ih =>
      rw [List.cons_append, List.cons_append]
      -- What both texts have in common ends at a break, so the same piece is cut off from both.
      refine (Loses.cons ?_ ?_ ih).congr (inQuotes_of_cut hc before).symm
      · intro piece hcut
        rw [cut_append hc h.break_before] at hcut
        cases hcut
        rw [cut_append hc h.break_after]
      · rw [cut_append hc h.break_before]

/-! ## Blanks beside a separator -/

/-- Blanks of one line. -/
def LineBlank (c : Char) : Prop := isBlank c = true ∧ c ≠ '\n'

theorem isNamePart_eq (c : Char) : isNamePart c =
    (((decide (c.val ≥ 'A'.val ∧ c.val ≤ 'Z'.val) || c.val ≥ 'a'.val && c.val ≤ 'z'.val) ||
      c.val ≥ '0'.val && c.val ≤ '9'.val) || c == '_') := rfl

theorem isNamePart_of_isBlank {c : Char} (h : isBlank c = true) : isNamePart c = false := by
  simp only [isBlank, blankSet, CharSet.contains, meets, Bool.or_false, Bool.and_eq_true,
    Bool.or_eq_true, decide_eq_true_eq, Char.toNat] at h
  have hunderscore : c ≠ '_' := by
    rintro rfl
    revert h
    decide
  simp only [isNamePart_eq, Bool.or_eq_false_iff, Bool.and_eq_false_iff, decide_eq_false_iff_not,
    beq_eq_false_iff_ne, UInt32.le_iff_toNat_le, ge_iff_le, Char.reduceVal, UInt32.reduceToNat]
  refine ⟨⟨⟨?_, ?_⟩, ?_⟩, hunderscore⟩ <;> omega

theorem LineBlank.ne_quote {c : Char} (h : LineBlank c) : c ≠ '"' := by
  rintro rfl
  exact absurd h.1 (by decide)

theorem LineBlank.isBreak {c : Char} (h : LineBlank c) : isBreak c = true := by
  rw [Expr.isBreak, isNamePart_of_isBlank h.1, Bool.not_false, Bool.true_and, bne_iff_ne]
  rintro rfl
  exact absurd h.1 (by decide)

theorem LineBlank.single? {c : Char} (h : LineBlank c) : Token.single? c = none := by
  obtain ⟨hblank, hline⟩ := h
  unfold Token.single?
  split
  case h_10 => exact absurd rfl hline
  case h_11 => rfl
  all_goals exact absurd hblank (by decide)

/-- A blank is a gap, or no token accepts it. -/
theorem cuts_blank {c : Char} (h : LineBlank c) {text : List Char} {tokens : List Token}
    (hcuts : Cuts (c :: text) tokens) : Cuts text tokens := by
  by_cases hgap : isGap c = true
  · have hcut : cut c text = (.gap, text) := by
      rw [cut, if_pos hgap]
    cases hcuts with
    | gap hpiece hrest =>
        cases hcut.symm.trans hpiece
        exact hrest
    | token hpiece _ => cases hcut.symm.trans hpiece
  · have hname := isNamePart_of_isBlank h.1
    have hstart : isNameStart c = false := by
      simp only [isNamePart, isNameStart, Char.isAlphanum, Bool.or_eq_false_iff] at hname ⊢
      exact ⟨hname.1.1, hname.2⟩
    have hcut : cut c text = (.fault (.unexpected c.toString), text) := by
      rw [cut, if_neg hgap, if_neg (by simpa using h.ne_quote), if_neg (by simp [hstart]),
        if_neg (by simp [isDigit_of_isNamePart hname]), h.single?]
    cases hcuts with
    | gap hpiece _ => cases hcut.symm.trans hpiece
    | token hpiece _ => cases hcut.symm.trans hpiece

/-- A separator is a token of its own, whatever follows it. -/
def IsSeparator (c : Char) (token : Token) : Prop :=
  c ≠ '"' ∧ isBreak c = true ∧ ∀ text, cut c text = (.token token, text)

theorem isSeparator_comma : IsSeparator ',' .comma := ⟨by decide, by decide, fun _ => rfl⟩

theorem isSeparator_openParen : IsSeparator '(' .openParen := ⟨by decide, by decide, fun _ => rfl⟩

theorem isSeparator_closeParen : IsSeparator ')' .closeParen :=
  ⟨by decide, by decide, fun _ => rfl⟩

theorem cuts_separator {c : Char} {token : Token} (h : IsSeparator c token) {text : List Char}
    {tokens : List Token} :
    Cuts (c :: text) tokens ↔ ∃ others, tokens = token :: others ∧ Cuts text others := by
  constructor
  · intro hcuts
    cases hcuts with
    | gap hcut _ => cases (h.2.2 text).symm.trans hcut
    | token hcut hothers =>
        cases (h.2.2 text).symm.trans hcut
        exact ⟨_, rfl, hothers⟩
  · rintro ⟨others, rfl, hothers⟩
    exact .token (h.2.2 text) hothers

theorem shrinks_before {blank c : Char} {token : Token} (hblank : LineBlank blank)
    (hc : IsSeparator c token) (text : List Char) :
    Shrinks (blank :: c :: text) (c :: text) := by
  refine ⟨?_, ?_, fun tokens => cuts_blank hblank, ?_⟩
  · rintro _ ⟨⟩
    exact hblank.isBreak
  · rintro _ ⟨⟩
    exact hc.2.1
  · intro body after hbody htext
    match body, htext with
    | [], htext => exact absurd (List.cons.inj htext).1 hblank.ne_quote
    | _ :: body, htext =>
        exact ⟨body, fun d hd => hbody d (.tail _ hd), (List.cons.inj htext).2,
          Nat.lt_succ_self _⟩

theorem shrinks_after {blank c : Char} {token : Token} (hblank : LineBlank blank)
    (hc : IsSeparator c token) (text : List Char) :
    Shrinks (c :: blank :: text) (c :: text) := by
  refine ⟨?_, ?_, ?_, ?_⟩
  · rintro _ ⟨⟩
    exact hc.2.1
  · rintro _ ⟨⟩
    exact hc.2.1
  · intro tokens hcuts
    obtain ⟨others, rfl, hothers⟩ := (cuts_separator hc).mp hcuts
    exact (cuts_separator hc).mpr ⟨others, rfl, cuts_blank hblank hothers⟩
  · intro body after hbody htext
    match body, htext with
    | [], htext => exact absurd (List.cons.inj htext).1 hc.1
    | [_], htext =>
        exact absurd (List.cons.inj (List.cons.inj htext).2).1 hblank.ne_quote
    | d :: _ :: body, htext =>
        obtain ⟨rfl, hrest⟩ := List.cons.inj htext
        refine ⟨c :: body, fun e he => hbody e ?_, ?_, Nat.lt_succ_self _⟩
        · exact (List.mem_cons.mp he).elim (· ▸ .head _) fun he => .tail _ (.tail _ he)
        · exact congrArg (c :: ·) (List.cons.inj hrest).2

theorem inQuotes_blanks {before blanks : List Char} (h : ∀ c ∈ blanks, LineBlank c) :
    InQuotes (before ++ blanks) ↔ InQuotes before := by
  have hnone : blanks.count '"' = 0 :=
    List.count_eq_zero.mpr fun hmem => (h _ hmem).ne_quote rfl
  rw [InQuotes, InQuotes, List.count_append, hnone, Nat.add_zero]

/-- Blanks after a separator. -/
theorem loses_blanksAfter (before : List Char) {blanks : List Char} {c : Char} {token : Token}
    (hblanks : ∀ c ∈ blanks, LineBlank c) (hc : IsSeparator c token) (text : List Char) :
    Loses (InQuotes before ∧ blanks ≠ []) (before ++ c :: (blanks ++ text))
      (before ++ c :: text) := by
  induction blanks with
  | nil => exact Loses.refl.congr (by simp)
  | cons blank blanks ih =>
      obtain ⟨hblank, hothers⟩ := List.forall_mem_cons.mp hblanks
      have first := (shrinks_after hblank hc (blanks ++ text)).loses before
      refine (first.trans (ih hothers)).congr ⟨?_, fun h => .inl h.1⟩
      rintro (h | h)
      · exact ⟨h, nofun⟩
      · exact ⟨h.1, nofun⟩

/-- Blanks before a separator. -/
theorem loses_blanksBefore {blanks : List Char} {c : Char} {token : Token}
    (hc : IsSeparator c token) (text : List Char) : ∀ before : List Char,
    (∀ c ∈ blanks, LineBlank c) →
    Loses (InQuotes before ∧ blanks ≠ []) (before ++ (blanks ++ c :: text))
      (before ++ c :: text) := by
  induction blanks with
  | nil => exact fun _ _ => Loses.refl.congr (by simp)
  | cons blank blanks ih =>
      intro before hblanks
      obtain ⟨hblank, hothers⟩ := List.forall_mem_cons.mp hblanks
      have others := ih (before ++ [blank]) hothers
      rw [List.append_assoc, List.append_assoc, List.singleton_append,
        List.singleton_append] at others
      have last := (shrinks_before hblank hc text).loses before
      have hquotes : InQuotes (before ++ [blank]) ↔ InQuotes before :=
        inQuotes_blanks (List.forall_mem_singleton.mpr hblank)
      refine (others.trans last).congr ⟨?_, fun h => .inr h.1⟩
      rintro (h | h)
      · exact ⟨hquotes.mp h.1, nofun⟩
      · exact ⟨h, nofun⟩

end QubitScript.Expr
