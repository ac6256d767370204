import QubitScript.Proofs.Lexer.Terms
import QubitScript.Proofs.Pattern.Preferred

/-!
# What the command rules prefer

Where a lexeme is followed by a blank, or by nothing, the rules leave no choice: those before the
rule of the lexeme have no match there, and its own rule prefers the whole lexeme.
-/

namespace QubitScript

open QubitScript.Text

/-- The text goes on with a blank, if it goes on. -/
def Apart (after : List Char) : Prop := ∀ c ∈ after.head?, isBlank c = true

theorem Apart.nil : Apart [] := nofun

theorem Apart.contains_eq_false {set : CharSet} (hset : blankSet.inter set = .empty)
    {after : List Char} (h : Apart after) : ∀ c ∈ after.head?, set.contains c = false :=
  fun c hc => contains_eq_false_of_inter hset (h c hc)

theorem Apart.isWord_eq_false {after : List Char} (h : Apart after) :
    ∀ c ∈ after.head?, isWord c = false :=
  fun c hc => Bool.eq_false_iff.mpr fun hword => by
    have hblank := h c hc
    rw [isBlank_of_isWord hword] at hblank
    cases hblank

/-! ## The rule for calls -/

namespace Pattern

variable {cursor : Cursor} {inner after : List Char}

theorem prefers_sign {c : Char} (hrest : cursor.rest = c :: after) :
    (oneOfEach [.single c]).Prefers cursor 1 :=
  prefers_char hrest (contains_single.mpr rfl)

theorem head?_of_sign {set : CharSet} {d : Char} (hd : set.contains d = false) :
    ∀ c ∈ (d :: after).head?, set.contains c = false := by
  rintro _ ⟨⟩
  exact hd

/-- Parentheses with plain characters in them, in the rule for calls. -/
def nestedPattern : Pattern :=
  .seq (.seq (.oneOfEach [.single '(']) (.star none true (.oneOfEach [plainSet])))
    (.oneOfEach [.single ')'])

theorem contains_plainSet_opening : plainSet.contains '(' = false := by decide

theorem contains_plainSet_closing : plainSet.contains ')' = false := by decide

theorem prefers_nested (hinner : ∀ c ∈ inner, Plain c)
    (hrest : cursor.rest = '(' :: (inner ++ [')']) ++ after) :
    nestedPattern.Prefers cursor ('(' :: (inner ++ [')'])).length := by
  rw [List.cons_append, List.append_assoc] at hrest
  have hskip : (cursor.skip 1).rest = inner ++ ')' :: after := Cursor.rest_skip_one hrest
  have hclosing : (cursor.skip (1 + inner.length)).rest = ')' :: after := by
    rw [← Cursor.skip_add]
    exact Cursor.rest_skip_append hskip
  have hturns : Turns (oneOfEach [plainSet]) (cursor.skip 1) inner.length :=
    turns_of_run (head?_of_sign contains_plainSet_closing)
      (fun c hc => contains_plainSet.mpr (hinner c hc)) hskip
  have hlength : ('(' :: (inner ++ [')'])).length = 1 + inner.length + 1 := by
    rw [List.length_cons, List.length_append, List.length_singleton]
    omega
  rw [hlength]
  exact ((prefers_sign hrest).seq hturns.prefers).seq (prefers_sign hclosing)

/-- What a call encloses leaves no choice: a plain character is taken alone, and an opening
parenthesis together with what goes up to the closing one. -/
theorem turns_of_enclosed (h : Enclosed inner) : ∀ {cursor : Cursor},
    cursor.rest = inner ++ ')' :: after →
    Turns (.alt none (.oneOfEach [plainSet]) nestedPattern) cursor inner.length := by
  induction h with
  | nil =>
      intro cursor hrest
      have hplain : (oneOfEach [plainSet]).Fails cursor :=
        fails_char hrest contains_plainSet_closing
      have hopening : (oneOfEach [.single '(']).Fails cursor := fails_char hrest (by decide)
      exact .stop (.alt hplain (.seq (.seq hopening)))
  | @char c rest hc _ ih =>
      intro cursor hrest
      have hchar : (oneOfEach [plainSet]).Prefers cursor 1 :=
        prefers_char hrest (contains_plainSet.mpr hc)
      rw [List.length_cons, Nat.add_comm]
      exact .round (.left hchar) Nat.one_pos (by simp [hrest]) (ih (Cursor.rest_skip_one hrest))
  | @nested enclosed rest henclosed _ ih =>
      intro cursor hrest
      have hparts : '(' :: (enclosed ++ ')' :: rest) = '(' :: (enclosed ++ [')']) ++ rest := by simp
      rw [hparts, List.append_assoc] at hrest
      -- A parenthesis is no plain character, so only the second alternative can take it.
      have hplain : (oneOfEach [plainSet]).Fails cursor :=
        fails_char hrest contains_plainSet_opening
      have hround : (alt none (oneOfEach [plainSet]) nestedPattern).Prefers cursor
          ('(' :: (enclosed ++ [')'])).length := .right hplain (prefers_nested henclosed hrest)
      rw [hparts, List.length_append]
      refine .round hround (Nat.succ_pos _) ?_ (ih (Cursor.rest_skip_append hrest))
      rw [hrest, List.length_append]
      exact Nat.le_add_right _ _

/-- A name is matched up to the first character that is in no word. -/
theorem prefers_name {caseSensitive : Bool} {first : Char} {others : List Char}
    (hfirst : (callStart caseSensitive).contains first = true)
    (hothers : ∀ c ∈ others, isWord c = true)
    (hrest : cursor.rest = first :: others ++ after)
    (hafter : ∀ c ∈ after.head?, isWord c = false) :
    (namePattern caseSensitive).Prefers cursor (1 + others.length) :=
  (prefers_char hrest hfirst).seq
    (turns_of_run hafter hothers (Cursor.rest_skip_one hrest)).prefers

/-- A call is matched up to its end. -/
theorem prefers_call {caseSensitive : Bool} {first : Char} {others : List Char}
    (hfirst : (callStart caseSensitive).contains first = true)
    (hothers : ∀ c ∈ others, isWord c = true) (hinner : Enclosed inner)
    (hrest : cursor.rest = first :: others ++ '(' :: (inner ++ ')' :: after)) :
    (callPattern caseSensitive).Prefers cursor (1 + others.length + 1 + inner.length + 1) := by
  have hskip : (cursor.skip 1).rest = others ++ '(' :: (inner ++ ')' :: after) :=
    Cursor.rest_skip_one hrest
  have hopening : (cursor.skip (1 + others.length)).rest = '(' :: (inner ++ ')' :: after) := by
    rw [← Cursor.skip_add]
    exact Cursor.rest_skip_append hskip
  have henclosed : (cursor.skip (1 + others.length + 1)).rest = inner ++ ')' :: after := by
    rw [← Cursor.skip_add]
    exact Cursor.rest_skip_one hopening
  have hclosing : (cursor.skip (1 + others.length + 1 + inner.length)).rest = ')' :: after := by
    rw [← Cursor.skip_add]
    exact Cursor.rest_skip_append henclosed
  have hname : (namePattern caseSensitive).Prefers cursor (1 + others.length) :=
    prefers_name hfirst hothers hrest (head?_of_sign (by decide))
  exact ((hname.seq (prefers_sign hopening)).seq
    (turns_of_enclosed hinner henclosed).prefers).seq (prefers_sign hclosing)

/-! ## The rule for annotations -/

/-- A marker for the start of a line: letters and a colon. -/
def IsMarker (caseSensitive : Bool) (text : List Char) : Prop :=
  ∃ first others, text = first :: others ++ [':'] ∧
    ∀ c ∈ first :: others, (letterSet caseSensitive).contains c = true

/-- A note: letters between two colons. -/
def IsNote (caseSensitive : Bool) (text : List Char) : Prop :=
  ∃ first others, text = ':' :: (first :: others ++ [':']) ∧
    ∀ c ∈ first :: others, (letterSet caseSensitive).contains c = true

variable {caseSensitive : Bool} {words tail : List Char}

def lettersPattern (caseSensitive : Bool) : Pattern :=
  .plus none true (.oneOfEach [letterSet caseSensitive])

theorem Takes.exists_letters {letters : List Char}
    (h : (lettersPattern caseSensitive).Takes letters) : ∃ first others, letters = first :: others ∧
      ∀ c ∈ first :: others, (letterSet caseSensitive).contains c = true := by
  cases h with
  | plus hfirst hothers =>
      obtain ⟨first, rfl, hletter⟩ := hfirst.eq_singleton
      exact ⟨first, _, rfl, List.forall_mem_cons.mpr ⟨hletter, hothers.forall_contains⟩⟩

theorem Takes.isMarker_or_isNote {text : List Char}
    (h : (annotationPattern caseSensitive).Takes text) :
    IsMarker caseSensitive text ∨ IsNote caseSensitive text := by
  cases h with
  | left h =>
      cases h with
      | seq hfront hcolon =>
          cases hfront with
          | seq hstart hletters =>
              cases hstart
              obtain ⟨first, others, rfl, hall⟩ := hletters.exists_letters
              refine .inl ⟨first, others, ?_, hall⟩
              rw [hcolon.eq_of_single, List.nil_append]
  | right h =>
      cases h with
      | seq hfront hclosing =>
          cases hfront with
          | seq hcolon hletters =>
              obtain ⟨first, others, rfl, hall⟩ := hletters.exists_letters
              refine .inr ⟨first, others, ?_, hall⟩
              rw [hcolon.eq_of_single, hclosing.eq_of_single]
              rfl

theorem letterSet_colon : (letterSet caseSensitive).contains ':' = false := by
  cases caseSensitive <;> decide

theorem prefers_letters {first : Char} {others : List Char}
    (hletters : ∀ c ∈ first :: others, (letterSet caseSensitive).contains c = true)
    (hrest : cursor.rest = first :: others ++ ':' :: after) :
    (lettersPattern caseSensitive).Prefers cursor (1 + others.length) := by
  obtain ⟨hfirst, hothers⟩ := List.forall_mem_cons.mp hletters
  exact (prefers_char hrest hfirst).plus
    (turns_of_run (head?_of_sign letterSet_colon) hothers (Cursor.rest_skip_one hrest))

theorem rest_after_letters {first : Char} {others : List Char}
    (hrest : cursor.rest = first :: others ++ ':' :: after) :
    (cursor.skip (1 + others.length)).rest = ':' :: after := by
  rw [← Cursor.skip_add]
  exact Cursor.rest_skip_append (Cursor.rest_skip_one hrest)

/-- At the start of a line a marker is preferred. -/
theorem prefers_marker {text : List Char} (h : IsMarker caseSensitive text)
    (hline : Assertion.lineStart.holds cursor = true) (hrest : cursor.rest = text ++ after) :
    (annotationPattern caseSensitive).Prefers cursor text.length := by
  obtain ⟨first, others, rfl, hletters⟩ := h
  rw [List.append_assoc] at hrest
  have hlength : (first :: others ++ [':']).length = 0 + (1 + others.length) + 1 := by
    simp only [List.length_append, List.length_cons, List.length_nil]
    omega
  have hcolon : (cursor.skip (0 + (1 + others.length))).rest = ':' :: after := by
    rw [Nat.zero_add]
    exact rest_after_letters hrest
  rw [hlength]
  exact .left (((prefers_assert hline).seq (prefers_letters hletters hrest)).seq
    (prefers_sign hcolon))

/-- A note is preferred on any place of a line, for no marker begins with a colon. -/
theorem prefers_note {text : List Char} (h : IsNote caseSensitive text)
    (hrest : cursor.rest = text ++ after) :
    (annotationPattern caseSensitive).Prefers cursor text.length := by
  obtain ⟨first, others, rfl, hletters⟩ := h
  rw [List.cons_append, List.append_assoc] at hrest
  have hskip := Cursor.rest_skip_one hrest
  have hlength : (':' :: (first :: others ++ [':'])).length = 1 + (1 + others.length) + 1 := by
    simp only [List.length_append, List.length_cons, List.length_nil]
    omega
  have hmarker : (lettersPattern caseSensitive).Fails cursor :=
    .plus (fails_char hrest letterSet_colon)
  have hcolon : (cursor.skip (1 + (1 + others.length))).rest = ':' :: after := by
    rw [← Cursor.skip_add]
    exact rest_after_letters hskip
  rw [hlength]
  exact .right (.seq hmarker.after_assert)
    (((prefers_sign hrest).seq (prefers_letters hletters hskip)).seq (prefers_sign hcolon))

/-- The first character that is in no word, in two ways of writing a text. -/
theorem eq_cons_of_words {first rest : List Char} {d : Char} (hwords : ∀ c ∈ words, isWord c = true)
    (htail : ∀ c ∈ tail.head?, isWord c = false) (hfirst : ∀ c ∈ first, isWord c = true)
    (hd : isWord d = false) (h : words ++ tail = first ++ d :: rest) : tail = d :: rest := by
  have hdrop := congrArg (List.dropWhile isWord) h
  rw [List.dropWhile_append_of_pos hwords, List.dropWhile_append_of_pos hfirst,
    List.dropWhile_cons_of_neg (by simp [hd])] at hdrop
  rw [← hdrop]
  cases tail with
  | nil => rfl
  | cons c tail =>
      have hc := htail c rfl
      exact (List.dropWhile_cons_of_neg (by simp [hc])).symm

/-- Without a colon after the characters of a word there is no annotation. -/
theorem fails_annotation (hwords : ∀ c ∈ words, isWord c = true)
    (htail : ∀ c ∈ tail.head?, isWord c = false ∧ c ≠ ':') (hrest : cursor.rest = words ++ tail) :
    (annotationPattern caseSensitive).Fails cursor := by
  refine fails_of_takes fun taken after htaken htakes => ?_
  have hsplit : ∃ letters more, taken = letters ++ ':' :: more ∧
      ∀ c ∈ letters, isWord c = true := by
    rcases htakes.isMarker_or_isNote with ⟨first, others, rfl, hletters⟩ | ⟨first, others, rfl, -⟩
    · exact ⟨first :: others, [], rfl, fun c hc => isWord_of_letterSet (hletters c hc)⟩
    · exact ⟨[], _, rfl, nofun⟩
  obtain ⟨letters, more, rfl, hletters⟩ := hsplit
  rw [htaken, List.append_assoc] at hrest
  -- The colon of the annotation is the first character that is in no word.
  have hcolon := eq_cons_of_words hwords (fun c hc => (htail c hc).1) hletters (by decide)
    hrest.symm
  exact (htail ':' (by rw [hcolon]; rfl)).2 rfl

/-- Without a parenthesis after the characters of a word there is no call. -/
theorem fails_call (hwords : ∀ c ∈ words, isWord c = true)
    (htail : ∀ c ∈ tail.head?, isWord c = false ∧ c ≠ '(') (hrest : cursor.rest = words ++ tail) :
    (callPattern caseSensitive).Fails cursor := by
  refine fails_of_takes fun taken after htaken htakes => ?_
  obtain ⟨name, inner, rfl, -, hname, -⟩ := callText_of_takes htakes
  rw [htaken, List.append_assoc] at hrest
  have hopening := eq_cons_of_words hwords (fun c hc => (htail c hc).1) hname (by decide)
    hrest.symm
  exact (htail '(' (by rw [hopening]; rfl)).2 rfl

/-! ## The rules for terms -/

variable {lexeme : List Char}

theorem prefers_digits {digits : List Char} (h : digitsPattern.Takes digits)
    (hrest : cursor.rest = digits ++ after)
    (hafter : ∀ c ∈ after.head?, digitSet.contains c = false) :
    digitsPattern.Prefers cursor digits.length := by
  cases h with
  | @plus _ _ _ _ others hfirst hothers =>
      obtain ⟨first, rfl, hdigit⟩ := hfirst.eq_singleton
      rw [List.length_append, List.length_singleton]
      exact (prefers_char hrest hdigit).plus
        (turns_of_run hafter hothers.forall_contains (Cursor.rest_skip_one hrest))

/-- A number goes on with a fraction if there is a point, and there is none in what is apart from
it. -/
theorem prefers_number (h : numberPattern.Takes lexeme) (hrest : cursor.rest = lexeme ++ after)
    (hafter : Apart after) : numberPattern.Prefers cursor lexeme.length := by
  have hnoDigit := hafter.contains_eq_false (by decide : blankSet.inter digitSet = .empty)
  cases h with
  | @seq _ _ digits rest hdigits hfraction =>
      rw [List.length_append]
      cases hfraction with
      | upToDone =>
          rw [List.append_nil] at hrest
          have hpoint : (oneOfEach [.single '.']).Fails (cursor.skip digits.length) := by
            refine fails_head ?_
            rw [Cursor.rest_skip_append hrest]
            exact hafter.contains_eq_false (by decide)
          exact (prefers_digits hdigits hrest hnoDigit).seq (Fails.upTo_one (.seq hpoint))
      | upToRound hround hdone =>
          cases hdone
          cases hround with
          | @seq _ _ _ fraction hpoint hfraction =>
              rw [hpoint.eq_of_single, List.append_nil, List.append_assoc] at hrest
              rw [hpoint.eq_of_single, List.append_nil, List.length_append]
              have hskip := Cursor.rest_skip_append hrest
              have hround := (prefers_sign hskip).seq
                (prefers_digits hfraction (Cursor.rest_skip_one hskip) hnoDigit)
              exact (prefers_digits hdigits hrest (head?_of_sign (by decide))).seq
                hround.upTo_one

theorem prefers_literal (h : literalPattern.Takes lexeme) (hrest : cursor.rest = lexeme ++ after) :
    literalPattern.Prefers cursor lexeme.length := by
  cases h with
  | seq hfront hclosing =>
      cases hfront with
      | @seq _ _ _ body hopening hbody =>
          obtain rfl := hopening.eq_of_single
          obtain rfl := hclosing.eq_of_single
          rw [List.append_assoc, List.append_assoc] at hrest
          rw [List.length_append, List.length_append]
          have hskip := Cursor.rest_skip_one hrest
          have hquote : (cursor.skip (1 + body.length)).rest = '"' :: after := by
            rw [← Cursor.skip_add]
            exact Cursor.rest_skip_append hskip
          exact ((prefers_sign hrest).seq (turns_of_run (head?_of_sign (by decide))
            hbody.forall_contains hskip).prefers).seq (prefers_sign hquote)

/-! ## The first rule -/

theorem Takes.exists_first (h : (namePattern caseSensitive).Takes lexeme) : ∃ first others,
    lexeme = first :: others ∧ (callStart caseSensitive).contains first = true ∧
      ∀ c ∈ others, isWord c = true := by
  cases h with
  | seq hstart hothers =>
      obtain ⟨first, rfl, hfirst⟩ := hstart.eq_singleton
      exact ⟨first, _, rfl, hfirst, hothers.forall_contains⟩

/-- The character is in no word, and with it neither an annotation nor a call goes on after a word.
-/
def Parts (c : Char) : Prop := isWord c = false ∧ c ≠ ':' ∧ c ≠ '('

theorem parts_of_apart (h : Apart after) : ∀ c ∈ after.head?, Parts c := by
  intro c hc
  refine ⟨h.isWord_eq_false c hc, ?_, ?_⟩ <;> rintro rfl <;> exact absurd (h _ hc) (by decide)

/-- The rules before that for names have no match. -/
theorem fails_of_words (hwords : ∀ c ∈ words, isWord c = true) (htail : ∀ c ∈ tail.head?, Parts c)
    (hrest : cursor.rest = words ++ tail) :
    ∀ earlier ∈ (commandPatterns caseSensitive).take 2, earlier.2.Fails cursor := by
  have hmarks : (annotationPattern caseSensitive).Fails cursor :=
    fails_annotation hwords (fun c hc => ⟨(htail c hc).1, (htail c hc).2.1⟩) hrest
  have hcall : (callPattern caseSensitive).Fails cursor :=
    fails_call hwords (fun c hc => ⟨(htail c hc).1, (htail c hc).2.2⟩) hrest
  exact List.forall_mem_cons.mpr ⟨hmarks, List.forall_mem_singleton.mpr hcall⟩

theorem fails_name {c : Char} (hc : (callStart caseSensitive).contains c = false)
    (hrest : cursor.rest = c :: after) : (namePattern caseSensitive).Fails cursor :=
  .seq (fails_char hrest hc)

/-- The rules before that for operators have no match at a sign. -/
theorem fails_of_sign {c : Char} (hc : Parts c) (hrest : cursor.rest = c :: after) :
    ∀ earlier ∈ (commandPatterns caseSensitive).take 3, earlier.2.Fails cursor := by
  have hfront : ∀ earlier ∈ (commandPatterns caseSensitive).take 2, earlier.2.Fails cursor := by
    refine fails_of_words (List.forall_mem_nil _) ?_ hrest
    rintro _ ⟨⟩
    exact hc
  have hname : (namePattern caseSensitive).Fails cursor := by
    refine fails_name (Bool.eq_false_iff.mpr fun hstart => ?_) hrest
    exact Bool.false_ne_true (hc.1.symm.trans (isWord_of_callStart hstart))
  exact List.forall_mem_append.mpr ⟨hfront, List.forall_mem_singleton.mpr hname⟩

/-- The rules before that for numbers have no match at a number: at its end, or before its point,
there is no word that goes on. -/
theorem fails_of_number (h : IsNumber lexeme) (hrest : cursor.rest = lexeme ++ after)
    (hafter : Apart after) :
    ∀ earlier ∈ (commandPatterns caseSensitive).take 4, earlier.2.Fails cursor := by
  have hdigits : ∃ digits tail, cursor.rest = digits ++ tail ∧ IsDigits digits ∧
      ∀ c ∈ tail.head?, Parts c := by
    cases h with
    | integer hdigits => exact ⟨lexeme, after, hrest, hdigits, parts_of_apart hafter⟩
    | @decimal digits fraction hdigits _ =>
        refine ⟨digits, '.' :: fraction ++ after, by rw [hrest, List.append_assoc], hdigits, ?_⟩
        rintro _ ⟨⟩
        exact ⟨by decide, by decide, by decide⟩
  obtain ⟨digits, tail, hrest, hdigits, htail⟩ := hdigits
  have hwords : ∀ c ∈ digits, isWord c = true := fun c hc => isWord_of_isDigit (hdigits.2 c hc)
  obtain ⟨c, others, rfl, hc⟩ := hdigits.exists_head
  have hname : (namePattern caseSensitive).Fails cursor := by
    refine fails_name (Bool.eq_false_iff.mpr fun hstart => ?_) hrest
    exact Bool.false_ne_true ((isDigit_of_callStart hstart).symm.trans hc)
  have hoperator : (oneOfEach [operatorSet]).Fails cursor :=
    fails_char hrest (contains_eq_false_of_inter
      (by decide : digitSet.inter operatorSet = .empty) (contains_digitSet.mpr hc))
  exact List.forall_mem_append.mpr ⟨fails_of_words hwords htail hrest,
    List.forall_mem_cons.mpr ⟨hname, List.forall_mem_singleton.mpr hoperator⟩⟩

/-- The rules before that for literals have no match at a sign that begins no operator. -/
theorem fails_of_mark {c : Char} (hc : Parts c) (hoperator : operatorSet.contains c = false)
    (hdigit : digitSet.contains c = false) (hrest : cursor.rest = c :: after) :
    ∀ earlier ∈ (commandPatterns caseSensitive).take 5, earlier.2.Fails cursor := by
  have hnumber : numberPattern.Fails cursor := .seq (.plus (fails_char hrest hdigit))
  exact List.forall_mem_append.mpr ⟨fails_of_sign hc hrest,
    List.forall_mem_cons.mpr ⟨fails_char hrest hoperator, List.forall_mem_singleton.mpr hnumber⟩⟩

/-- Within a line letters with a colon after them are no marker. They are a name, and the colon is
left. -/
theorem prefers_name_within {first : Char} {others : List Char}
    (hletters : ∀ c ∈ first :: others, (letterSet caseSensitive).contains c = true)
    (hline : Assertion.lineStart.holds cursor = false)
    (hrest : cursor.rest = first :: others ++ ':' :: after) :
    (∀ earlier ∈ (commandPatterns caseSensitive).take 2, earlier.2.Fails cursor) ∧
      (namePattern caseSensitive).Prefers cursor (first :: others).length := by
  obtain ⟨hfirst, hothers⟩ := List.forall_mem_cons.mp fun c hc =>
    isWord_of_letterSet (hletters c hc)
  have hstart : (callStart caseSensitive).contains first = true :=
    callStart_of_letterSet (hletters first (.head _))
  have hcolon : (CharSet.single ':').contains first = false :=
    Bool.eq_false_iff.mpr fun hcolon => by
    rw [contains_single.mp hcolon] at hfirst
    exact absurd hfirst (by decide)
  have hmarks : (annotationPattern caseSensitive).Fails cursor :=
    .alt (.seq (.seq (fails_assert hline))) (.seq (.seq (fails_char hrest hcolon)))
  have hcall : (callPattern caseSensitive).Fails cursor := by
    refine fails_call (List.forall_mem_cons.mpr ⟨hfirst, hothers⟩) ?_ hrest
    rintro _ ⟨⟩
    decide
  refine ⟨List.forall_mem_cons.mpr ⟨hmarks, List.forall_mem_singleton.mpr hcall⟩, ?_⟩
  rw [List.length_cons, Nat.add_comm]
  exact prefers_name hstart hothers hrest (head?_of_sign (by decide))

/-- A lexeme that is apart from what comes after it is preferred whole by the rule of its kind, and
the rules before that have no match. An operator need not be apart. -/
theorem prefers_of_takes {kind : String} {pattern : Pattern}
    (hkind : (kind, pattern) ∈ commandPatterns caseSensitive) (htakes : pattern.Takes lexeme)
    (hline : IsMarker caseSensitive lexeme → Assertion.lineStart.holds cursor = true)
    (hrest : cursor.rest = lexeme ++ after) (hafter : kind = Kind.operator ∨ Apart after) :
    ∃ front others, commandPatterns caseSensitive = front ++ (kind, pattern) :: others ∧
      (∀ earlier ∈ front, earlier.2.Fails cursor) ∧ pattern.Prefers cursor lexeme.length := by
  -- The cases are the rules in their order, so each has one rule more before it.
  simp only [commandPatterns, List.mem_cons, Prod.mk.injEq, List.not_mem_nil, or_false] at hkind
  rcases hkind with ⟨rfl, rfl⟩ | ⟨rfl, rfl⟩ | ⟨rfl, rfl⟩ | ⟨rfl, rfl⟩ | ⟨rfl, rfl⟩ | ⟨rfl, rfl⟩ |
    ⟨rfl, rfl⟩
  · refine ⟨[], _, rfl, List.forall_mem_nil _, ?_⟩
    rcases htakes.isMarker_or_isNote with hmarker | hnote
    · exact prefers_marker hmarker (hline hmarker) hrest
    · exact prefers_note hnote hrest
  · obtain ⟨first, others, inner, rfl, hfirst, hothers, hinner⟩ := exists_parts_of_takes htakes
    have hrest' : cursor.rest = first :: others ++ '(' :: (inner ++ ')' :: after) := by
      rw [hrest]
      simp
    have hmarks : (annotationPattern caseSensitive).Fails cursor := by
      have hname : ∀ c ∈ first :: others, isWord c = true :=
        List.forall_mem_cons.mpr ⟨isWord_of_callStart hfirst, hothers⟩
      refine fails_annotation hname ?_ hrest'
      rintro _ ⟨⟩
      decide
    refine ⟨(commandPatterns caseSensitive).take 1, _, rfl,
      List.forall_mem_singleton.mpr hmarks, ?_⟩
    have hlength : (first :: others ++ '(' :: (inner ++ [')'])).length =
        1 + others.length + 1 + inner.length + 1 := by
      simp only [List.length_append, List.length_cons, List.length_nil]
      omega
    rw [hlength]
    exact prefers_call hfirst hothers hinner hrest'
  · have happart : Apart after := hafter.resolve_left (by decide)
    obtain ⟨first, others, rfl, hfirst, hothers⟩ := htakes.exists_first
    refine ⟨(commandPatterns caseSensitive).take 2, _, rfl,
      fails_of_words htakes.isName.word (parts_of_apart happart) hrest, ?_⟩
    rw [List.length_cons, Nat.add_comm]
    exact prefers_name hfirst hothers hrest happart.isWord_eq_false
  · obtain ⟨c, rfl, hc⟩ := htakes.eq_singleton
    have hparts : Parts c := by
      have hsign := contains_operatorSet hc
      simp only [List.mem_cons, List.not_mem_nil, or_false] at hsign
      rcases hsign with rfl | rfl | rfl | rfl | rfl <;> exact ⟨by decide, by decide, by decide⟩
    exact ⟨(commandPatterns caseSensitive).take 3, _, rfl, fails_of_sign hparts hrest,
      prefers_char hrest hc⟩
  · have happart : Apart after := hafter.resolve_left (by decide)
    exact ⟨(commandPatterns caseSensitive).take 4, _, rfl,
      fails_of_number htakes.isNumber hrest happart, prefers_number htakes hrest happart⟩
  · obtain ⟨body, rfl, -⟩ := htakes.isLiteral
    have hparts : Parts '"' := ⟨by decide, by decide, by decide⟩
    exact ⟨(commandPatterns caseSensitive).take 5, _, rfl,
      fails_of_mark hparts (by decide) (by decide) hrest,
      prefers_literal htakes hrest⟩
  · obtain rfl := htakes.eq_of_single
    have hparts : Parts ';' := ⟨by decide, by decide, by decide⟩
    have hliteral : literalPattern.Fails cursor := .seq (.seq (fails_char hrest (by decide)))
    have hfront : ∀ earlier ∈ (commandPatterns caseSensitive).take 5, earlier.2.Fails cursor :=
      fails_of_mark hparts (by decide) (by decide) hrest
    refine ⟨(commandPatterns caseSensitive).take 6, _, rfl, ?_, prefers_sign hrest⟩
    exact List.forall_mem_append.mpr ⟨hfront, List.forall_mem_singleton.mpr hliteral⟩

end Pattern

end QubitScript
