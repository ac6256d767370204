import Mathlib.Data.List.Basic
import Mathlib.Data.List.Forall2
import QubitScript.Expr.Token
import QubitScript.Proofs.Running
import QubitScript.Proofs.Text.Fronts

/-!
# Texts cut into tokens

How a text is cut, apart from the lines of its tokens. A piece ends where it does whatever breaking
character comes after it, unless the piece is a literal, which goes on to its closing quote.
-/

namespace QubitScript.Expr

/-- The tokens of a text. -/
inductive Cuts : List Char → List Token → Prop
  | nil : Cuts [] []
  | gap {c : Char} {rest after : List Char} {tokens : List Token} :
      cut c rest = (.gap, after) → Cuts after tokens → Cuts (c :: rest) tokens
  | token {c : Char} {rest after : List Char} {token : Token} {tokens : List Token} :
      cut c rest = (.token token, after) → Cuts after tokens →
      Cuts (c :: rest) (token :: tokens)

/-! ## Parts of a text -/

/-- A character that no name and no number goes on with. -/
def isBreak (c : Char) : Bool := !isNamePart c && c != '.'

theorem isNamePart_of_isBreak {c : Char} (h : isBreak c = true) : isNamePart c = false := by
  simp only [isBreak, Bool.and_eq_true, Bool.not_eq_true'] at h
  exact h.1

theorem ne_point_of_isBreak {c : Char} (h : isBreak c = true) : c ≠ '.' := by
  simp only [isBreak, Bool.and_eq_true, bne_iff_ne] at h
  exact h.2

theorem isDigit_of_isNamePart {c : Char} (h : isNamePart c = false) : c.isDigit = false := by
  simp only [isNamePart, Char.isAlphanum, Bool.or_eq_false_iff] at h
  exact h.1.2

/-- The digits of a fraction at the front of a text, and what follows them. -/
def fraction? : List Char → Option (List Char × List Char)
  | '.' :: text =>
    if (text.takeWhile Char.isDigit).isEmpty then none
    else some (text.takeWhile Char.isDigit, text.dropWhile Char.isDigit)
  | _ => none

def integerPiece (digits : List Char) : Piece :=
  if Text.natOfDigits digits < 2 ^ 63 then .token (.integer (.ofNat (Text.natOfDigits digits)))
  else .fault (.tooLarge (String.ofList digits))

theorem numberPiece_eq (text : List Char) : numberPiece text =
    match fraction? (text.dropWhile Char.isDigit) with
    | some (fraction, rest) =>
      (.token (.real (Number.realOfDigits (text.takeWhile Char.isDigit) fraction 0)), rest)
    | none => (integerPiece (text.takeWhile Char.isDigit), text.dropWhile Char.isDigit) := by
  unfold numberPiece integerPiece
  simp only
  generalize text.dropWhile Char.isDigit = rest
  split
  next after =>
    rw [fraction?]
    by_cases hfraction : (after.takeWhile Char.isDigit).isEmpty = true
    · simp only [hfraction, if_true]
      split <;> rfl
    · simp only [hfraction]
      rfl
  next other =>
    rw [fraction?]
    · split <;> rfl
    · exact other

theorem fraction?_append {text after : List Char} (h : ∀ c ∈ after.head?, isBreak c = true) :
    fraction? (text ++ after) = (fraction? text).map fun (fraction, rest) =>
      (fraction, rest ++ after) := by
  have hdigit : ∀ c ∈ after.head?, c.isDigit = false := fun c hc =>
    isDigit_of_isNamePart (isNamePart_of_isBreak (h c hc))
  cases text with
  | nil =>
      cases after with
      | nil => rfl
      | cons c after =>
          rw [List.nil_append]
          unfold fraction?
          split
          next heq =>
            cases heq
            exact absurd (h '.' rfl) (by decide)
          next => rfl
  | cons c text =>
      rw [List.cons_append]
      unfold fraction?
      split
      next heq =>
        cases heq
        simp only [takeWhile_append_of_head hdigit, dropWhile_append_of_head hdigit]
        split <;> rfl
      next other =>
        split
        next heq =>
          cases heq
          exact absurd rfl (other (text ++ after))
        next => rfl

theorem numberPiece_append (text : List Char) {after : List Char}
    (h : ∀ c ∈ after.head?, isBreak c = true) :
    numberPiece (text ++ after) = ((numberPiece text).1, (numberPiece text).2 ++ after) := by
  have hdigit : ∀ c ∈ after.head?, c.isDigit = false := fun c hc =>
    isDigit_of_isNamePart (isNamePart_of_isBreak (h c hc))
  rw [numberPiece_eq, numberPiece_eq, takeWhile_append_of_head hdigit,
    dropWhile_append_of_head hdigit, fraction?_append h]
  cases fraction? (text.dropWhile Char.isDigit) <;> rfl

/-- Apart from literals, pieces do not depend on what comes after a break. -/
theorem cut_append {c : Char} {text after : List Char} (hc : c ≠ '"')
    (h : ∀ c ∈ after.head?, isBreak c = true) :
    cut c (text ++ after) = ((cut c text).1, (cut c text).2 ++ after) := by
  have hname : ∀ c ∈ after.head?, isNamePart c = false := fun c hc => isNamePart_of_isBreak (h c hc)
  unfold cut
  split
  · rfl
  · split
    · simp_all
    · split
      · rw [takeWhile_append_of_head hname, dropWhile_append_of_head hname]
      · split
        · exact numberPiece_append (c :: text) h
        · split <;> rfl

/-! ## Literals -/

/-- What can stand between quotes. -/
def Quotable (body : List Char) : Prop := ∀ c ∈ body, c ≠ '"' ∧ c ≠ '\n'

theorem cut_quote (text : List Char) : cut '"' text = quotedPiece text := rfl

theorem cut_quote_ne_gap {text after : List Char} : cut '"' text ≠ (.gap, after) := by
  rw [cut_quote]
  unfold quotedPiece
  simp only
  split <;> nofun

theorem quotedPiece_eq_token {text after : List Char} {token : Token}
    (h : quotedPiece text = (.token token, after)) :
    ∃ body, text = body ++ '"' :: after ∧ Quotable body ∧ token = .text (String.ofList body) := by
  unfold quotedPiece at h
  simp only at h
  split at h
  next rest hrest =>
    cases h
    refine ⟨_, ?_, fun c hc => ?_, rfl⟩
    · rw [← hrest, List.takeWhile_append_dropWhile]
    · simpa using List.mem_takeWhile_imp hc
  next => cases h

theorem quotedPiece_append {body after : List Char} (h : Quotable body) :
    quotedPiece (body ++ '"' :: after) = (.token (.text (String.ofList body)), after) := by
  have hwithin : ∀ c ∈ body, (c != '"' && c != '\n') = true := fun c hc => by simpa using h c hc
  have hafter : ∀ c ∈ ('"' :: after).head?, (c != '"' && c != '\n') = false := by simp
  unfold quotedPiece
  simp only [takeWhile_append_of_head hafter, dropWhile_append_of_head hafter,
    List.takeWhile_eq_self_iff.mpr hwithin, List.dropWhile_eq_nil_iff.mpr hwithin, List.nil_append]

/-! ## What is left -/

theorem numberPiece_suffix (text : List Char) : (numberPiece text).2 <:+ text := by
  rw [numberPiece_eq]
  split
  next fraction rest heq =>
    unfold fraction? at heq
    split at heq
    next after hrest =>
      split at heq
      · cases heq
      · cases heq
        refine (List.dropWhile_suffix _).trans ?_
        refine (List.suffix_cons '.' after).trans ?_
        rw [← hrest]
        exact List.dropWhile_suffix _
    next => cases heq
  next => exact List.dropWhile_suffix _

theorem quotedPiece_suffix (text : List Char) : (quotedPiece text).2 <:+ text := by
  unfold quotedPiece
  simp only
  split
  next rest hrest =>
    refine (List.suffix_cons '"' rest).trans ?_
    rw [← hrest]
    exact List.dropWhile_suffix _
  next => exact List.dropWhile_suffix _

theorem cut_suffix (c : Char) (text : List Char) : (cut c text).2 <:+ text := by
  unfold cut
  split
  · exact List.suffix_rfl
  · split
    · exact quotedPiece_suffix text
    · split
      · exact List.dropWhile_suffix _
      · split
        next hdigit =>
          rcases List.suffix_cons_iff.mp (numberPiece_suffix (c :: text)) with h | h
          · have := length_numberPiece_lt hdigit text
            rw [h] at this
            exact absurd this (Nat.lt_irrefl _)
          · exact h
        next => split <;> exact List.suffix_rfl

theorem count_numberPiece {d : Char} (hd : isBreak d = true) (text : List Char) :
    (numberPiece text).2.count d = text.count d := by
  have hdigit := isDigit_of_isNamePart (isNamePart_of_isBreak hd)
  rw [numberPiece_eq]
  split
  next fraction rest heq =>
    unfold fraction? at heq
    split at heq
    next after hrest =>
      split at heq
      · cases heq
      · cases heq
        have hdigits : (text.dropWhile Char.isDigit).count d = text.count d :=
          count_dropWhile hdigit
        rw [count_dropWhile hdigit, ← hdigits, hrest,
          List.count_cons_of_ne (ne_point_of_isBreak hd).symm]
    next => cases heq
  next => exact count_dropWhile hdigit

/-- A piece that is no literal takes no breaking character after its first one. -/
theorem count_cut {c d : Char} (hc : c ≠ '"') (hd : isBreak d = true) (text : List Char) :
    (cut c text).2.count d = text.count d := by
  have hname := isNamePart_of_isBreak hd
  unfold cut
  split
  · rfl
  · split
    · simp_all
    · split
      · exact count_dropWhile hname
      · split
        next hdigit =>
          have hne : c ≠ d := by
            rintro rfl
            rw [isDigit_of_isNamePart hname] at hdigit
            cases hdigit
          rw [count_numberPiece hd, List.count_cons_of_ne hne]
        next => split <;> rfl

/-- No piece takes a line break after its first character. -/
theorem count_cut_lineBreak (c : Char) (text : List Char) :
    (cut c text).2.count '\n' = text.count '\n' := by
  by_cases hc : c = '"'
  · subst hc
    have hbody : (text.dropWhile fun c => c != '"' && c != '\n').count '\n' = text.count '\n' :=
      count_dropWhile (by decide)
    rw [cut_quote]
    unfold quotedPiece
    simp only
    split
    next rest hrest =>
      rw [hrest, List.count_cons_of_ne (by decide)] at hbody
      exact hbody
    next => exact hbody
  · exact count_cut hc (by decide) text

/-! ## Cutting a whole text -/

/-- A text is cut piece by piece, from its front on. -/
@[elab_as_elim]
theorem cut_induction {P : List Char → Prop} (nil : P [])
    (piece : ∀ c rest, P (cut c rest).2 → P (c :: rest)) (text : List Char) : P text := by
  induction hlength : text.length using Nat.strong_induction_on generalizing text with
  | _ length ih =>
      subst hlength
      cases text with
      | nil => exact nil
      | cons c rest => exact piece c rest (ih _ (Nat.lt_succ_of_le (length_cut_le c rest)) _ rfl)

theorem tokenize_nil (line : Nat) : tokenize [] line = .ok [⟨line, .lineEnd⟩] := by
  rw [tokenize]

theorem tokenize_gap {c : Char} {rest after : List Char} {line : Nat}
    (h : cut c rest = (.gap, after)) : tokenize (c :: rest) line = tokenize after line := by
  rw [tokenize]
  split
  next heq =>
    cases h.symm.trans heq
    rfl
  next heq => cases h.symm.trans heq
  next heq => cases h.symm.trans heq

/-- A token carries the line that it ends on, which is the next one if it is a line break. -/
theorem tokenize_token_eq {c : Char} {rest after : List Char} {token : Token} {line : Nat}
    (h : cut c rest = (.token token, after)) :
    tokenize (c :: rest) line =
      (tokenize after (if c == '\n' then line + 1 else line)).map
        (⟨if c == '\n' then line + 1 else line, token⟩ :: ·) := by
  rw [tokenize]
  split
  next heq => cases h.symm.trans heq
  next heq => cases h.symm.trans heq
  next heq =>
    cases h.symm.trans heq
    rfl

theorem tokenize_fault {c : Char} {rest after : List Char} {fault : TokenFault} {line : Nat}
    (h : cut c rest = (.fault fault, after)) :
    tokenize (c :: rest) line = .error ⟨line, fault⟩ := by
  rw [tokenize]
  split
  next heq => cases h.symm.trans heq
  next heq =>
    cases h.symm.trans heq
    rfl
  next heq => cases h.symm.trans heq

/-! ## Texts of one line -/

/-- The tokens of a text of one line, with the end of the line after them. -/
def onLine (line : Nat) (tokens : List Token) : List (Located Token) :=
  tokens.map (⟨line, ·⟩) ++ [⟨line, .lineEnd⟩]

theorem tokenize_token {c : Char} {rest after : List Char} {token : Token} {line : Nat}
    (h : cut c rest = (.token token, after)) (hline : c ≠ '\n') :
    tokenize (c :: rest) line = (tokenize after line).map (⟨line, token⟩ :: ·) := by
  rw [tokenize_token_eq h, beq_eq_false_iff_ne.mpr hline]
  rfl

theorem not_mem_after {c d : Char} {rest after : List Char} {piece : Piece}
    (hcut : cut c rest = (piece, after)) (h : d ∉ c :: rest) : d ∉ after := by
  have hafter : after <:+ rest := by
    have := cut_suffix c rest
    rwa [hcut] at this
  exact fun hd => h (.tail c (hafter.mem hd))

theorem tokenize_of_cuts {text : List Char} {tokens : List Token} {line : Nat}
    (h : Cuts text tokens) : '\n' ∉ text → tokenize text line = .ok (onLine line tokens) := by
  induction h with
  | nil =>
      intro _
      exact tokenize_nil line
  | gap hcut _ ih =>
      intro hline
      rw [tokenize_gap hcut]
      exact ih (not_mem_after hcut hline)
  | token hcut _ ih =>
      intro hline
      rw [tokenize_token hcut (List.ne_of_not_mem_cons hline).symm, ih (not_mem_after hcut hline)]
      rfl

theorem cuts_of_tokenize {text : List Char} {line : Nat} : ∀ {located : List (Located Token)},
    '\n' ∉ text → tokenize text line = .ok located →
    ∃ tokens, Cuts text tokens ∧ located = onLine line tokens := by
  induction text using cut_induction with
  | nil =>
      intro located _ h
      rw [tokenize_nil] at h
      cases h
      exact ⟨[], .nil, rfl⟩
  | piece c rest ih =>
      intro located hline h
      rcases hcut : cut c rest with ⟨piece, after⟩
      rw [hcut] at ih
      cases piece with
      | fault fault =>
          rw [tokenize_fault hcut] at h
          cases h
      | gap =>
          rw [tokenize_gap hcut] at h
          obtain ⟨tokens, hcuts, rfl⟩ := ih (not_mem_after hcut hline) h
          exact ⟨tokens, .gap hcut hcuts, rfl⟩
      | token token =>
          rw [tokenize_token hcut (List.ne_of_not_mem_cons hline).symm] at h
          obtain ⟨others, hothers, rfl⟩ := map_eq_ok.mp h
          obtain ⟨tokens, hcuts, rfl⟩ := ih (not_mem_after hcut hline) hothers
          exact ⟨token :: tokens, .token hcut hcuts, rfl⟩

end QubitScript.Expr
