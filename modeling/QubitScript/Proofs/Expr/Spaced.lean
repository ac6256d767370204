import QubitScript.Proofs.Expr.Cuts
import QubitScript.Proofs.Lexer.Terms

/-!
# Tokens with spaces between them

A text that is cut off as one token before any break can be put together with others of its kind:
with single spaces between them they are cut into their tokens again. What tokens are written as are
such texts, except for reals, negative integers, texts that do not fit between quotes and names that
are no identifiers.
-/

namespace QubitScript

open QubitScript.Text

/-- A name of ASCII letters, digits and underscores, without a digit at the front. -/
def isIdentifier (name : String) : Bool :=
  match name.toList with
  | [] => false
  | c :: rest => Expr.isNameStart c && rest.all Expr.isNamePart

theorem exists_head_of_isIdentifier {name : String} (h : isIdentifier name = true) :
    ∃ c rest, name.toList = c :: rest ∧ Expr.isNameStart c = true ∧
      ∀ d ∈ rest, Expr.isNamePart d = true := by
  rw [isIdentifier] at h
  split at h
  · cases h
  next c rest htext =>
    obtain ⟨hc, hrest⟩ := (Bool.and_eq_true _ _).mp h
    exact ⟨c, rest, htext, hc, List.all_eq_true.mp hrest⟩

theorem isDigits_repr (m : Nat) : IsDigits m.repr.toList := by
  rw [Nat.toList_repr]
  exact ⟨Nat.toDigits_ne_nil, fun c hc => Nat.isDigit_of_mem_toDigits (by decide) (by decide) hc⟩

theorem natOfDigits_repr (m : Nat) : natOfDigits m.repr.toList = m := by
  rw [Nat.toList_repr]
  exact Nat.ofDigitChars_toDigits (by decide) (by decide)

namespace Expr

/-! ## Texts that are cut off whole -/

/-- Before a break the text is cut off as the token, on whatever line. -/
def CutOff (text : List Char) (token : Token) : Prop :=
  ∀ (line : Nat) (after : List Char), (∀ d ∈ after.head?, isBreak d = true) →
    tokenize (text ++ after) line = (tokenize after line).map (⟨line, token⟩ :: ·)

theorem isNameStart_of_isNamePart {c : Char} (h : isNamePart c = true)
    (hdigit : c.isDigit = false) :
    isNameStart c = true := by
  simpa [isNamePart, isNameStart, Char.isAlphanum, hdigit] using h

theorem isNameStart_of_isDigit {c : Char} (h : c.isDigit = true) : isNameStart c = false := by
  have hcode : 48 ≤ c.toNat ∧ c.toNat ≤ 57 := Char.isDigit_iff_toNat.mp h
  rw [← Bool.not_eq_true, isNameStart, Bool.or_eq_true, beq_iff_eq]
  rintro (halpha | rfl)
  · rcases (Bool.or_eq_true _ _).mp halpha with hupper | hlower
    · have hlow : 'A'.toNat ≤ c.toNat := (of_decide_eq_true hupper).1
      exact absurd (Nat.le_trans hlow hcode.2) (by decide)
    · have hlow : 'a'.toNat ≤ c.toNat := of_decide_eq_true ((Bool.and_eq_true _ _).mp hlower).1
      exact absurd (Nat.le_trans hlow hcode.2) (by decide)
  · exact absurd h (by decide)

theorem isGap_of_isNamePart {c : Char} (h : isNamePart c = true) : isGap c = false := by
  rw [← Bool.not_eq_true, isGap]
  simp only [Bool.or_eq_true, beq_iff_eq]
  rintro (((rfl | rfl) | rfl) | rfl) <;> exact absurd h (by decide)

theorem ne_quote_of_isNamePart {c : Char} (h : isNamePart c = true) : (c == '"') = false := by
  rw [beq_eq_false_iff_ne]
  rintro rfl
  exact absurd h (by decide)

theorem ne_newline_of_isNamePart {c : Char} (h : isNamePart c = true) : c ≠ '\n' := by
  rintro rfl
  exact absurd h (by decide)

theorem isNamePart_of_isNameStart {c : Char} (h : isNameStart c = true) : isNamePart c = true := by
  rcases (Bool.or_eq_true _ _).mp h with halpha | hunderscore
  · exact (Bool.or_eq_true _ _).mpr (.inl ((Bool.or_eq_true _ _).mpr (.inl halpha)))
  · exact (Bool.or_eq_true _ _).mpr (.inr hunderscore)

theorem isNamePart_of_isDigit {c : Char} (h : c.isDigit = true) : isNamePart c = true :=
  (Bool.or_eq_true _ _).mpr (.inl ((Bool.or_eq_true _ _).mpr (.inr h)))

/-- A name is cut off before a character that it does not go on with. -/
theorem cut_name {c : Char} {others after : List Char} (hc : isNameStart c = true)
    (hothers : ∀ d ∈ others, isNamePart d = true)
    (hafter : ∀ d ∈ after.head?, isNamePart d = false) :
    cut c (others ++ after) = (.token (.identifier (String.ofList (c :: others))), after) := by
  have hpart := isNamePart_of_isNameStart hc
  simp only [cut, isGap_of_isNamePart hpart, ne_quote_of_isNamePart hpart, hc, if_true,
    Bool.false_eq_true, if_false, takeWhile_append_of_head hafter, dropWhile_append_of_head hafter,
    List.takeWhile_eq_self_iff.mpr hothers, List.dropWhile_eq_nil_iff.mpr hothers, List.nil_append]

theorem cut_digit {c : Char} (hc : c.isDigit = true) (rest : List Char) :
    cut c rest = numberPiece (c :: rest) := by
  have hpart := isNamePart_of_isDigit hc
  simp only [cut, isGap_of_isNamePart hpart, ne_quote_of_isNamePart hpart,
    isNameStart_of_isDigit hc, hc, if_true, Bool.false_eq_true, if_false]

theorem numberPiece_digits {digits : List Char} (h : IsDigits digits) :
    numberPiece digits = (integerPiece digits, []) := by
  rw [numberPiece_eq, List.takeWhile_eq_self_iff.mpr h.2, List.dropWhile_eq_nil_iff.mpr h.2]
  rfl

theorem numberPiece_decimal {digits fraction : List Char} (hdigits : IsDigits digits)
    (hfraction : IsDigits fraction) : numberPiece (digits ++ '.' :: fraction) =
      (.token (.real (Number.realOfDigits digits fraction 0)), []) := by
  have hpoint : ∀ d ∈ ('.' :: fraction).head?, d.isDigit = false := by
    rintro _ ⟨⟩
    decide
  have hafter : fraction? ('.' :: fraction) = some (fraction, []) := by
    rw [fraction?, List.takeWhile_eq_self_iff.mpr hfraction.2,
      List.dropWhile_eq_nil_iff.mpr hfraction.2, if_neg (by simpa using hfraction.1)]
  rw [numberPiece_eq, takeWhile_append_of_head hpoint, dropWhile_append_of_head hpoint,
    List.takeWhile_eq_self_iff.mpr hdigits.2, List.dropWhile_eq_nil_iff.mpr hdigits.2,
    List.nil_append, hafter]

/-- A number that is one piece is cut off as that piece before a break. -/
theorem cut_number {text after : List Char} {piece : Piece} (h : IsNumber text)
    (hpiece : numberPiece text = (piece, [])) (hafter : ∀ d ∈ after.head?, isBreak d = true) :
    ∃ c others, text = c :: others ∧ c ≠ '\n' ∧ cut c (others ++ after) = (piece, after) := by
  obtain ⟨c, others, rfl, hc⟩ := h.exists_head
  refine ⟨c, others, rfl, ne_newline_of_isNamePart (isNamePart_of_isDigit hc), ?_⟩
  rw [cut_digit hc, ← List.cons_append, numberPiece_append _ hafter, hpiece, List.nil_append]

/-! ## One token -/

namespace CutOff

theorem number {text : List Char} {token : Token} (h : IsNumber text)
    (hpiece : numberPiece text = (.token token, [])) : CutOff text token := by
  intro line after hafter
  obtain ⟨c, others, rfl, hline, hcut⟩ := cut_number h hpiece hafter
  exact tokenize_token hcut hline

theorem integer {digits : List Char} (h : IsDigits digits) (hsmall : natOfDigits digits < 2 ^ 63) :
    CutOff digits (.integer (.ofNat (natOfDigits digits))) := by
  have hpiece := numberPiece_digits h
  rw [integerPiece, if_pos hsmall] at hpiece
  exact .number (.integer h) hpiece

theorem decimal {digits fraction : List Char} (hdigits : IsDigits digits)
    (hfraction : IsDigits fraction) :
    CutOff (digits ++ '.' :: fraction) (.real (Number.realOfDigits digits fraction 0)) :=
  .number (.decimal hdigits hfraction) (numberPiece_decimal hdigits hfraction)

theorem name {c : Char} {others : List Char} (hc : isNameStart c = true)
    (hothers : ∀ d ∈ others, isNamePart d = true) :
    CutOff (c :: others) (.identifier (String.ofList (c :: others))) := by
  intro line after hafter
  have hcut := cut_name hc hothers fun d hd => isNamePart_of_isBreak (hafter d hd)
  exact tokenize_token hcut (ne_newline_of_isNamePart (isNamePart_of_isNameStart hc))

theorem quoted {body : List Char} (h : Quotable body) :
    CutOff ('"' :: (body ++ ['"'])) (.text (String.ofList body)) := by
  intro line after _
  rw [List.cons_append, List.append_assoc]
  exact tokenize_token (quotedPiece_append h) (by decide)

theorem sign {c : Char} {token : Token} (h : Token.single? c = some token) (hc : c ≠ '\n') :
    CutOff [c] token := by
  intro line after _
  unfold Token.single? at h
  split at h
  case h_10 => exact absurd rfl hc
  case h_11 => cases h
  all_goals
    cases h
    exact tokenize_token rfl hc

end CutOff

/-! ## Many tokens -/

/-- After its first part a text goes on with the other parts, if there are any. -/
theorem exists_after_spaced (text : String) (texts : List String) (line : Nat) :
    ∃ after, (" ".intercalate (text :: texts)).toList = text.toList ++ after ∧
      (∀ d ∈ after.head?, isBreak d = true) ∧
      tokenize after line = tokenize (" ".intercalate texts).toList line := by
  cases texts with
  | nil => exact ⟨[], by simp, nofun, rfl⟩
  | cons other others =>
      refine ⟨' ' :: (" ".intercalate (other :: others)).toList, ?_, ?_, tokenize_gap rfl⟩
      · rw [String.toList_intercalate, String.toList_intercalate, List.map_cons,
          List.intercalate_cons_of_ne_nil (by simp), List.append_assoc]
        rfl
      · rintro _ ⟨⟩
        decide

theorem tokenize_spaced {texts : List String} {tokens : List Token} (line : Nat)
    (h : List.Forall₂ (fun text token => CutOff text.toList token) texts tokens) :
    tokenize (" ".intercalate texts).toList line = .ok (onLine line tokens) := by
  induction h with
  | nil => exact tokenize_of_cuts .nil (by decide)
  | @cons text _ texts _ hcut _ ih =>
      obtain ⟨after, htext, hafter, hrest⟩ := exists_after_spaced text texts line
      rw [htext, hcut line after hafter, hrest, ih]
      rfl

/-! ## Tokens as they are written -/

/-- Whether a token can be told from what it is written as. Reals, the ends of lines and what is
ignored are left out. -/
def Token.isPlain : Token → Bool
  | .real _ | .lineEnd | .ignored => false
  | .integer value => decide (0 ≤ value.toInt)
  | .text value => value.toList.all fun c => c != '"' && c != '\n'
  | .identifier name => isIdentifier name
  | _ => true

theorem cutOff_write_integer {value : Int64} (h : 0 ≤ value.toInt) :
    CutOff (Token.integer value).write.toList (.integer value) := by
  obtain ⟨m, hm⟩ := Int.eq_ofNat_of_zero_le h
  have hsmall : m < 2 ^ 63 := by
    have := value.toInt_lt
    omega
  have hvalue : Int64.ofNat m = value := by
    rw [← Int64.toInt_inj, Int64.toInt_ofNat_of_lt hsmall, hm]
  have hwrite : (Token.integer value).write = m.repr := by
    rw [Token.write, hm]
    rfl
  have hcut := CutOff.integer (isDigits_repr m) (by rwa [natOfDigits_repr])
  rwa [natOfDigits_repr, hvalue, ← hwrite] at hcut

/-- What a plain token is written as is cut off as the token. -/
theorem cutOff_write {token : Token} (h : token.isPlain = true) :
    CutOff token.write.toList token := by
  cases token with
  | real _ | lineEnd | ignored => cases h
  | integer value => exact cutOff_write_integer (of_decide_eq_true h)
  | text value =>
      have hbody : Quotable value.toList := by
        simpa [Token.isPlain, Quotable] using h
      have hcut := CutOff.quoted hbody
      rw [String.ofList_toList] at hcut
      simpa [Token.write] using hcut
  | identifier name =>
      obtain ⟨c, rest, htext, hc, hrest⟩ := exists_head_of_isIdentifier h
      have hcut := CutOff.name hc hrest
      rwa [← htext, String.ofList_toList] at hcut
  | _ => exact .sign rfl (by decide)

/-- Plain tokens that are written with single spaces between them are read back: the text is cut
into exactly these tokens, all on the line of the text, before the end of that line. -/
theorem tokens_read_back {tokens : List Token} (h : ∀ token ∈ tokens, token.isPlain = true)
    (line : Nat) :
    tokenize (" ".intercalate (tokens.map Token.write)).toList line = .ok (onLine line tokens) := by
  refine tokenize_spaced line ?_
  rw [List.forall₂_map_left_iff, List.forall₂_same]
  exact fun token htoken => cutOff_write (h token htoken)

/-- Signs beside each other, the largest integer, and texts that look like other tokens or like
none. -/
theorem lookalikes_read_back :
    let tokens : List Token := [.minus, .minus, .integer 9223372036854775807, .identifier "_1",
      .text "", .text "3.5 \\ x", .openParen, .integer 0, .comma, .closeParen, .equals]
    (∀ token ∈ tokens, token.isPlain = true) ∧
    " ".intercalate (tokens.map Token.write) =
      "- - 9223372036854775807 _1 \"\" \"3.5 \\ x\" ( 0 , ) =" ∧
    tokenize "- - 9223372036854775807 _1 \"\" \"3.5 \\ x\" ( 0 , ) =".toList 7 =
      .ok (onLine 7 tokens) := by
  intro tokens
  have hwrite : " ".intercalate (tokens.map Token.write) =
      "- - 9223372036854775807 _1 \"\" \"3.5 \\ x\" ( 0 , ) =" := by decide +kernel
  have hplain : ∀ token ∈ tokens, token.isPlain = true := List.all_eq_true.mp (by decide +kernel)
  refine ⟨hplain, hwrite, ?_⟩
  rw [← hwrite]
  exact tokens_read_back hplain 7

end Expr

end QubitScript
