import Mathlib.Data.List.DropRight
import QubitScript.Line.Item
import QubitScript.Proofs.Lexer.Calls

/-!
# Splitting calls

What a call that the command rules take is split into. Its text is cut at every comma that is in the
outer parentheses and in no inner ones, and each piece loses the blanks around it.
-/

namespace QubitScript

open QubitScript.Text

/-! ## Trimming -/

namespace Text

theorem trim_eq (text : List Char) :
    trim text = (text.dropWhile isBlank).rdropWhile isBlank := rfl

/-- The blanks before a text. -/
def blanksBefore (text : List Char) : List Char := text.takeWhile isBlank

/-- The blanks after a text that is more than blanks. -/
def blanksAfter (text : List Char) : List Char := (text.dropWhile isBlank).rtakeWhile isBlank

theorem trim_between (text : List Char) :
    blanksBefore text ++ (trim text ++ blanksAfter text) = text := by
  rw [trim_eq, blanksBefore, blanksAfter, List.rdropWhile_append_rtakeWhile,
    List.takeWhile_append_dropWhile]

theorem isBlank_of_mem_blanksBefore {text : List Char} {c : Char} (h : c ∈ blanksBefore text) :
    isBlank c = true :=
  List.mem_takeWhile_imp h

theorem isBlank_of_mem_blanksAfter {text : List Char} {c : Char} (h : c ∈ blanksAfter text) :
    isBlank c = true :=
  List.mem_rtakeWhile_imp h

theorem mem_of_mem_blanksBefore {text : List Char} {c : Char} (h : c ∈ blanksBefore text) :
    c ∈ text :=
  (List.takeWhile_prefix isBlank).mem h

theorem mem_of_mem_blanksAfter {text : List Char} {c : Char} (h : c ∈ blanksAfter text) :
    c ∈ text :=
  (List.dropWhile_suffix isBlank).mem ((List.rtakeWhile_suffix isBlank _).mem h)

theorem mem_of_mem_trim {text : List Char} {c : Char} (h : c ∈ trim text) : c ∈ text := by
  rw [← trim_between text]
  exact List.mem_append_right _ (List.mem_append_left _ h)

theorem isBlank_or_mem_trim {text : List Char} {c : Char} (h : c ∈ text) :
    isBlank c = true ∨ c ∈ trim text := by
  rw [← trim_between text, List.mem_append, List.mem_append] at h
  rcases h with hbefore | htrim | hafter
  · exact .inl (isBlank_of_mem_blanksBefore hbefore)
  · exact .inr htrim
  · exact .inl (isBlank_of_mem_blanksAfter hafter)

theorem trim_eq_nil {text : List Char} : trim text = [] ↔ ∀ c ∈ text, isBlank c = true := by
  rw [trim_eq, List.rdropWhile_eq_nil_iff]
  constructor
  · intro h c hc
    rw [← List.takeWhile_append_dropWhile (p := isBlank) (l := text)] at hc
    rcases List.mem_append.mp hc with hc | hc
    · exact List.mem_takeWhile_imp hc
    · exact h c hc
  · exact fun h c hc => h c ((List.dropWhile_suffix _).mem hc)

theorem ne_nil_of_trim {text : List Char} (h : trim text ≠ []) : text ≠ [] := by
  rintro rfl
  exact h rfl

theorem trim_eq_self {text : List Char} (h : ∀ c ∈ text, isBlank c = false) :
    trim text = text := by
  have hblank : ∀ c ∈ text, ¬ isBlank c = true := fun c hc => by simp [h c hc]
  rw [trim_eq, List.dropWhile_eq_self_iff.mpr fun hlength => ?_, List.rdropWhile_eq_self_iff]
  · exact fun hne => hblank _ (List.getLast_mem hne)
  · exact hblank _ (List.getElem_mem hlength)

theorem blanksBefore_ne_nil {text : List Char} :
    blanksBefore text ≠ [] ↔ ∃ c ∈ text.head?, isBlank c = true := by
  rw [blanksBefore]
  cases text with
  | nil => simp
  | cons c text => cases hc : isBlank c <;> simp [hc]

/-- Unless there is nothing else, the last blank of a text is one of those after it. -/
theorem blanksAfter_ne_nil {text : List Char} (htext : trim text ≠ []) :
    blanksAfter text ≠ [] ↔ ∃ c ∈ text.getLast?, isBlank c = true := by
  rw [trim_eq] at htext
  have hdrop : text.dropWhile isBlank ≠ [] := by
    intro h
    rw [h] at htext
    exact htext rfl
  have htext : text ≠ [] := by
    rintro rfl
    exact hdrop rfl
  have hlast : text.getLast? = some ((text.dropWhile isBlank).getLast hdrop) := by
    rw [List.getLast?_eq_some_getLast htext, (List.dropWhile_suffix isBlank).getLast hdrop]
  rw [blanksAfter, ne_eq, List.rtakeWhile_eq_nil_iff, hlast]
  simp [hdrop]

/-- Trimming takes away nothing but blanks. -/
theorem count_trim {c : Char} (hc : isBlank c = false) (text : List Char) :
    (trim text).count c = text.count c := by
  have hnone : ∀ blanks : List Char, (∀ d ∈ blanks, isBlank d = true) → blanks.count c = 0 := by
    intro blanks hblanks
    refine List.count_eq_zero.mpr fun hmem => ?_
    rw [hblanks c hmem] at hc
    cases hc
  conv => rhs; rw [← trim_between text]
  rw [List.count_append, List.count_append, hnone _ fun _ => isBlank_of_mem_blanksBefore,
    hnone _ fun _ => isBlank_of_mem_blanksAfter]
  omega

end Text

/-! ## Pieces -/

/-- A text with no comma outside of parentheses. -/
inductive Whole : List Char → Prop
  | nil : Whole []
  | char {c : Char} {rest : List Char} : Plain c → c ≠ ',' → Whole rest → Whole (c :: rest)
  | nested {inner rest : List Char} :
      (∀ c ∈ inner, Plain c) → Whole rest → Whole ('(' :: (inner ++ ')' :: rest))

/-- A text and the pieces between its commas. -/
inductive Parted : List Char → List (List Char) → Prop
  | last {piece : List Char} : Whole piece → Parted piece [piece]
  | more {piece rest : List Char} {pieces : List (List Char)} :
      Whole piece → Parted rest pieces → Parted (piece ++ ',' :: rest) (piece :: pieces)

theorem Parted.char {c : Char} {text : List Char} {pieces : List (List Char)} (hc : Plain c)
    (hcomma : c ≠ ',') (h : Parted text pieces) : ∃ pieces', Parted (c :: text) pieces' := by
  cases h with
  | last hwhole => exact ⟨_, .last (.char hc hcomma hwhole)⟩
  | more hwhole hrest => exact ⟨_, .more (.char hc hcomma hwhole) hrest⟩

theorem Parted.nested {inner text : List Char} {pieces : List (List Char)}
    (hinner : ∀ c ∈ inner, Plain c) (h : Parted text pieces) :
    ∃ pieces', Parted ('(' :: (inner ++ ')' :: text)) pieces' := by
  cases h with
  | last hwhole => exact ⟨_, .last (.nested hinner hwhole)⟩
  | more hwhole hrest =>
      have whole := Parted.more (.nested hinner hwhole) hrest
      rw [List.cons_append, List.append_assoc, List.cons_append] at whole
      exact ⟨_, whole⟩

theorem parted_of_enclosed {text : List Char} (h : Enclosed text) :
    ∃ pieces, Parted text pieces := by
  induction h with
  | nil => exact ⟨_, .last .nil⟩
  | @char c _ hc _ ih =>
      obtain ⟨pieces, hpieces⟩ := ih
      by_cases hcomma : c = ','
      · subst hcomma
        exact ⟨[] :: pieces, .more .nil hpieces⟩
      · exact hpieces.char hc hcomma
  | nested hinner _ ih =>
      obtain ⟨pieces, hpieces⟩ := ih
      exact hpieces.nested hinner

namespace Whole

variable {piece : List Char}

theorem head?_ne_comma (h : Whole piece) : ∀ c ∈ piece.head?, c ≠ ',' := by
  cases h with
  | nil => nofun
  | char _ hcomma _ =>
      rintro _ ⟨⟩
      exact hcomma
  | nested =>
      rintro _ ⟨⟩
      decide

theorem getLast?_ne_comma (h : Whole piece) : ∀ c ∈ piece.getLast?, c ≠ ',' := by
  induction h with
  | nil => nofun
  | @char c rest _ hcomma _ ih =>
      intro d hd
      rw [List.getLast?_cons, Option.mem_some_iff] at hd
      cases hlast : rest.getLast? with
      | none =>
          rw [hlast] at hd
          exact hd ▸ hcomma
      | some last =>
          rw [hlast] at hd
          exact hd ▸ ih last hlast
  | @nested inner rest _ _ ih =>
      intro d hd
      rw [← List.cons_append, List.getLast?_append, List.getLast?_cons] at hd
      cases hlast : rest.getLast? with
      | none =>
          rw [hlast] at hd
          cases hd
          decide
      | some last =>
          rw [hlast] at hd
          cases hd
          exact ih last hlast

end Whole

/-- What a text with pieces begins with, which is no comma when no piece is empty. -/
theorem Parted.exists_head {text : List Char} {pieces : List (List Char)} (h : Parted text pieces)
    (hpieces : ∀ p ∈ pieces, trim p ≠ []) :
    ∃ c, text.head? = some c ∧ c ≠ ',' := by
  have first : ∀ {piece : List Char}, Whole piece → trim piece ≠ [] → ∀ rest : List Char,
      ∃ c, (piece ++ rest).head? = some c ∧ c ≠ ',' := by
    intro piece hwhole htrim rest
    obtain ⟨c, hc⟩ := Option.ne_none_iff_exists'.mp
      (List.head?_eq_none_iff.not.mpr (ne_nil_of_trim htrim))
    refine ⟨c, ?_, hwhole.head?_ne_comma c hc⟩
    rw [List.head?_append, hc]
    rfl
  cases h with
  | last hwhole =>
      have := first hwhole (hpieces _ (.head _)) []
      rwa [List.append_nil] at this
  | more hwhole _ => exact first hwhole (hpieces _ (.head _)) _

/-- Between the trimmed pieces of a text there are commas and blanks. -/
theorem Parted.mem {text : List Char} {pieces : List (List Char)} (h : Parted text pieces)
    {c : Char}
    (hc : c ∈ text) : c = ',' ∨ isBlank c = true ∨ ∃ piece ∈ pieces, c ∈ trim piece := by
  induction h with
  | last =>
      rcases isBlank_or_mem_trim hc with hblank | htrim
      · exact .inr (.inl hblank)
      · exact .inr (.inr ⟨_, .head _, htrim⟩)
  | more _ _ ih =>
      rcases List.mem_append.mp hc with hmem | hmem
      · rcases isBlank_or_mem_trim hmem with hblank | htrim
        · exact .inr (.inl hblank)
        · exact .inr (.inr ⟨_, .head _, htrim⟩)
      · rcases List.mem_cons.mp hmem with hcomma | hmem
        · exact .inl hcomma
        · rcases ih hmem with hcomma | hblank | ⟨piece, hpiece, htrim⟩
          · exact .inl hcomma
          · exact .inr (.inl hblank)
          · exact .inr (.inr ⟨piece, .tail _ hpiece, htrim⟩)

/-- Without blanks there is nothing to trim. -/
theorem Parted.eq_intercalate {text : List Char} {pieces : List (List Char)}
    (h : Parted text pieces)
    (hblank : ∀ c ∈ text, isBlank c = false) : text = [','].intercalate (pieces.map trim) := by
  induction h with
  | last => rw [List.map_singleton, List.intercalate_singleton, trim_eq_self hblank]
  | @more piece rest pieces _ hrest ih =>
      obtain ⟨hpiece, hothers⟩ := List.forall_mem_append.mp hblank
      have hne : pieces.map trim ≠ [] := by
        cases hrest <;> exact List.cons_ne_nil _ _
      rw [List.map_cons, List.intercalate_cons_of_ne_nil hne, trim_eq_self hpiece,
        ← ih (List.forall_mem_cons.mp hothers).2, List.append_assoc]
      rfl

/-! ## Parentheses -/

/-- As many parentheses are closed as opened. -/
def Balanced (text : List Char) : Prop := text.count '(' = text.count ')'

theorem balanced_nil : Balanced [] := rfl

theorem balanced_cons {c : Char} (hc : Plain c) {text : List Char} :
    Balanced (c :: text) ↔ Balanced text := by
  rw [Balanced, Balanced, List.count_cons_of_ne hc.1, List.count_cons_of_ne hc.2.1]

theorem count_eq_zero_of_plain {text : List Char} (h : ∀ c ∈ text, Plain c) :
    text.count '(' = 0 ∧ text.count ')' = 0 :=
  ⟨List.count_eq_zero.mpr fun hc => (h _ hc).1 rfl,
    List.count_eq_zero.mpr fun hc => (h _ hc).2.1 rfl⟩

theorem balanced_nested {inner text : List Char} (h : ∀ c ∈ inner, Plain c) :
    Balanced ('(' :: (inner ++ ')' :: text)) ↔ Balanced text := by
  obtain ⟨hopening, hclosing⟩ := count_eq_zero_of_plain h
  simp only [Balanced, List.count_cons, List.count_append, hopening, hclosing, beq_self_eq_true,
    Char.reduceBEq, if_true]
  simp only [Bool.false_eq_true, if_false]
  omega

theorem balanced_append {first second : List Char} (h : Balanced first) :
    Balanced (first ++ second) ↔ Balanced second := by
  rw [Balanced, Balanced, List.count_append, List.count_append, h]
  exact Nat.add_left_cancel_iff

theorem Whole.balanced {piece : List Char} (h : Whole piece) : Balanced piece := by
  induction h with
  | nil => exact balanced_nil
  | char hc _ _ ih => exact (balanced_cons hc).mpr ih
  | nested hinner _ ih => exact (balanced_nested hinner).mpr ih

theorem plain_comma : Plain ',' := ⟨by decide, by decide, by decide⟩

theorem balanced_comma {piece front : List Char} (h : Whole piece) :
    Balanced (piece ++ ',' :: front) ↔ Balanced front := by
  rw [balanced_append h.balanced, balanced_cons plain_comma]

/-- A character of two texts together is in the first one or in the second one. -/
theorem place_in_append {first second before after : List Char} {c : Char}
    (h : first ++ second = before ++ c :: after) :
    (∃ more, first = before ++ c :: more) ∨
      ∃ front, before = first ++ front ∧ second = front ++ c :: after := by
  rcases List.append_eq_append_iff.mp h with ⟨front, rfl, hsecond⟩ | ⟨more, rfl, hmore⟩
  · exact .inr ⟨front, rfl, hsecond⟩
  · cases more with
    | nil => exact .inr ⟨[], by simp, hmore.symm⟩
    | cons d more =>
        obtain ⟨rfl, -⟩ := List.cons.inj hmore
        exact .inl ⟨more, rfl⟩

/-- The commas of a piece are in parentheses. -/
theorem Whole.not_balanced {piece after : List Char} (h : Whole piece) : ∀ {before : List Char},
    piece = before ++ ',' :: after → ¬ Balanced before := by
  induction h with
  | nil => exact fun h => absurd (congrArg List.length h) (by simp)
  | @char c rest hc hcomma _ ih =>
      intro before h
      cases before with
      | nil => exact absurd (List.cons.inj h).1 hcomma
      | cons d before =>
          obtain ⟨rfl, hrest⟩ := List.cons.inj h
          rw [balanced_cons hc]
          exact ih hrest
  | @nested inner rest hinner _ ih =>
      intro before h
      cases before with
      | nil => cases h
      | cons d before =>
          obtain ⟨rfl, htail⟩ := List.cons.inj h
          rcases place_in_append htail with ⟨more, rfl⟩ | ⟨front, rfl, hfront⟩
          · -- Only the parenthesis that opens the text is before the comma.
            obtain ⟨hopening, hclosing⟩ :=
              count_eq_zero_of_plain fun c hc => hinner c (List.mem_append_left _ hc)
            rw [Balanced, List.count_cons_self, List.count_cons_of_ne (by decide), hopening,
              hclosing]
            decide
          · cases front with
            | nil => cases hfront
            | cons d front =>
                obtain ⟨rfl, hrest⟩ := List.cons.inj hfront
                rw [balanced_nested hinner]
                exact ih hrest

/-! ## The splitter -/

namespace Call

variable {piece text rest : List Char}

theorem cutAtCommas_char {depth : Nat} {c : Char} (hc : Plain c)
    (hcomma : ¬ (c = ',' ∧ depth = 0)) :
    cutAtCommas depth piece (c :: rest) = cutAtCommas depth (c :: piece) rest := by
  rw [cutAtCommas, if_neg hcomma]
  · exact hc.1
  · exact hc.2.1

/-- In parentheses nothing is cut. -/
theorem cutAtCommas_inner {depth : Nat} {inner : List Char} : ∀ {piece : List Char},
    (∀ c ∈ inner, Plain c) →
    cutAtCommas (depth + 1) piece (inner ++ rest) =
      cutAtCommas (depth + 1) (inner.reverse ++ piece) rest := by
  induction inner with
  | nil => exact fun _ => rfl
  | cons c inner ih =>
      intro piece hinner
      obtain ⟨hc, hothers⟩ := List.forall_mem_cons.mp hinner
      rw [List.cons_append, cutAtCommas_char hc (by simp), ih hothers, List.reverse_cons,
        List.append_assoc]
      rfl

theorem cutAtCommas_whole (h : Whole text) : ∀ {piece : List Char},
    cutAtCommas 0 piece (text ++ rest) = cutAtCommas 0 (text.reverse ++ piece) rest := by
  induction h with
  | nil => exact rfl
  | char hc hcomma _ ih =>
      intro piece
      rw [List.cons_append, cutAtCommas_char hc (by simp [hcomma]), ih, List.reverse_cons,
        List.append_assoc]
      rfl
  | nested hinner _ ih =>
      intro piece
      rw [List.cons_append, cutAtCommas, List.append_assoc, cutAtCommas_inner hinner,
        List.cons_append, cutAtCommas, ih]
      simp

theorem cutAtCommas_parted {pieces : List (List Char)} (h : Parted text pieces) :
    cutAtCommas 0 [] text = .ok pieces := by
  induction h with
  | @last piece hwhole =>
      rw [← List.append_nil piece, cutAtCommas_whole hwhole, cutAtCommas, if_pos rfl,
        List.append_nil, List.append_nil, List.reverse_reverse]
  | @more piece rest pieces hwhole _ ih =>
      rw [cutAtCommas_whole hwhole, List.append_nil, cutAtCommas, if_pos ⟨rfl, rfl⟩, ih,
        List.reverse_reverse]
      · rfl
      · decide
      · decide

theorem splitArguments_blank (h : trim text = []) : splitArguments text = .ok [] := by
  rw [splitArguments, if_pos h]

theorem splitArguments_parted {pieces : List (List Char)} (h : Parted text pieces)
    (htext : trim text ≠ []) : splitArguments text =
      if ∃ p ∈ pieces, trim p = [] then .error .emptyArgument else .ok (pieces.map trim) := by
  rw [splitArguments, if_neg htext, cutAtCommas_parted h]
  simp only [bind, Except.bind, List.any_map, List.any_eq_true, Function.comp, List.isEmpty_iff]

/-- The pieces have no characters that are not in the text. -/
theorem mem_of_cutAtCommas {c : Char} : ∀ {depth : Nat} {piece : List Char}
    {pieces : List (List Char)}, cutAtCommas depth piece text = .ok pieces →
    ∀ found ∈ pieces, c ∈ found → c ∈ piece ∨ c ∈ text := by
  induction text with
  | nil =>
      intro depth piece pieces h found hfound hc
      rw [cutAtCommas] at h
      split at h
      · cases h
        cases List.mem_singleton.mp hfound
        exact .inl (List.mem_reverse.mp hc)
      · cases h
  | cons d text ih =>
      intro depth piece pieces h found hfound hc
      -- What is not cut off here goes on with the character that was read.
      have onward : ∀ {depth}, cutAtCommas depth (d :: piece) text = .ok pieces →
          c ∈ piece ∨ c ∈ d :: text := fun h => by
        rcases ih h found hfound hc with h | h
        · rcases List.mem_cons.mp h with rfl | h
          · exact .inr (.head _)
          · exact .inl h
        · exact .inr (.tail _ h)
      rw [cutAtCommas.eq_def] at h
      split at h
      next heq => cases heq
      next heq =>
        cases heq
        exact onward h
      next heq =>
        cases heq
        split at h
        · cases h
        · exact onward h
      next heq =>
        cases heq
        split at h
        · obtain ⟨others, hothers, rfl⟩ := map_eq_ok.mp h
          rcases List.mem_cons.mp hfound with rfl | hfound
          · exact .inl (List.mem_reverse.mp hc)
          · rcases ih hothers found hfound hc with h | h
            · cases h
            · exact .inr (.tail _ h)
        · exact onward h

theorem mem_of_splitArguments {c : Char} {arguments : List (List Char)}
    (h : splitArguments text = .ok arguments) :
    ∀ argument ∈ arguments, c ∈ argument → c ∈ text := by
  intro argument hargument hc
  rw [splitArguments] at h
  split at h
  · cases h
    cases hargument
  · obtain ⟨pieces, hpieces, h⟩ := bind_eq_ok.mp h
    dsimp only at h
    split at h
    · cases h
    · cases h
      obtain ⟨found, hfound, rfl⟩ := List.mem_map.mp hargument
      rcases mem_of_cutAtCommas hpieces found hfound (mem_of_mem_trim hc) with h | h
      · cases h
      · exact h

/-- The name and the arguments of a call have no characters that are not in its text. -/
theorem mem_of_split {c : Char} {name : List Char} {arguments : List (List Char)}
    (h : split text = .ok (name, arguments)) :
    (c ∈ name → c ∈ text) ∧ ∀ argument ∈ arguments, c ∈ argument → c ∈ text := by
  rw [split] at h
  split at h
  · cases h
  next d inner hinner =>
    have hafter : inner ⊆ text := fun d hd =>
      (List.dropWhile_suffix (· != '(')).mem (hinner ▸ List.mem_cons_of_mem _ hd)
    dsimp only at h
    split at h
    · cases h
    · split at h
      · obtain ⟨found, hfound, h⟩ := map_eq_ok.mp h
        cases h
        refine ⟨fun hc => (List.takeWhile_prefix _).mem (mem_of_mem_trim hc), ?_⟩
        intro argument hargument hc
        exact hafter ((List.dropLast_sublist _).mem
          (mem_of_splitArguments hfound argument hargument hc))
      · cases h

/-- A call as a list of characters. -/
theorem toList_assemble (name : List Char) (arguments : List (List Char)) :
    (assemble (String.ofList name) (arguments.map String.ofList)).toList =
      name ++ '(' :: ([','].intercalate arguments ++ [')']) := by
  have hmap : (arguments.map String.ofList).map String.toList = arguments := by
    simp [List.map_map, Function.comp_def]
  rw [assemble, String.toList_append, String.toList_append, String.toList_append,
    String.toList_intercalate, hmap, String.toList_ofList, List.append_assoc, List.append_assoc]
  rfl

end Call

theorem splitCall_eq_ok {text name : String} {arguments : List String} :
    splitCall text = .ok (name, arguments) ↔ ∃ front pieces,
      Call.split text.toList = .ok (front, pieces) ∧ String.ofList front = name ∧
        pieces.map String.ofList = arguments := by
  rw [splitCall]
  rcases Call.split text.toList with fault | ⟨front, pieces⟩
  · exact ⟨nofun, nofun⟩
  · simp

/-! ## Texts of calls -/

namespace CallText

variable {text name inner : List Char}

theorem not_mem_name {c : Char} (h : CallText text name inner) (hc : isWord c = false) :
    c ∉ name := by
  intro hmem
  rw [h.word c hmem] at hc
  cases hc

theorem ne_opening (h : CallText text name inner) : ∀ c ∈ name, (c != '(') = true := by
  intro c hc
  rw [bne_iff_ne]
  exact ne_opening_of_isWord (h.word c hc)

theorem takeWhile (h : CallText text name inner) : text.takeWhile (· != '(') = name := by
  rw [h.text, List.takeWhile_append_of_pos h.ne_opening]
  simp

theorem split (h : CallText text name inner) :
    Call.split text = (Call.splitArguments inner).map (name, ·) := by
  have htrim : trim name = name := trim_eq_self fun c hc => isBlank_of_isWord (h.word c hc)
  rw [Call.split, h.takeWhile, htrim, h.text, List.dropWhile_append_of_pos h.ne_opening]
  simp [h.nonempty]

theorem name_of_split (h : CallText text name inner) {name' : List Char}
    {pieces : List (List Char)} (hsplit : Call.split text = .ok (name', pieces)) :
    name' = name := by
  obtain ⟨_, -, ⟨⟩⟩ := map_eq_ok.mp (h.split.symm.trans hsplit)
  rfl

theorem not_mem_newline (h : CallText text name inner) : '\n' ∉ inner := by
  have enclosed := h.enclosed
  clear h
  induction enclosed with
  | nil => nofun
  | char hc _ ih =>
      intro hmem
      rcases List.mem_cons.mp hmem with rfl | hmem
      · exact hc.2.2 rfl
      · exact ih hmem
  | nested hinner _ ih =>
      intro hmem
      simp only [List.mem_cons, List.mem_append] at hmem
      rcases hmem with hmem | hmem | hmem | hmem
      · cases hmem
      · exact (hinner _ hmem).2.2 rfl
      · cases hmem
      · exact ih hmem

/-- The text of the call that is put together from the pieces is on one line as well. -/
theorem not_mem_newline_trim (h : CallText text name inner) {pieces : List (List Char)}
    (hpieces : Parted inner pieces) :
    '\n' ∉ [','].intercalate (pieces.map trim) := by
  have hinner := h.not_mem_newline
  clear h
  induction hpieces with
  | last =>
      rw [List.map_singleton, List.intercalate_singleton]
      exact fun hmem => hinner (mem_of_mem_trim hmem)
  | @more piece rest pieces _ hrest ih =>
      simp only [List.mem_append, List.mem_cons, not_or] at hinner
      obtain ⟨hpiece, -, hothers⟩ := hinner
      have hnonempty : pieces.map trim ≠ [] := by
        cases hrest <;> nofun
      rw [List.map_cons, List.intercalate_cons_of_ne_nil hnonempty]
      simp only [List.mem_append, List.mem_singleton, not_or]
      exact ⟨⟨fun hmem => hpiece (mem_of_mem_trim hmem), by decide⟩, ih hothers⟩

end CallText

end QubitScript
