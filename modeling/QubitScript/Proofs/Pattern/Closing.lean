import QubitScript.Proofs.Pattern.Pieces
import QubitScript.Proofs.Text.Fronts

/-!
# Before a closing parenthesis

A closing parenthesis ends whatever is read before it: nothing that stands for a piece of a pattern
goes on over it, but for a comment. So a piece is read in the same way when a closing parenthesis
and more come after the text, unless it is a comment that the text leaves open.
-/

namespace QubitScript.Pattern

open QubitScript.Text

/-- What is read from the front of a text stays the same when a closing parenthesis comes after the
text. -/
def Steady {α : Type} (read : List Char → Option (α × List Char)) : Prop :=
  ∀ ⦃text rest : List Char⦄ ⦃a : α⦄, read text = some (a, rest) →
    ∀ more, read (text ++ ')' :: more) = some (a, rest ++ ')' :: more)

section Steady

variable {α β : Type} {read : List Char → Option (α × List Char)} {text rest : List Char}

theorem Steady.map (h : Steady read) (f : α → β) :
    Steady fun text => (read text).map fun (a, rest) => (f a, rest) := by
  intro text rest b hread more
  obtain ⟨⟨a, left⟩, ha, heq⟩ := Option.map_eq_some_iff.mp hread
  cases heq
  dsimp only
  rw [h ha more]
  rfl

theorem takeWhile_append_closing {p : Char → Bool} (h : p ')' = false) (text more : List Char) :
    (text ++ ')' :: more).takeWhile p = text.takeWhile p :=
  takeWhile_append_of_head (by rintro c ⟨⟩; exact h)

theorem dropWhile_append_closing {p : Char → Bool} (h : p ')' = false) (text more : List Char) :
    (text ++ ')' :: more).dropWhile p = text.dropWhile p ++ ')' :: more :=
  dropWhile_append_of_head (by rintro c ⟨⟩; exact h)

/-- A text does not begin with another character before a closing parenthesis. -/
theorem append_closing_ne_cons {text : List Char} {c : Char} (hc : c ≠ ')')
    (h : ∀ rest, text = c :: rest → False) (more : List Char) :
    ∀ after, text ++ ')' :: more = c :: after → False := by
  intro after heq
  cases text with
  | nil => exact hc (List.cons.inj heq).1.symm
  | cons d rest =>
      obtain rfl := (List.cons.inj heq).1
      exact h rest rfl

theorem append_closing_ne_cons_cons {text : List Char} {c d : Char} (hc : c ≠ ')') (hd : d ≠ ')')
    (h : ∀ rest, text = c :: d :: rest → False) (more : List Char) :
    ∀ after, text ++ ')' :: more = c :: d :: after → False := by
  intro after heq
  cases text with
  | nil => exact hc (List.cons.inj heq).1.symm
  | cons e rest =>
      obtain ⟨rfl, htail⟩ := List.cons.inj heq
      exact append_closing_ne_cons hd (fun rest hrest => h rest (congrArg _ hrest)) more after htail

/-! ## Groups and repetitions -/

theorem steady_readGroupName? : Steady readGroupName? := by
  intro text rest name h more
  rw [readGroupName?] at h
  split at h
  next after hdrop =>
    have hstop : text.dropWhile (· != '>') ≠ [] := by
      rw [hdrop]
      exact nofun
    rw [readGroupName?, takeWhile_append_of_dropWhile hstop, dropWhile_append_of_dropWhile hstop,
      hdrop, List.cons_append]
    split at h
    next hname =>
      cases h
      exact if_pos hname
    next => cases h
  next => cases h

theorem steady_readFlags? {flags : Flags} {on : Bool} {seen : List Char} :
    Steady (readFlags? flags on seen) := by
  intro text
  induction text generalizing flags on seen with
  | nil => exact fun _ _ => nofun
  | cons c text ih =>
      intro rest piece h more
      rw [readFlags?.eq_def] at h
      rw [List.cons_append]
      split at h
      next => cases h
      next heq =>
        cases heq
        rw [readFlags?]
        split at h
        · cases h
        next hseen =>
          cases h
          exact if_neg hseen
      next heq =>
        cases heq
        rw [readFlags?]
        split at h
        · cases h
        next hseen =>
          cases h
          exact if_neg hseen
      next heq =>
        cases heq
        rw [readFlags?]
        split at h
        next hon =>
          rw [if_pos hon]
          exact ih h more
        · cases h
      next hcolon hclosing hminus heq =>
        cases heq
        rw [readFlags?]
        · split at h
          · cases h
          next hseen =>
            obtain ⟨now, hnow, h⟩ := Option.bind_eq_some_iff.mp h
            rw [if_neg hseen, hnow]
            exact ih h more
        all_goals assumption

theorem steady_readOpening? (flags : Flags) : Steady (readOpening? flags) := by
  intro text rest piece h more
  rw [readOpening?.eq_def] at h
  split at h
  next => exact (steady_readGroupName?.map fun name =>
      Piece.opening (.keeping (some name)) flags) h more
  next => exact (steady_readGroupName?.map fun name =>
      Piece.opening (.keeping (some name)) flags) h more
  next text hname hshort =>
    rw [List.cons_append, readOpening?]
    · exact steady_readFlags? h more
    · exact append_closing_ne_cons_cons (by decide) (by decide) hname more
    · exact append_closing_ne_cons (by decide) hshort more
  next hmark =>
    cases h
    match text with
    | [] => rfl
    | c :: text =>
        have hc : c ≠ '?' := by
          rintro rfl
          exact hmark text rfl
        rw [List.cons_append, readOpening?]
        all_goals exact fun _ heq => hc (List.cons.inj heq).1

theorem steady_readBound? : Steady readBound? := by
  intro text rest bound h more
  rw [readBound?] at h
  rw [readBound?, dropWhile_append_closing (by decide), takeWhile_append_closing (by decide),
    dropWhile_append_closing (by decide), dropWhile_append_closing (by decide)]
  split at h
  · cases h
  next hvalid =>
    cases h
    rw [if_neg hvalid]

/-- Reads the bounds of a repetition after the least number of rounds. -/
def boundsFrom? (least : Nat) : List Char → Option (Bounds × List Char)
  | '}' :: rest => some (⟨least, some least⟩, rest)
  | ',' :: '}' :: rest => some (⟨least, none⟩, rest)
  | ',' :: rest => do
    let (most, rest) ← readBound? rest
    match rest with
    | '}' :: rest => if least ≤ most then some (⟨least, some most⟩, rest) else none
    | _ => none
  | _ => none

theorem steady_boundsFrom? (least : Nat) : Steady (boundsFrom? least) := by
  intro text rest bounds h more
  rw [boundsFrom?.eq_def] at h
  split at h
  next =>
    cases h
    rfl
  next =>
    cases h
    rfl
  next text hopen =>
    obtain ⟨⟨most, after⟩, hmost, h⟩ := Option.bind_eq_some_iff.mp h
    rw [List.cons_append, boundsFrom?, steady_readBound? hmost more]
    · dsimp only at h
      split at h
      next =>
        split at h
        next hle =>
          cases h
          exact if_pos hle
        next => cases h
      next => cases h
    · exact append_closing_ne_cons (by decide) hopen more
  next => cases h

theorem steady_readBounds? : Steady readBounds? := by
  intro text rest bounds h more
  have hread (text : List Char) : readBounds? text =
      (readBound? text).bind fun (least, rest) => boundsFrom? least rest := rfl
  rw [hread] at h ⊢
  obtain ⟨⟨least, after⟩, hleast, h⟩ := Option.bind_eq_some_iff.mp h
  rw [steady_readBound? hleast more]
  exact steady_boundsFrom? least h more

/-! ## Escapes -/

theorem steady_readCodePoint? (width : Nat) : Steady (readCodePoint? width) := by
  intro text rest c h more
  rw [readCodePoint?.eq_def] at h
  split at h
  next text =>
    split at h
    next after hdrop =>
      have hstop : text.dropWhile (· != '}') ≠ [] := by
        rw [hdrop]
        exact nofun
      rw [List.cons_append, readCodePoint?, takeWhile_append_of_dropWhile hstop,
        dropWhile_append_of_dropWhile hstop, hdrop]
      obtain ⟨_, hc, heq⟩ := Option.map_eq_some_iff.mp h
      cases heq
      rw [List.cons_append, hc]
      rfl
    next => cases h
  next hopen =>
    split at h
    · cases h
    next hlong =>
      obtain ⟨_, hc, heq⟩ := Option.map_eq_some_iff.mp h
      cases heq
      rw [readCodePoint?]
      · rw [if_neg (by rw [List.length_append]; omega), List.take_append_of_le_length (by omega),
          List.drop_append_of_le_length (by omega), hc]
        rfl
      · exact append_closing_ne_cons (by decide) hopen more

theorem steady_readBoundary? : Steady readBoundary? := by
  intro text rest condition h more
  rw [readBoundary?.eq_def] at h
  split at h
  next text =>
    have hhead : (text ++ ')' :: more).head?.any isBoundaryLetter =
        text.head?.any isBoundaryLetter := by
      cases text <;> rfl
    rw [List.cons_append, readBoundary?, hhead, takeWhile_append_closing (by decide),
      dropWhile_append_closing (by decide)]
    split at h
    next hletter =>
      rw [if_pos hletter]
      split at h
      next after hdrop =>
        obtain ⟨_, hside, heq⟩ := Option.map_eq_some_iff.mp h
        cases heq
        rw [hdrop, List.cons_append, hside]
        rfl
      next => cases h
    next hletter =>
      cases h
      exact if_neg hletter
  next hopen =>
    cases h
    rw [readBoundary?]
    exact append_closing_ne_cons (by decide) hopen more

theorem steady_escape : Steady Escape.read? := by
  intro text rest escape h more
  rw [Escape.read?.eq_def] at h
  split at h
  next => cases h
  next => exact ((steady_readCodePoint? _).map Escape.literal) h more
  next => exact ((steady_readCodePoint? _).map Escape.literal) h more
  next => exact ((steady_readCodePoint? _).map Escape.literal) h more
  next => exact (steady_readBoundary?.map Escape.place) h more
  next hx hu hU hb =>
    obtain ⟨_, hof, heq⟩ := Option.map_eq_some_iff.mp h
    cases heq
    rw [List.cons_append, Escape.read?, hof]
    · rfl
    all_goals assumption

/-! ## Sets in brackets -/

/-- The mark that a set is complemented, and what follows it. -/
def splitMark (text : List Char) : Bool × List Char :=
  match text with
  | '^' :: rest => (true, rest)
  | _ => (false, text)

/-- What stands for itself at the front of a set, after the hyphens there. -/
def splitFront (hyphens text : List Char) : List Char × List Char :=
  match hyphens, text with
  | [], ']' :: rest => ([']'], rest)
  | _, _ => (hyphens, text)

theorem splitMark_append_closing (text more : List Char) : splitMark (text ++ ')' :: more) =
    ((splitMark text).1, (splitMark text).2 ++ ')' :: more) := by
  rw [splitMark.eq_def text]
  split
  next => rfl
  next hmark =>
    rw [splitMark]
    exact append_closing_ne_cons (by decide) hmark more

theorem splitFront_append_closing (hyphens text more : List Char) :
    splitFront hyphens (text ++ ')' :: more) =
      ((splitFront hyphens text).1, (splitFront hyphens text).2 ++ ')' :: more) := by
  rw [splitFront.eq_def hyphens text]
  split
  next => rfl
  next hfront =>
    rw [splitFront]
    exact fun after hhyphens =>
      append_closing_ne_cons (by decide) (fun rest => hfront rest hhyphens) more after

theorem openBracket_eq (text : List Char) : openBracket text =
    (⟨(splitMark text).1, none, (splitFront ((splitMark text).2.takeWhile (· == '-'))
        ((splitMark text).2.dropWhile (· == '-'))).1.foldl Operand.addChar .new⟩,
      (splitFront ((splitMark text).2.takeWhile (· == '-'))
        ((splitMark text).2.dropWhile (· == '-'))).2) :=
  rfl

theorem openBracket_append_closing (text more : List Char) : openBracket (text ++ ')' :: more) =
    ((openBracket text).1, (openBracket text).2 ++ ')' :: more) := by
  rw [openBracket_eq, openBracket_eq, splitMark_append_closing]
  dsimp only
  rw [takeWhile_append_closing (by decide), dropWhile_append_closing (by decide),
    splitFront_append_closing]

/-- No class has a parenthesis in its name. -/
theorem asciiClass?_closing {name : String} (h : ')' ∈ name.toList) : asciiClass? name = none := by
  rw [asciiClass?.eq_def]
  split
  all_goals
    first
      | rfl
      | exact absurd h (by decide)

/-- What follows the end of a class. -/
def afterClass? : List Char → Option (List Char)
  | ':' :: ']' :: rest => some rest
  | _ => none

theorem afterClass?_append_closing {text : List Char} (h : text ≠ []) (more : List Char) :
    afterClass? (text ++ ')' :: more) = (afterClass? text).map (· ++ ')' :: more) := by
  rw [afterClass?.eq_def text]
  split
  next => rfl
  next hend =>
    rw [afterClass?]
    · rfl
    · exact append_closing_ne_cons_cons (by decide) (by decide) hend more

/-- Reads the rest of a class after the mark. -/
def classFrom? (ignoreCase complemented : Bool) (text : List Char) : Option (CharSet × List Char) :=
  (afterClass? (text.dropWhile (· != ':'))).bind fun rest =>
    (asciiClass? (String.ofList (text.takeWhile (· != ':')))).map fun chars =>
      (finished ignoreCase complemented chars, rest)

theorem readAsciiClass?_eq (ignoreCase : Bool) (text : List Char) :
    readAsciiClass? ignoreCase text =
    classFrom? ignoreCase (splitMark text).1 (splitMark text).2 := by
  rw [classFrom?, afterClass?.eq_def]
  have hread : readAsciiClass? ignoreCase text =
      match (splitMark text).2.dropWhile (· != ':') with
      | ':' :: ']' :: rest => do
        let chars ← asciiClass? (String.ofList ((splitMark text).2.takeWhile (· != ':')))
        some (finished ignoreCase (splitMark text).1 chars, rest)
      | _ => none := rfl
  rw [hread]
  split
  next =>
    cases asciiClass? (String.ofList ((splitMark text).2.takeWhile (· != ':'))) <;> rfl
  next => rfl

theorem classFrom?_append_closing (ignoreCase complemented : Bool) (text more : List Char) :
    classFrom? ignoreCase complemented (text ++ ')' :: more) =
      (classFrom? ignoreCase complemented text).map fun (chars, rest) =>
        (chars, rest ++ ')' :: more) := by
  rw [classFrom?, classFrom?]
  by_cases hstop : text.dropWhile (· != ':') = []
  · -- The name would reach over the parenthesis.
    have hname : ')' ∈ (text ++ ')' :: more).takeWhile (· != ':') := by
      rw [List.takeWhile_append_of_pos (List.dropWhile_eq_nil_iff.mp hstop),
        List.takeWhile_cons_of_pos (by decide)]
      exact List.mem_append_right _ (.head _)
    have hclass := @asciiClass?_closing (String.ofList ((text ++ ')' :: more).takeWhile (· != ':')))
      (by rwa [String.toList_ofList])
    rw [hstop, hclass]
    cases afterClass? ((text ++ ')' :: more).dropWhile (· != ':')) <;> rfl
  · rw [takeWhile_append_of_dropWhile hstop, dropWhile_append_of_dropWhile hstop,
      afterClass?_append_closing hstop, Option.bind_map, Option.map_bind]
    simp only [Function.comp_def, Option.map_map]

theorem readAsciiClass?_append_closing (ignoreCase : Bool) (text more : List Char) :
    readAsciiClass? ignoreCase (text ++ ')' :: more) =
      (readAsciiClass? ignoreCase text).map fun (chars, rest) => (chars, rest ++ ')' :: more) := by
  rw [readAsciiClass?_eq, readAsciiClass?_eq, splitMark_append_closing, classFrom?_append_closing]

theorem steady_readAtom? : Steady readAtom? := by
  intro text rest escape h more
  rw [readAtom?.eq_def] at h
  split at h
  next => cases h
  next => exact steady_escape h more
  next hmark =>
    cases h
    rw [List.cons_append, readAtom?]
    exact hmark

/-- Reads on after an atom, to the end of a range if there is one. -/
def spanFrom? (atom : Escape) (text : List Char) : Option (CharSet × List Char) :=
  let alone := atom.charSet?.map fun chars => (chars, text)
  match text with
  | '-' :: ']' :: _ => alone
  | '-' :: '-' :: _ => alone
  | '-' :: rest => do
    let (last, rest) ← readAtom? rest
    (charsBetween? atom last).map fun chars => (chars, rest)
  | _ => alone

theorem steady_spanFrom? (atom : Escape) : Steady (spanFrom? atom) := by
  intro text rest chars h more
  have alone {text : List Char}
      (h : (atom.charSet?.map fun chars => (chars, text)) = some (chars, rest)) :
      (atom.charSet?.map fun chars => (chars, text ++ ')' :: more)) =
        some (chars, rest ++ ')' :: more) := by
    obtain ⟨_, hchars, heq⟩ := Option.map_eq_some_iff.mp h
    cases heq
    rw [hchars]
    rfl
  rw [spanFrom?.eq_def] at h
  dsimp only at h
  split at h
  next => exact alone h
  next => exact alone h
  next text hclose hhyphen =>
    obtain ⟨⟨last, after⟩, hlast, h⟩ := Option.bind_eq_some_iff.mp h
    obtain ⟨_, hbetween, heq⟩ := Option.map_eq_some_iff.mp h
    cases heq
    rw [List.cons_append, spanFrom?, steady_readAtom? hlast more]
    · dsimp only [Option.bind_eq_bind, Option.bind_some]
      rw [hbetween]
      rfl
    · exact append_closing_ne_cons (by decide) hclose more
    · exact append_closing_ne_cons (by decide) hhyphen more
  next hclose hhyphen hrange =>
    rw [spanFrom?]
    · exact alone h
    · exact append_closing_ne_cons_cons (by decide) (by decide) hclose more
    · exact append_closing_ne_cons_cons (by decide) (by decide) hhyphen more
    · exact append_closing_ne_cons (by decide) hrange more

theorem steady_readSpan? : Steady readSpan? := by
  intro text rest chars h more
  have hread (text : List Char) : readSpan? text =
      (readAtom? text).bind fun (atom, rest) => spanFrom? atom rest := rfl
  rw [hread] at h ⊢
  obtain ⟨⟨atom, after⟩, hatom, h⟩ := Option.bind_eq_some_iff.mp h
  rw [steady_readAtom? hatom more]
  exact steady_spanFrom? atom h more

theorem steady_readBracketsFrom? (ignoreCase : Bool) {fuel : Nat} :
    ∀ {fuel' : Nat} {current : OpenBracket} {outer : List OpenBracket}, fuel ≤ fuel' →
    ∀ {text rest : List Char} {entry : Entry},
      readBracketsFrom? ignoreCase fuel current outer text = some (entry, rest) → ∀ more,
      readBracketsFrom? ignoreCase fuel' current outer (text ++ ')' :: more) =
        some (entry, rest ++ ')' :: more) := by
  induction fuel with
  | zero =>
      intro _ _ _ _ text rest entry h
      rw [readBracketsFrom?] at h
      cases h
  | succ fuel ih =>
      intro fuel' current outer hfuel text rest entry h more
      match fuel', hfuel with
      | fuel' + 1, hfuel =>
          replace hfuel := Nat.le_of_succ_le_succ hfuel
          rw [readBracketsFrom?.eq_def] at h
          dsimp only at h
          split at h
          next =>
            cases outer with
            | nil =>
                cases h
                rfl
            | cons parent outer => exact ih hfuel h more
          next =>
            rw [List.cons_append, List.cons_append, readBracketsFrom?,
              readAsciiClass?_append_closing]
            split at h
            next chars after hclass =>
              rw [hclass]
              exact ih hfuel h more
            next hclass =>
              rw [hclass, Option.map_none]
              dsimp only
              rw [← List.cons_append, openBracket_append_closing]
              exact ih hfuel h more
          next rest hcolon =>
            rw [List.cons_append, readBracketsFrom?]
            · dsimp only
              rw [openBracket_append_closing]
              exact ih hfuel h more
            · exact append_closing_ne_cons (by decide) hcolon more
          next => exact ih hfuel h more
          next => exact ih hfuel h more
          next => exact ih hfuel h more
          next hclosing hclass hopening hinter hdiff hsymm =>
            -- With the parenthesis after it the text is still none of the cases before.
            obtain ⟨⟨chars, after⟩, hspan, h⟩ := Option.bind_eq_some_iff.mp h
            rw [readBracketsFrom?, steady_readSpan? hspan more]
            · exact ih hfuel h more
            · exact append_closing_ne_cons (by decide) hclosing more
            · exact append_closing_ne_cons_cons (by decide) (by decide) hclass more
            · exact append_closing_ne_cons (by decide) hopening more
            · exact append_closing_ne_cons_cons (by decide) (by decide) hinter more
            · exact append_closing_ne_cons_cons (by decide) (by decide) hdiff more
            · exact append_closing_ne_cons_cons (by decide) (by decide) hsymm more

theorem steady_readBrackets? (ignoreCase : Bool) : Steady (readBrackets? ignoreCase) := by
  intro text rest entry h more
  rw [readBrackets?] at h ⊢
  rw [openBracket_append_closing]
  have hlength : (openBracket text).2.length ≤ ((openBracket text).2 ++ ')' :: more).length := by
    rw [List.length_append]
    exact Nat.le_add_right _ _
  exact steady_readBracketsFrom? ignoreCase (Nat.succ_le_succ hlength) h more

/-! ## Pieces -/

theorem steady_readSet? (flags : Flags) : Steady (readSet? flags) := by
  intro text rest piece h more
  obtain ⟨⟨entry, after⟩, hentry, h⟩ := Option.bind_eq_some_iff.mp h
  have hlength : (text ++ ')' :: more).length - (after ++ ')' :: more).length =
      text.length - after.length := by
    rw [List.length_append, List.length_append]
    omega
  rw [readSet?, steady_readBrackets? _ hentry more, Option.bind_some]
  dsimp only at h ⊢
  rw [hlength, List.take_append_of_le_length (Nat.sub_le _ _)]
  split at h
  · cases h
  next hplain =>
    cases h
    rw [if_neg hplain]

theorem splitLazy_append_closing (text more : List Char) : splitLazy (text ++ ')' :: more) =
    ((splitLazy text).1, (splitLazy text).2 ++ ')' :: more) := by
  rw [splitLazy.eq_def text]
  split
  next => rfl
  next hlazy =>
    rw [splitLazy]
    exact append_closing_ne_cons (by decide) hlazy more

theorem repetitionPiece_append_closing (flags : Flags) (bounds : Bounds) (text more : List Char) :
    repetitionPiece flags bounds (text ++ ')' :: more) =
      ((repetitionPiece flags bounds text).1,
        (repetitionPiece flags bounds text).2 ++ ')' :: more) := by
  rw [repetitionPiece, splitLazy_append_closing]
  rfl

/-- A comment that ends within the text goes on no further when there is more text. -/
theorem afterComment_append_closing {text : List Char} (h : text.dropWhile (· != '\n') ≠ [])
    (more : List Char) : afterComment (text ++ ')' :: more) = afterComment text ++ ')' :: more := by
  rw [afterComment, afterComment, dropWhile_append_of_dropWhile h, List.drop_append_of_le_length]
  exact List.length_pos_iff.mpr h

/-- A comment that is left open takes a closing parenthesis too. -/
theorem afterComment_of_open {text : List Char} (h : text.dropWhile (· != '\n') = []) :
    afterComment text = [] ∧ afterComment (text ++ [')']) = [] := by
  rw [afterComment, afterComment, h, List.dropWhile_append_of_pos (List.dropWhile_eq_nil_iff.mp h)]
  exact ⟨rfl, rfl⟩

/-- A piece is read in the same way before a closing parenthesis, or it is a comment that takes the
parenthesis. -/
theorem piece?_append_closing {flags : Flags} {piece : Piece}
    (h : piece? flags text = some (piece, rest)) :
    (∀ more, piece? flags (text ++ ')' :: more) = some (piece, rest ++ ')' :: more)) ∨
      rest = [] ∧ piece? flags (text ++ [')']) = some (piece, []) := by
  have repeated {bounds : Bounds} {text : List Char}
      (h : some (repetitionPiece flags bounds text) = some (piece, rest)) (more : List Char) :
      some (repetitionPiece flags bounds (text ++ ')' :: more)) =
        some (piece, rest ++ ')' :: more) := by
    rw [repetitionPiece_append_closing, Option.some.inj h]
  cases text with
  | nil => cases h
  | cons c text =>
      rw [piece?.eq_def] at h
      simp only [List.cons_append, piece?.eq_def] at h ⊢
      split at h
      next hblank =>
        cases h
        exact .inl fun more => if_pos hblank
      next hblank =>
        rw [if_neg hblank]
        split at h
        next hcomment =>
          rw [if_pos hcomment]
          cases h
          -- A comment without a line break takes the parenthesis, any other one leaves it.
          by_cases hopen : text.dropWhile (· != '\n') = []
          · obtain ⟨hafter, hclosing⟩ := afterComment_of_open hopen
            rw [hclosing]
            exact .inr ⟨hafter, rfl⟩
          · refine .inl fun more => ?_
            rw [if_neg hblank, if_pos hcomment, afterComment_append_closing hopen more]
        next hcomment =>
          refine .inl fun more => ?_
          rw [if_neg hblank, if_neg hcomment]
          split at h
          next => exact steady_readOpening? flags h more
          next =>
            cases h
            rfl
          next =>
            cases h
            rfl
          next => exact steady_readSet? flags h more
          next => exact repeated h more
          next => exact repeated h more
          next => exact repeated h more
          next =>
            split at h
            · cases h
            next hverbose =>
              obtain ⟨⟨bounds, after⟩, hbounds, h⟩ := Option.map_eq_some_iff.mp h
              rw [if_neg hverbose, steady_readBounds? hbounds more]
              exact repeated (congrArg some h) more
          next => exact (steady_escape.map fun escape =>
              Piece.part (escape.written flags.ignoreCase)) h more
          all_goals
            cases h
            rfl

end Steady

end QubitScript.Pattern
