import QubitScript.Proofs.Line.Arguments

/-!
# Parentheses within parentheses

The splitter of calls goes through a text once and counts the parentheses that are open. Which texts
it takes, and what it makes of them, is said here without the counter: the parentheses of the text
match, and its pieces are what stands between the commas that are in none of them. Parentheses may
be nested to any depth.
-/

namespace QubitScript

open QubitScript.Text

/-! ## Matching parentheses -/

/-- In a text that follows `depth` open parentheses, none is closed that is not open, and none is
open in the end. -/
structure NestedFrom (depth : Nat) (text : List Char) : Prop where
  above : ∀ front, front <+: text → front.count ')' ≤ depth + front.count '('
  level : text.count ')' = depth + text.count '('

/-- The parentheses of a text match. -/
def Nested (text : List Char) : Prop := NestedFrom 0 text

/-- Of a text that follows `depth` open parentheses, no comma is outside of them all. -/
def UncutFrom (depth : Nat) (text : List Char) : Prop :=
  ∀ front after, text = front ++ ',' :: after → front.count ')' ≠ depth + front.count '('

/-- The pieces of a text between its commas outside of parentheses: before each of these commas as
many parentheses are closed as opened, and before no other comma. -/
structure Pieces (text : List Char) (pieces : List (List Char)) : Prop where
  nonempty : pieces ≠ []
  joined : text = [','].intercalate pieces
  balanced : ∀ piece ∈ pieces, Balanced piece
  uncut : ∀ piece ∈ pieces, ∀ front after, piece = front ++ ',' :: after → ¬ Balanced front

section Depths

variable {depth depth' : Nat} {c : Char} {text first second : List Char}

theorem Nested.balanced (h : Nested text) : Balanced text := by
  show text.count '(' = text.count ')'
  rw [h.level, Nat.zero_add]

theorem nestedFrom_nil : NestedFrom depth [] ↔ depth = 0 := by
  constructor
  · intro h
    simpa using h.level.symm
  · rintro rfl
    refine ⟨fun front hfront => ?_, rfl⟩
    rw [List.prefix_nil.mp hfront]
    exact Nat.le_refl _

/-- One character changes the depth at which the rest of a text is read. -/
theorem nestedFrom_cons
    (h : depth + (if c == '(' then 1 else 0) = depth' + if c == ')' then 1 else 0) :
    NestedFrom depth (c :: text) ↔ NestedFrom depth' text := by
  constructor
  · intro hnested
    constructor
    · intro front hfront
      have habove := hnested.above (c :: front) (List.cons_prefix_cons.mpr ⟨rfl, hfront⟩)
      simp only [List.count_cons] at habove
      omega
    · have hlevel := hnested.level
      simp only [List.count_cons] at hlevel
      omega
  · intro hnested
    constructor
    · intro front hfront
      rcases List.prefix_cons_iff.mp hfront with rfl | ⟨front, rfl, hrest⟩
      · exact Nat.zero_le _
      · have habove := hnested.above front hrest
        simp only [List.count_cons]
        omega
    · have hlevel := hnested.level
      simp only [List.count_cons]
      omega

theorem not_nestedFrom_closing : ¬ NestedFrom 0 (')' :: text) := by
  intro h
  have habove := h.above [')'] (List.cons_prefix_cons.mpr ⟨rfl, List.nil_prefix⟩)
  exact absurd habove (by decide)

theorem uncutFrom_nil : UncutFrom depth [] :=
  fun _ _ h => absurd h (by simp)

theorem uncutFrom_cons
    (h : depth + (if c == '(' then 1 else 0) = depth' + if c == ')' then 1 else 0)
    (hcomma : ¬ (c = ',' ∧ depth = 0)) : UncutFrom depth (c :: text) ↔ UncutFrom depth' text := by
  constructor
  · intro huncut front after htext hlevel
    refine huncut (c :: front) after (by rw [htext]; rfl) ?_
    simp only [List.count_cons]
    omega
  · intro huncut front after htext hlevel
    cases front with
    | nil => exact hcomma ⟨(List.cons.inj htext).1, hlevel.symm⟩
    | cons d front =>
        obtain ⟨rfl, hrest⟩ := List.cons.inj htext
        simp only [List.count_cons] at hlevel
        exact huncut front after hrest (by omega)

theorem not_uncutFrom_comma : ¬ UncutFrom 0 (',' :: text) :=
  fun h => h [] text rfl rfl

/-- Parentheses that match one after another match together. -/
theorem nested_append (h : Balanced first) :
    Nested (first ++ second) ↔ Nested first ∧ Nested second := by
  have hbalanced : first.count '(' = first.count ')' := h
  constructor
  · intro hnested
    refine ⟨⟨fun front hfront => ?_, by omega⟩, ⟨fun front hfront => ?_, ?_⟩⟩
    · exact hnested.above front (hfront.trans (List.prefix_append _ _))
    · have habove :=
        hnested.above (first ++ front) ((List.prefix_append_right_inj first).mpr hfront)
      rw [List.count_append, List.count_append] at habove
      omega
    · have hlevel := hnested.level
      rw [List.count_append, List.count_append] at hlevel
      omega
  · rintro ⟨hfirst, hsecond⟩
    constructor
    · intro front hfront
      -- A front ends in the first text, or it holds all of it and ends in the second one.
      rcases List.prefix_or_prefix_of_prefix hfront (List.prefix_append first second) with hin | hin
      · exact hfirst.above front hin
      · obtain ⟨rest, rfl⟩ := hin
        have habove := hsecond.above rest ((List.prefix_append_right_inj first).mp hfront)
        rw [List.count_append, List.count_append]
        omega
    · have hlevel := hsecond.level
      rw [List.count_append, List.count_append]
      omega

theorem nested_of_notMem (hopening : '(' ∉ text) (hclosing : ')' ∉ text) : Nested text := by
  refine ⟨fun front hfront => ?_, ?_⟩
  · rw [List.count_eq_zero.mpr fun hmem => hclosing (hfront.mem hmem)]
    exact Nat.zero_le _
  · rw [List.count_eq_zero.mpr hopening, List.count_eq_zero.mpr hclosing]

end Depths

/-! ## Pieces one after another -/

/-- A piece of a text that follows `depth` open parentheses. -/
def IsPieceFrom (depth : Nat) (piece : List Char) : Prop :=
  NestedFrom depth piece ∧ UncutFrom depth piece

/-- The pieces of a text that follows `depth` open parentheses. They are all closed within the first
of the pieces. -/
structure PiecesFrom (depth : Nat) (text first : List Char) (others : List (List Char)) : Prop where
  joined : text = [','].intercalate (first :: others)
  first : IsPieceFrom depth first
  others : ∀ other ∈ others, IsPieceFrom 0 other

section Cutting

variable {depth depth' : Nat} {c : Char} {text first : List Char} {others : List (List Char)}

theorem isPieceFrom_cons
    (h : depth + (if c == '(' then 1 else 0) = depth' + if c == ')' then 1 else 0)
    (hcomma : ¬ (c = ',' ∧ depth = 0)) :
    IsPieceFrom depth (c :: first) ↔ IsPieceFrom depth' first :=
  and_congr (nestedFrom_cons h) (uncutFrom_cons h hcomma)

theorem isPieceFrom_nil : IsPieceFrom depth [] ↔ depth = 0 :=
  (and_iff_left uncutFrom_nil).trans nestedFrom_nil

/-- What a text with pieces begins with is the first piece, or a comma if that is empty. -/
theorem eq_cons_of_intercalate (h : c :: text = [','].intercalate (first :: others)) :
    (∃ more, first = c :: more ∧ text = [','].intercalate (more :: others)) ∨
      first = [] ∧ c = ',' ∧ ∃ next rest, others = next :: rest ∧
        text = [','].intercalate (next :: rest) := by
  cases others with
  | nil =>
      rw [List.intercalate_singleton] at h
      exact .inl ⟨text, h.symm, (List.intercalate_singleton).symm⟩
  | cons next rest =>
      rw [List.intercalate_cons_cons] at h
      cases first with
      | nil =>
          obtain ⟨rfl, htext⟩ := List.cons.inj h
          exact .inr ⟨rfl, rfl, next, rest, rfl, htext⟩
      | cons d more =>
          obtain ⟨rfl, htext⟩ := List.cons.inj h
          refine .inl ⟨more, rfl, ?_⟩
          rw [List.intercalate_cons_cons]
          exact htext

theorem piecesFrom_nil :
    PiecesFrom depth [] first others ↔ depth = 0 ∧ first = [] ∧ others = [] := by
  constructor
  · intro h
    have hjoined := h.joined
    cases others with
    | nil =>
        rw [List.intercalate_singleton] at hjoined
        subst hjoined
        exact ⟨isPieceFrom_nil.mp h.first, rfl, rfl⟩
    | cons next rest =>
        rw [List.intercalate_cons_cons] at hjoined
        simp at hjoined
  · rintro ⟨rfl, rfl, rfl⟩
    exact ⟨rfl, isPieceFrom_nil.mpr rfl, nofun⟩

/-- A comma outside of parentheses ends the first piece. -/
theorem piecesFrom_comma : PiecesFrom 0 (',' :: text) first others ↔
    first = [] ∧ ∃ next rest, others = next :: rest ∧ PiecesFrom 0 text next rest := by
  constructor
  · intro h
    rcases eq_cons_of_intercalate h.joined with ⟨more, rfl, -⟩ | ⟨rfl, -, next, rest, rfl, htext⟩
    · exact absurd h.first.2 not_uncutFrom_comma
    · obtain ⟨hnext, hrest⟩ := List.forall_mem_cons.mp h.others
      exact ⟨rfl, next, rest, rfl, htext, hnext, hrest⟩
  · rintro ⟨rfl, next, rest, rfl, h⟩
    refine ⟨?_, isPieceFrom_nil.mpr rfl, List.forall_mem_cons.mpr ⟨h.first, h.others⟩⟩
    rw [List.intercalate_cons_cons, ← h.joined]
    rfl

/-- Any other character belongs to the first piece. -/
theorem piecesFrom_cons
    (h : depth + (if c == '(' then 1 else 0) = depth' + if c == ')' then 1 else 0)
    (hcomma : ¬ (c = ',' ∧ depth = 0)) : PiecesFrom depth (c :: text) first others ↔
      ∃ more, first = c :: more ∧ PiecesFrom depth' text more others := by
  constructor
  · intro hpieces
    rcases eq_cons_of_intercalate hpieces.joined with ⟨more, rfl, htext⟩ | ⟨rfl, rfl, -⟩
    · exact ⟨more, rfl, htext, (isPieceFrom_cons h hcomma).mp hpieces.first, hpieces.others⟩
    · exact absurd ⟨rfl, isPieceFrom_nil.mp hpieces.first⟩ hcomma
  · rintro ⟨more, rfl, hpieces⟩
    refine ⟨?_, (isPieceFrom_cons h hcomma).mpr hpieces.first, hpieces.others⟩
    rw [hpieces.joined]
    cases others with
    | nil => rw [List.intercalate_singleton, List.intercalate_singleton]
    | cons next rest =>
        rw [List.intercalate_cons_cons, List.intercalate_cons_cons]
        rfl

theorem not_piecesFrom_closing : ¬ PiecesFrom 0 (')' :: text) first others := by
  intro h
  rcases eq_cons_of_intercalate h.joined with ⟨more, rfl, -⟩ | ⟨-, hcomma, -⟩
  · exact not_nestedFrom_closing h.first.1
  · exact absurd hcomma (by decide)

end Cutting

/-! ## The splitter -/

/-- The splitter finds the pieces, the first of them after the characters since the last cut. The
depth that it counts is the one at which the rest of the text is read. -/
theorem Call.cutAtCommas_eq_ok {text : List Char} : ∀ {depth : Nat} {piece : List Char}
    {pieces : List (List Char)}, cutAtCommas depth piece text = .ok pieces ↔
      ∃ first others, pieces = (piece.reverse ++ first) :: others ∧
        PiecesFrom depth text first others := by
  induction text with
  | nil =>
      intro depth piece pieces
      simp only [cutAtCommas, piecesFrom_nil]
      by_cases hdepth : depth = 0
      · simp [hdepth, eq_comm]
      · simp [hdepth]
  | cons c text ih =>
      intro depth piece pieces
      -- A character that does not cut comes after those of the open piece.
      have onward : ∀ {depth'}, cutAtCommas depth piece (c :: text) =
          cutAtCommas depth' (c :: piece) text →
          depth + (if c == '(' then 1 else 0) = depth' + (if c == ')' then 1 else 0) →
          ¬ (c = ',' ∧ depth = 0) → (cutAtCommas depth piece (c :: text) = .ok pieces ↔
            ∃ first others, pieces = (piece.reverse ++ first) :: others ∧
              PiecesFrom depth (c :: text) first others) := by
        intro depth' hstep hdepth hcomma
        rw [hstep, ih]
        constructor
        · rintro ⟨first, others, rfl, h⟩
          refine ⟨c :: first, others, by simp, (piecesFrom_cons hdepth hcomma).mpr ⟨first, rfl, h⟩⟩
        · rintro ⟨_, others, rfl, h⟩
          obtain ⟨first, rfl, hrest⟩ := (piecesFrom_cons hdepth hcomma).mp h
          exact ⟨first, others, by simp, hrest⟩
      by_cases hopening : c = '('
      · subst hopening
        exact onward rfl rfl (by simp)
      by_cases hclosing : c = ')'
      · subst hclosing
        cases depth with
        | zero =>
            constructor
            · intro h
              cases h
            · rintro ⟨first, others, -, h⟩
              exact absurd h not_piecesFrom_closing
        | succ depth => exact onward rfl rfl (by simp)
      by_cases hcomma : c = ',' ∧ depth = 0
      · obtain ⟨rfl, rfl⟩ := hcomma
        have hcut : cutAtCommas 0 piece (',' :: text) =
            (cutAtCommas 0 [] text).map (piece.reverse :: ·) := rfl
        rw [hcut, map_eq_ok]
        simp only [ih, piecesFrom_comma]
        constructor
        · rintro ⟨_, ⟨next, rest, rfl, h⟩, rfl⟩
          exact ⟨[], next :: rest, by simp, rfl, next, rest, rfl, h⟩
        · rintro ⟨_, _, rfl, rfl, next, rest, rfl, h⟩
          exact ⟨next :: rest, ⟨next, rest, rfl, h⟩, by simp⟩
      · have hstep : cutAtCommas depth piece (c :: text) = cutAtCommas depth (c :: piece) text := by
          rw [cutAtCommas, if_neg hcomma]
          · exact hopening
          · exact hclosing
        exact onward hstep (by simp [hopening, hclosing]) hcomma

theorem nested_comma {first second : List Char} (h : Balanced first) :
    Nested (first ++ ',' :: second) ↔ Nested first ∧ Nested second := by
  rw [nested_append h]
  exact and_congr_right' (nestedFrom_cons rfl)

/-- The parentheses of a text match exactly when those of each of its pieces do. -/
theorem nested_intercalate {pieces : List (List Char)} (h : ∀ piece ∈ pieces, Balanced piece) :
    Nested ([','].intercalate pieces) ↔ ∀ piece ∈ pieces, Nested piece := by
  induction pieces with
  | nil => exact ⟨fun _ => nofun, fun _ => nestedFrom_nil.mpr rfl⟩
  | cons piece pieces ih =>
      obtain ⟨hpiece, hothers⟩ := List.forall_mem_cons.mp h
      cases pieces with
      | nil => rw [List.intercalate_singleton, List.forall_mem_singleton]
      | cons next rest =>
          rw [List.intercalate_cons_cons, List.append_assoc, List.singleton_append,
            nested_comma hpiece, ih hothers, ← List.forall_mem_cons]

theorem uncutFrom_zero {piece : List Char} : UncutFrom 0 piece ↔
    ∀ front after, piece = front ++ ',' :: after → ¬ Balanced front := by
  simp only [UncutFrom, Nat.zero_add, Balanced, eq_comm, ne_eq]

/-- A text is cut into pieces, in each of which parentheses match and no comma is outside of them,
if and only if its parentheses match and these are its pieces. -/
theorem piecesFrom_zero {text first : List Char} {others : List (List Char)} :
    PiecesFrom 0 text first others ↔ Nested text ∧ Pieces text (first :: others) := by
  constructor
  · intro h
    have hpieces : ∀ piece ∈ first :: others, IsPieceFrom 0 piece :=
      List.forall_mem_cons.mpr ⟨h.first, h.others⟩
    have hbalanced : ∀ piece ∈ first :: others, Balanced piece :=
      fun piece hpiece => Nested.balanced (hpieces piece hpiece).1
    refine ⟨?_, List.cons_ne_nil _ _, h.joined, hbalanced, fun piece hpiece =>
      uncutFrom_zero.mp (hpieces piece hpiece).2⟩
    rw [h.joined, nested_intercalate hbalanced]
    exact fun piece hpiece => (hpieces piece hpiece).1
  · rintro ⟨hnested, hpieces⟩
    rw [hpieces.joined, nested_intercalate hpieces.balanced] at hnested
    have heach : ∀ piece ∈ first :: others, IsPieceFrom 0 piece := fun piece hpiece =>
      ⟨hnested piece hpiece, uncutFrom_zero.mpr (hpieces.uncut piece hpiece)⟩
    exact ⟨hpieces.joined, (List.forall_mem_cons.mp heach).1, (List.forall_mem_cons.mp heach).2⟩

/-! ## Arguments -/

/-- The arguments that the text between the outer parentheses of a call gives. -/
inductive ArgumentsOf (inner : List Char) : List (List Char) → Prop
  | none : trim inner = [] → ArgumentsOf inner []
  | pieces {pieces : List (List Char)} : Pieces inner pieces → (∀ piece ∈ pieces, trim piece ≠ []) →
      ArgumentsOf inner (pieces.map trim)

theorem nested_of_blank {text : List Char} (h : ∀ c ∈ text, isBlank c = true) : Nested text :=
  nested_of_notMem (fun hmem => absurd (h _ hmem) (by decide)) fun hmem =>
    absurd (h _ hmem) (by decide)

/-- Blanks have no comma in them, so that they are one piece. -/
theorem Pieces.trim_ne_nil {text : List Char} {pieces : List (List Char)} (h : Pieces text pieces)
    (hpieces : ∀ piece ∈ pieces, trim piece ≠ []) : trim text ≠ [] := by
  intro hblank
  have hjoined := h.joined
  cases pieces with
  | nil => exact h.nonempty rfl
  | cons piece others =>
      cases others with
      | nil =>
          rw [List.intercalate_singleton] at hjoined
          exact hpieces piece (.head _) (hjoined ▸ hblank)
      | cons next rest =>
          have hcomma : ',' ∈ text := by
            rw [hjoined, List.intercalate_cons_cons]
            simp
          exact absurd (trim_eq_nil.mp hblank ',' hcomma) (by decide)

theorem Call.splitArguments_eq_ok {inner : List Char} {arguments : List (List Char)} :
    splitArguments inner = .ok arguments ↔ Nested inner ∧ ArgumentsOf inner arguments := by
  by_cases hblank : trim inner = []
  · rw [splitArguments_blank hblank]
    constructor
    · rintro ⟨⟩
      exact ⟨nested_of_blank (trim_eq_nil.mp hblank), .none hblank⟩
    · rintro ⟨-, _ | ⟨hpieces, hnonblank⟩⟩
      · rfl
      · exact absurd hblank (hpieces.trim_ne_nil hnonblank)
  · rw [splitArguments, if_neg hblank, bind_eq_ok]
    -- The pieces are what is between the commas. All that is checked then is that none is blank.
    simp only [cutAtCommas_eq_ok, List.reverse_nil, List.nil_append, piecesFrom_zero, List.any_map]
    constructor
    · rintro ⟨_, ⟨first, others, rfl, hnested, hpieces⟩, h⟩
      split at h
      · cases h
      next hnonblank =>
          cases h
          refine ⟨hnested, .pieces hpieces fun piece hpiece htrim => hnonblank ?_⟩
          exact List.any_eq_true.mpr ⟨piece, hpiece, List.isEmpty_iff.mpr htrim⟩
    · rintro ⟨hnested, hnone | ⟨hpieces, hnonblank⟩⟩
      · exact absurd hnone hblank
      next pieces =>
          cases pieces with
          | nil => exact absurd rfl hpieces.nonempty
          | cons first others =>
              refine ⟨_, ⟨first, others, rfl, hnested, hpieces⟩, if_neg fun hany => ?_⟩
              obtain ⟨piece, hpiece, htrim⟩ := List.any_eq_true.mp hany
              exact hnonblank piece hpiece (List.isEmpty_iff.mp htrim)

/-! ## Calls -/

theorem Call.split_eq_ok {text name : List Char} {arguments : List (List Char)} :
    split text = .ok (name, arguments) ↔ ∃ front inner, text = front ++ '(' :: (inner ++ [')']) ∧
      '(' ∉ front ∧ trim front = name ∧ name ≠ [] ∧ splitArguments inner = .ok arguments := by
  constructor
  · intro h
    have htext := List.takeWhile_append_dropWhile (p := (· != '(')) (l := text)
    have hfront : '(' ∉ text.takeWhile (· != '(') := fun hmem =>
      absurd (List.mem_takeWhile_imp hmem) (by decide)
    rw [split] at h
    split at h
    · cases h
    next c after hafter =>
        have hopening : c = '(' := by
          have hhead := List.head?_dropWhile_not (· != '(') text
          rw [hafter] at hhead
          simpa using hhead
        subst hopening
        dsimp only at h
        split at h
        · cases h
        next hname =>
            split at h
            next hlast =>
                obtain ⟨found, hfound, h⟩ := map_eq_ok.mp h
                cases h
                refine ⟨_, after.dropLast, ?_, hfront, rfl, hname, hfound⟩
                rw [List.dropLast_append_getLast? ')' hlast, ← hafter, htext]
            next => cases h
  · rintro ⟨front, inner, rfl, hfront, rfl, hname, harguments⟩
    have hne : ∀ c ∈ front, (c != '(') = true := by
      intro c hc
      rw [bne_iff_ne]
      rintro rfl
      exact hfront hc
    rw [split, List.dropWhile_append_of_pos hne, List.takeWhile_append_of_pos hne]
    simp [hname, harguments, Except.map]

/-- The blanks around a text are in no parentheses. -/
theorem balanced_of_blank {text : List Char} (h : ∀ c ∈ text, isBlank c = true) : Balanced text :=
  (nested_of_blank h).balanced

theorem nested_trim {piece : List Char} (h : Nested piece) : Nested (trim piece) := by
  have hbefore : Balanced (blanksBefore piece) :=
    balanced_of_blank fun _ => isBlank_of_mem_blanksBefore
  have hafter : Balanced (blanksAfter piece) :=
    balanced_of_blank fun _ => isBlank_of_mem_blanksAfter
  rw [← trim_between piece, nested_append hbefore] at h
  have hbalanced : Balanced (trim piece) := by
    have hboth : (trim piece ++ blanksAfter piece).count '(' =
        (trim piece ++ blanksAfter piece).count ')' := h.2.balanced
    have hblanks : (blanksAfter piece).count '(' = (blanksAfter piece).count ')' := hafter
    rw [List.count_append, List.count_append] at hboth
    show (trim piece).count '(' = (trim piece).count ')'
    omega
  exact ((nested_append hbalanced).mp h.2).1

theorem uncut_trim {piece : List Char}
    (h : ∀ front after, piece = front ++ ',' :: after → ¬ Balanced front) :
    ∀ front after, trim piece = front ++ ',' :: after → ¬ Balanced front := by
  intro front after htrim hbalanced
  have hbefore : Balanced (blanksBefore piece) :=
    balanced_of_blank fun _ => isBlank_of_mem_blanksBefore
  have hpiece : piece = blanksBefore piece ++ front ++ ',' :: (after ++ blanksAfter piece) := by
    conv => lhs; rw [← trim_between piece, htrim]
    simp
  exact h _ _ hpiece ((balanced_append hbefore).mpr hbalanced)

/-- The arguments of a call, put together again, have the same parentheses and are the same
arguments. -/
theorem ArgumentsOf.intercalate {inner : List Char} {arguments : List (List Char)}
    (hnested : Nested inner) (h : ArgumentsOf inner arguments) :
    Nested ([','].intercalate arguments) ∧ ArgumentsOf ([','].intercalate arguments) arguments := by
  cases h with
  | none => exact ⟨nestedFrom_nil.mpr rfl, .none rfl⟩
  | @pieces pieces hpieces hnonblank =>
      rw [hpieces.joined, nested_intercalate hpieces.balanced] at hnested
      have htrimmed : ∀ piece ∈ pieces.map trim, Nested piece :=
        List.forall_mem_map.mpr fun piece hpiece => nested_trim (hnested piece hpiece)
      have hbalanced : ∀ piece ∈ pieces.map trim, Balanced piece :=
        fun piece hpiece => (htrimmed piece hpiece).balanced
      refine ⟨(nested_intercalate hbalanced).mpr htrimmed, ?_⟩
      have hsame : (pieces.map trim).map trim = pieces.map trim := by
        simp [List.map_map, Function.comp_def, trim_trim]
      rw [← hsame]
      refine .pieces ⟨by simpa using hpieces.nonempty, by rw [hsame], hbalanced,
        List.forall_mem_map.mpr fun piece hpiece => uncut_trim (hpieces.uncut piece hpiece)⟩ ?_
      refine List.forall_mem_map.mpr fun piece hpiece => ?_
      rw [trim_trim]
      exact hnonblank piece hpiece

/-- What a call is split into, put together, is split into the same name and arguments. -/
theorem Call.split_assemble {text name : List Char} {arguments : List (List Char)}
    (h : split text = .ok (name, arguments)) :
    split (name ++ '(' :: ([','].intercalate arguments ++ [')'])) = .ok (name, arguments) := by
  obtain ⟨front, inner, -, hfront, rfl, hname, harguments⟩ := split_eq_ok.mp h
  obtain ⟨hnested, hlist⟩ := splitArguments_eq_ok.mp harguments
  refine split_eq_ok.mpr ⟨trim front, _, rfl, fun hmem => hfront (mem_of_mem_trim hmem),
    trim_trim front, hname, ?_⟩
  exact splitArguments_eq_ok.mpr (hlist.intercalate hnested)

/-- A lexeme is split exactly if it is a text with no opening parenthesis, more than blanks, and
after it, between an opening and a closing parenthesis, a text whose parentheses match and that is
blank or has no blank piece between its commas. The name and the arguments are these texts without
the blanks around them. Put together and split again, they are the same. -/
theorem splitCall_eq_ok_iff_nested (lexeme name : String) (arguments : List String) :
    (splitCall lexeme = .ok (name, arguments) ↔
      ∃ front inner, lexeme.toList = front ++ '(' :: (inner ++ [')']) ∧ '(' ∉ front ∧
        trim front = name.toList ∧ name ≠ "" ∧ Nested inner ∧
        ArgumentsOf inner (arguments.map String.toList)) ∧
    (splitCall lexeme = .ok (name, arguments) →
      splitCall (Call.assemble name arguments) = .ok (name, arguments)) := by
  have hsplit : ∀ text : String, splitCall text = .ok (name, arguments) ↔
      Call.split text.toList = .ok (name.toList, arguments.map String.toList) := by
    intro text
    rw [splitCall_eq_ok]
    constructor
    · rintro ⟨front, pieces, h, rfl, rfl⟩
      simpa [List.map_map, Function.comp_def] using h
    · intro h
      exact ⟨_, _, h, by simp, by simp [List.map_map, Function.comp_def]⟩
  constructor
  · rw [hsplit, Call.split_eq_ok]
    simp only [Call.splitArguments_eq_ok, ne_eq, String.toList_eq_nil_iff]
  · intro h
    have hagain := Call.split_assemble ((hsplit lexeme).mp h)
    have hassemble := Call.toList_assemble name.toList (arguments.map String.toList)
    rw [hsplit]
    simp only [List.map_map, Function.comp_def, String.ofList_toList, List.map_id'] at hassemble
    rw [hassemble]
    exact hagain

/-- A comma in inner parentheses does not separate arguments, at whatever depth it is. -/
theorem splitCall_of_nested_call :
    splitCall " f ( g((1, 2),3) , x )" = .ok ("f", ["g((1, 2),3)", "x"]) ∧
      splitCall (Call.assemble "f" ["g((1, 2),3)", "x"]) = .ok ("f", ["g((1, 2),3)", "x"]) := by
  have hsplit : splitCall " f ( g((1, 2),3) , x )" = .ok ("f", ["g((1, 2),3)", "x"]) := by rfl
  exact ⟨hsplit, (splitCall_eq_ok_iff_nested _ _ _).2 hsplit⟩

end QubitScript
