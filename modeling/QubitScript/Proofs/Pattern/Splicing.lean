import QubitScript.Proofs.Pattern.Closing

/-!
# Patterns within patterns

A text that is a pattern on its own is read in the same pieces when it stands in a group of a longer
pattern, and there the pieces make the same content of that group. The one exception is a text that
leaves a comment open: the comment would take the end of the group.
-/

namespace QubitScript.Pattern

open QubitScript.Text

/-! ## Acting within other groups -/

/-- The open groups of a text when it stands in a group of its own: the outermost of them is that
group, which other groups enclose. -/
def graft (kind : GroupKind) (outer : Groups) : Groups → Groups
  | [] => outer
  | [outermost] => { outermost with kind } :: outer
  | current :: next :: groups => current :: graft kind outer (next :: groups)

section Graft

variable {kind : GroupKind} {outer groups after : Groups}

theorem repeatLast?_kind (current : OpenGroup) (bounds : Bounds) (greedy : Bool) :
    { current with kind }.repeatLast? bounds greedy =
      (current.repeatLast? bounds greedy).map fun repeated => { repeated with kind } := by
  rw [OpenGroup.repeatLast?, OpenGroup.repeatLast?]
  cases current.parts with
  | nil => rfl
  | cons part parts =>
      dsimp only
      split <;> rfl

theorem act_graft {piece : Piece} (hgroups : groups ≠ []) (h : piece.act groups = some after) :
    after ≠ [] ∧ piece.act (graft kind outer groups) = some (graft kind outer after) := by
  rcases groups with _ | ⟨current, _ | ⟨next, groups⟩⟩
  · exact absurd rfl hgroups
  · cases piece with
    | gap | flags _ | opening _ _ | bar | part _ =>
        cases h
        exact ⟨List.cons_ne_nil _ _, rfl⟩
    | closing => cases h
    | repetition bounds greedy =>
        obtain ⟨repeated, hrepeated, rfl⟩ := Option.map_eq_some_iff.mp h
        refine ⟨List.cons_ne_nil _ _, ?_⟩
        rw [graft, Piece.act, repeatLast?_kind, hrepeated]
        rfl
  · cases piece with
    | gap | flags _ | opening _ _ | bar | part _ =>
        cases h
        exact ⟨List.cons_ne_nil _ _, rfl⟩
    | closing =>
        cases groups <;> cases h <;> exact ⟨List.cons_ne_nil _ _, rfl⟩
    | repetition bounds greedy =>
        obtain ⟨repeated, hrepeated, rfl⟩ := Option.map_eq_some_iff.mp h
        refine ⟨List.cons_ne_nil _ _, ?_⟩
        rw [graft, Piece.act, hrepeated]
        rfl

/-- The innermost group has the same flags within other groups. -/
theorem exists_head_graft {current : OpenGroup} (h : groups.head? = some current) :
    ∃ grafted, (graft kind outer groups).head? = some grafted ∧ grafted.flags = current.flags := by
  rcases groups with _ | ⟨first, _ | ⟨next, groups⟩⟩
  · cases h
  · cases h
    exact ⟨_, rfl, rfl⟩
  · cases h
    exact ⟨_, rfl, rfl⟩

/-- A pattern is read in the same way within a group, up to the closing parenthesis, or it leaves a
comment open, which takes a closing parenthesis. -/
theorem Reads.before_closing {count : Nat} {text rest : List Char} (hgroups : groups ≠ [])
    (h : Reads count groups text after rest) : rest = [] →
    (∀ kind outer more, Reads count (graft kind outer groups) (text ++ ')' :: more)
      (graft kind outer after) (')' :: more)) ∨
    Reads count groups (text ++ [')']) after [] := by
  induction h with
  | done =>
      rintro rfl
      exact .inl fun _ _ _ => .done
  | piece hpiece hothers ih =>
      intro hrest
      obtain ⟨current, piece, hcurrent, htaken, hact⟩ := readPiece?_eq_some.mp hpiece
      have hbetween := (@act_graft .enclosing [] _ _ piece hgroups hact).1
      rcases piece?_append_closing htaken with hsteady | ⟨hmiddle, hcomment⟩
      · rcases ih hbetween hrest with hinner | hopen
        · refine .inl fun kind outer more => .piece ?_ (hinner kind outer more)
          obtain ⟨grafted, hgrafted, hflags⟩ := exists_head_graft hcurrent
          refine readPiece?_eq_some.mpr ⟨grafted, piece, hgrafted, ?_, (act_graft hgroups hact).2⟩
          rw [hflags]
          exact hsteady more
        · exact .inr (.piece (readPiece?_eq_some.mpr ⟨current, piece, hcurrent, hsteady [], hact⟩)
            hopen)
      · subst hmiddle
        have htext := readPiece?_eq_some.mpr ⟨current, piece, hcurrent, hcomment, hact⟩
        -- Nothing is left after the comment.
        cases hothers with
        | done => exact .inr (.piece htext .done)
        | piece hnone _ =>
            rw [readPiece?_nil] at hnone
            cases hnone

end Graft

/-! ## Groups with names -/

/-- Whether a text may be the name of a group. -/
def IsGroupName (name : List Char) : Prop :=
  name.head?.any isGroupNameStart = true ∧ name.all isGroupNamePart = true

theorem isGroupNamePart_closing : isGroupNamePart '>' = false := by decide +kernel

theorem readGroupName?_append {name : List Char} (h : IsGroupName name) (rest : List Char) :
    readGroupName? (name ++ '>' :: rest) = some (String.ofList name, rest) := by
  have hname : ∀ c ∈ name, (c != '>') = true := by
    intro c hc
    rw [bne_iff_ne]
    rintro rfl
    have hpart := List.all_eq_true.mp h.2 _ hc
    rw [isGroupNamePart_closing] at hpart
    cases hpart
  have hstart : (name.head?.any isGroupNameStart && name.all isGroupNamePart) = true := by
    rw [h.1, h.2]
    rfl
  rw [readGroupName?, takeWhile_append_of_head (by rintro c ⟨⟩; rfl),
    dropWhile_append_of_head (by rintro c ⟨⟩; rfl), List.takeWhile_eq_self_iff.mpr hname,
    List.dropWhile_eq_nil_iff.mpr hname, List.nil_append]
  exact if_pos hstart

/-- The text of a pattern in a group with a name, and what follows it. -/
def groupChars (name text more : List Char) : List Char :=
  '(' :: '?' :: 'P' :: '<' :: (name ++ '>' :: (text ++ ')' :: more))

section Groups

/-- A closing parenthesis is no blank, and does not begin a comment. -/
theorem piece?_closing (flags : Flags) (more : List Char) :
    piece? flags (')' :: more) = some (.closing, more) := by
  have hblank : isBlank ')' = false := by decide
  rw [piece?, hblank, Bool.and_false, if_neg Bool.false_ne_true, if_neg (by simp)]

variable {dialect : Dialect} {name text : List Char} {written : Written}

/-- The text is read to this pattern, which need not be accepted, and leaves no comment open. -/
def ReadsAlone (dialect : Dialect) (text : List Char) (written : Written) : Prop :=
  ∃ count current, count ≤ text.length ∧
    Reads count [.new .enclosing dialect.flags] text [current] [] ∧
    ¬ Reads count [.new .enclosing dialect.flags] (text ++ [')']) [current] [] ∧
    current.content = written

/-- Such a text in a group with a name adds that group, whatever comes after it. -/
theorem ReadsAlone.reads_group (h : ReadsAlone dialect text written) (hname : IsGroupName name)
    {parent : OpenGroup} (hflags : parent.flags = dialect.flags) (outer : Groups) : ∃ count,
    count ≤ text.length + 2 ∧ ∀ more, Reads count (parent :: outer) (groupChars name text more)
      (parent.add (written.group (some (String.ofList name))) :: outer) more := by
  obtain ⟨count, current, hcount, hreads, hclosed, rfl⟩ := h
  refine ⟨count + 1 + 1, by omega, fun more => ?_⟩
  let kind := GroupKind.keeping (some (String.ofList name))
  have hopening : readPiece? (parent :: outer) (groupChars name text more) =
      some (.new kind dialect.flags :: parent :: outer, text ++ ')' :: more) := by
    refine readPiece?_eq_some.mpr ⟨parent, .opening kind dialect.flags, rfl, ?_, rfl⟩
    have hread : readOpening? dialect.flags
        ('?' :: 'P' :: '<' :: (name ++ '>' :: (text ++ ')' :: more))) =
        some (.opening kind dialect.flags, text ++ ')' :: more) := by
      rw [readOpening?, readGroupName?_append hname]
      rfl
    rw [hflags]
    exact hread
  have hinner : Reads count (.new kind dialect.flags :: parent :: outer) (text ++ ')' :: more)
      ({ current with kind } :: parent :: outer) (')' :: more) :=
    (hreads.before_closing (List.cons_ne_nil _ _) rfl).resolve_right hclosed kind (parent :: outer)
      more
  have hclosing : readPiece? ({ current with kind } :: parent :: outer) (')' :: more) =
      some (parent.add (current.content.group (some (String.ofList name))) :: outer, more) :=
    readPiece?_eq_some.mpr ⟨_, .closing, rfl, piece?_closing _ more, rfl⟩
  exact .piece hopening (hinner.append (.piece hclosing .done))

end Groups

end QubitScript.Pattern
