import QubitScript.Proofs.Pattern.Language
import QubitScript.Proofs.Pattern.Pieces

/-!
# Names of groups

Forms are put together and numbered in ways that move their parts, but no group gets into a pattern
that was not in its text. So the names that are kept beside a form are those of all groups in its
pattern.
-/

namespace QubitScript.Pattern

variable {scope : List String}

/-! ## Forms -/

namespace Form

/-- The names of the groups in a form. -/
def names : Form → List String
  | empty | set _ | assert _ => []
  | seq first rest => first.names ++ rest.names
  | alt left right => left.names ++ right.names
  | repeated _ _ body => body.names
  | group name body => name.toList ++ body.names

variable {form : Form} {forms : List Form}

theorem names_of_mem_parts (h : form.names ⊆ scope) : ∀ part ∈ form.parts, part.names ⊆ scope := by
  induction form with
  | empty => exact fun _ => nofun
  | seq first rest _ ih =>
      rw [names, List.append_subset] at h
      rw [parts]
      exact List.forall_mem_cons.mpr ⟨h.1, ih h.2⟩
  | _ => exact List.forall_mem_singleton.mpr h

theorem names_of_mem_branches (h : form.names ⊆ scope) :
    ∀ branch ∈ form.branches, branch.names ⊆ scope := by
  induction form with
  | alt left right _ ih =>
      rw [names, List.append_subset] at h
      rw [branches]
      exact List.forall_mem_cons.mpr ⟨h.1, ih h.2⟩
  | _ => exact List.forall_mem_singleton.mpr h

/-- What is taken apart has no other names. -/
theorem names_of_mem_flatMap {split : Form → List Form}
    (hsplit : ∀ {form}, form.names ⊆ scope → ∀ part ∈ split form, part.names ⊆ scope)
    (h : ∀ form ∈ forms, form.names ⊆ scope) :
    ∀ part ∈ forms.flatMap split, part.names ⊆ scope := by
  intro part hpart
  obtain ⟨form, hform, hpart⟩ := List.mem_flatMap.mp hpart
  exact hsplit (h form hform) part hpart

theorem names_concat (h : ∀ form ∈ forms, form.names ⊆ scope) : (concat forms).names ⊆ scope := by
  have hparts := names_of_mem_flatMap names_of_mem_parts h
  rw [concat]
  generalize forms.flatMap parts = pieces at hparts
  induction pieces with
  | nil => exact List.nil_subset _
  | cons piece pieces ih =>
      obtain ⟨hpiece, hpieces⟩ := List.forall_mem_cons.mp hparts
      rw [List.foldr_cons]
      split
      · exact hpiece
      · exact List.append_subset.mpr ⟨hpiece, ih hpieces⟩

theorem names_nest (h : ∀ form ∈ forms, form.names ⊆ scope) :
    (choose.nest forms).names ⊆ scope := by
  induction forms with
  | nil => exact List.nil_subset _
  | cons form forms ih =>
      obtain ⟨hform, hforms⟩ := List.forall_mem_cons.mp h
      cases forms with
      | nil => exact hform
      | cons other others => exact List.append_subset.mpr ⟨hform, ih hforms⟩

theorem names_choose (h : ∀ form ∈ forms, form.names ⊆ scope) : (choose forms).names ⊆ scope := by
  rw [choose]
  split
  · exact List.nil_subset _
  · exact names_nest (names_of_mem_flatMap names_of_mem_branches h)

theorem commonParts_subset : ∀ first second : List Form, commonParts first second ⊆ first
  | [], _ => fun _ h => by simp [commonParts] at h
  | part :: rest, [] => fun _ h => by simp [commonParts] at h
  | part :: rest, other :: others => by
      rw [commonParts]
      split
      · exact List.cons_subset_cons part (commonParts_subset rest others)
      · exact List.nil_subset _

theorem names_of_mem_sharedParts (h : ∀ form ∈ forms, form.names ⊆ scope) :
    ∀ part ∈ sharedParts forms, part.names ⊆ scope := by
  unfold sharedParts
  split
  next hlong =>
    split
    · exact fun _ => nofun
    next form rest =>
      obtain ⟨hform, -⟩ := List.forall_mem_cons.mp h
      have hfold : ∀ shared : List Form, rest.foldl (fun shared form =>
          commonParts shared form.parts) shared ⊆ shared := by
        clear h hlong
        induction rest with
        | nil => exact fun _ => List.Subset.refl _
        | cons other rest ih =>
            intro shared
            rw [List.foldl_cons]
            exact List.Subset.trans (ih _) (commonParts_subset shared other.parts)
      exact fun part hpart => names_of_mem_parts hform part (hfold _ hpart)
  next => exact fun _ => nofun

theorem names_choice (h : ∀ form ∈ forms, form.names ⊆ scope) : (choice forms).names ⊆ scope := by
  have hbranches := names_of_mem_flatMap names_of_mem_branches h
  rw [choice]
  split
  next form heq =>
    rw [heq] at hbranches
    exact hbranches form (.head _)
  next =>
    have hshared := names_of_mem_sharedParts hbranches
    split
    · exact names_choose hbranches
    · refine names_concat (List.forall_mem_append.mpr ⟨hshared, ?_⟩)
      refine List.forall_mem_singleton.mpr (names_choose fun form hform => ?_)
      obtain ⟨branch, hbranch, rfl⟩ := List.mem_map.mp hform
      exact names_concat fun part hpart =>
        names_of_mem_parts (hbranches branch hbranch) part (List.mem_of_mem_drop hpart)

theorem names_rounds {bounds : Bounds} {greedy : Bool} (h : form.names ⊆ scope) :
    (rounds bounds greedy form).names ⊆ scope := by
  rw [rounds]
  generalize (if form.takesNothing then bounds.atMostOnce else bounds) = bounds
  split
  · exact List.nil_subset _
  · split <;> exact h

end Form

/-! ## Numbered patterns -/

section Numbering

variable {α β : Type}

/-- Whatever number comes next, the result of the action has the property. -/
def Yields (P : α → Prop) (action : StateM Nat α) : Prop := ∀ next, P (action.run next).1

theorem yields_pure {P : α → Prop} {a : α} (h : P a) : Yields P (pure a) := fun _ => h

theorem yields_bind {P : α → Prop} {Q : β → Prop} {x : StateM Nat α} {f : α → StateM Nat β}
    (hx : Yields P x) (hf : ∀ a, P a → Yields Q (f a)) : Yields Q (x >>= f) := fun next =>
  hf _ (hx next) _

theorem yields_newNumber (numbered : Bool) : Yields (fun _ => True) (newNumber numbered) :=
  fun _ => trivial

/-- All groups of the pattern have names of the scope. -/
abbrev NamedIn (scope : List String) (pattern : Pattern) : Prop := pattern.names ⊆ scope

abbrev AllNamedIn (scope : List String) (patterns : List Pattern) : Prop :=
  ∀ pattern ∈ patterns, NamedIn scope pattern

theorem namedIn_joinChars {patterns : List Pattern} (h : AllNamedIn scope patterns) :
    AllNamedIn scope (joinChars patterns) := by
  induction patterns with
  | nil => exact h
  | cons pattern patterns ih =>
      obtain ⟨hpattern, hpatterns⟩ := List.forall_mem_cons.mp h
      have hjoined := ih hpatterns
      rw [joinChars.eq_def]
      split
      next heq => cases heq
      next heq =>
        cases heq
        split
        next hrest =>
          rw [hrest] at hjoined
          exact List.forall_mem_cons.mpr ⟨List.nil_subset _, (List.forall_mem_cons.mp hjoined).2⟩
        next => exact List.forall_mem_cons.mpr ⟨List.nil_subset _, hjoined⟩
      next heq =>
        cases heq
        exact List.forall_mem_cons.mpr ⟨hpattern, hjoined⟩

theorem namedIn_concat {patterns : List Pattern} (h : AllNamedIn scope patterns) :
    NamedIn scope (concat patterns) := by
  have hjoined := namedIn_joinChars h
  rw [concat]
  split
  · exact List.nil_subset _
  next pattern rest heq =>
    rw [heq] at hjoined
    obtain ⟨hpattern, hrest⟩ := List.forall_mem_cons.mp hjoined
    clear heq hjoined
    induction rest generalizing pattern with
    | nil => exact hpattern
    | cons other rest ih =>
        obtain ⟨hother, hrest⟩ := List.forall_mem_cons.mp hrest
        exact ih (.seq pattern other) (List.append_subset.mpr ⟨hpattern, hother⟩) hrest

theorem yields_exactly {count : Nat} {round : StateM Nat Pattern}
    (h : Yields (NamedIn scope) round) :
    Yields (AllNamedIn scope) (exactly count round) := by
  match count with
  | 0 => exact yields_pure fun _ => nofun
  | 1 => exact yields_bind h fun pattern hpattern =>
      yields_pure (List.forall_mem_singleton.mpr hpattern)
  | count + 2 => exact yields_bind h fun pattern hpattern =>
      yields_pure (List.forall_mem_singleton.mpr hpattern)

theorem namedIn_loopOf {number : Option Nat} {greedy mayTakeNothing : Bool} {round : Pattern}
    (h : NamedIn scope round) : NamedIn scope (loopOf number greedy mayTakeNothing round) := by
  rw [loopOf]
  split <;> exact h

theorem yields_repetition {bounds : Bounds} {numbered greedy mayTakeNothing : Bool}
    {round : StateM Nat Pattern} (h : Yields (NamedIn scope) round) :
    Yields (AllNamedIn scope) (repetition bounds numbered greedy mayTakeNothing round) := by
  rw [repetition]
  split
  · refine yields_bind (yields_newNumber numbered) fun number _ => ?_
    split
    · exact yields_bind (yields_newNumber numbered) fun _ _ => yields_bind h fun _ hround =>
        yields_pure (List.forall_mem_singleton.mpr hround)
    · exact yields_bind h fun _ hround => yields_pure (List.forall_mem_singleton.mpr hround)
  · exact yields_bind (yields_newNumber numbered) fun _ _ => yields_bind h fun _ hround =>
      yields_bind (yields_exactly h) fun _ hmust => yields_pure (List.forall_mem_append.mpr
        ⟨hmust, List.forall_mem_singleton.mpr (namedIn_loopOf hround)⟩)
  · refine yields_bind (yields_exactly h) fun must hmust => ?_
    split
    · exact yields_pure hmust
    · exact yields_bind (yields_newNumber numbered) fun _ _ => yields_bind h fun _ hround =>
        yields_pure (List.forall_mem_append.mpr ⟨hmust, List.forall_mem_singleton.mpr hround⟩)

theorem yields_numberFrom {form : Form} : ∀ {numbered : Bool}, form.names ⊆ scope →
    Yields (AllNamedIn scope) (form.numberFrom numbered) := by
  induction form with
  | empty => exact fun _ => yields_pure fun _ => nofun
  | set chars => exact fun _ => yields_pure (List.forall_mem_singleton.mpr (List.nil_subset _))
  | assert condition =>
      exact fun _ => yields_pure (List.forall_mem_singleton.mpr (List.nil_subset _))
  | seq first rest ihFirst ihRest =>
      intro numbered h
      obtain ⟨hfirst, hrest⟩ := List.append_subset.mp h
      exact yields_bind (ihFirst hfirst) fun _ hone => yields_bind (ihRest hrest) fun _ htwo =>
        yields_pure (List.forall_mem_append.mpr ⟨hone, htwo⟩)
  | alt left right ihLeft ihRight =>
      intro numbered h
      obtain ⟨hleft, hright⟩ := List.append_subset.mp h
      exact yields_bind (yields_newNumber numbered) fun _ _ =>
        yields_bind (ihLeft hleft) fun _ hone =>
        yields_bind (ihRight hright) fun _ htwo => yields_pure (List.forall_mem_singleton.mpr
          (List.append_subset.mpr ⟨namedIn_concat hone, namedIn_concat htwo⟩))
  | repeated bounds greedy body ih =>
      intro numbered h
      exact yields_repetition (yields_bind (ih h) fun _ hbody => yields_pure (namedIn_concat hbody))
  | group name body ih =>
      intro numbered h
      obtain ⟨hname, hbody⟩ := List.append_subset.mp h
      cases name with
      | none => exact ih hbody
      | some name =>
          exact yields_bind (ih hbody) fun _ hone => yields_pure (List.forall_mem_singleton.mpr
            (List.cons_subset.mpr ⟨hname (.head _), namedIn_concat hone⟩))

end Numbering

/-- The groups of a pattern are groups of its form. -/
theorem Form.names_pattern (form : Form) : form.pattern.names ⊆ form.names :=
  namedIn_concat (yields_numberFrom (List.Subset.refl _) 0)

/-! ## Reading -/

/-- The names that are kept beside the form are those of its groups. -/
def Written.IsNamed (written : Written) : Prop := written.form.names ⊆ written.names

namespace Written

variable {written : Written} {list : List Written}

theorem names_of_mem_forms (h : ∀ written ∈ list, written.IsNamed) :
    ∀ form ∈ list.map (·.form), form.names ⊆ list.flatMap (·.names) := by
  intro form hform
  obtain ⟨written, hwritten, rfl⟩ := List.mem_map.mp hform
  exact fun name hname => List.mem_flatMap.mpr ⟨written, hwritten, h written hwritten hname⟩

theorem isNamed_concat (h : ∀ written ∈ list, written.IsNamed) : (concat list).IsNamed := by
  match list with
  | [] => exact List.nil_subset _
  | [written] => exact h written (.head _)
  | _ :: _ :: _ => exact Form.names_concat (names_of_mem_forms h)

theorem isNamed_choice (h : ∀ written ∈ list, written.IsNamed) : (choice list).IsNamed := by
  match list with
  | [] => exact Form.names_choice (names_of_mem_forms h)
  | [written] => exact h written (.head _)
  | _ :: _ :: _ => exact Form.names_choice (names_of_mem_forms h)

theorem IsNamed.rounds {bounds : Bounds} {greedy : Bool} (h : written.IsNamed) :
    (written.rounds bounds greedy).IsNamed :=
  Form.names_rounds h

theorem IsNamed.close (h : written.IsNamed) (kind : GroupKind) : (kind.close written).IsNamed := by
  cases kind with
  | keeping name =>
      exact List.append_subset.mpr
        ⟨List.subset_append_left _ _, List.subset_append_of_subset_right _ h⟩
  | enclosing => exact h

end Written

namespace OpenGroup

/-- So are those of everything that an open group holds. -/
structure IsNamed (group : OpenGroup) : Prop where
  branches : ∀ written ∈ group.branches, written.IsNamed
  parts : ∀ written ∈ group.parts, written.IsNamed

variable {group : OpenGroup}

theorem isNamed_new (kind : GroupKind) (flags : Flags) : (new kind flags).IsNamed :=
  ⟨fun _ => nofun, fun _ => nofun⟩

theorem IsNamed.add (h : group.IsNamed) {written : Written} (hwritten : written.IsNamed) :
    (group.add written).IsNamed :=
  ⟨h.branches, List.forall_mem_cons.mpr ⟨hwritten, h.parts⟩⟩

theorem IsNamed.setFlags (h : group.IsNamed) (flags : Flags) : (group.setFlags flags).IsNamed :=
  ⟨h.branches, List.forall_mem_cons.mpr ⟨List.nil_subset _, h.parts⟩⟩

theorem IsNamed.branch (h : group.IsNamed) : group.branch.IsNamed := by
  refine ⟨List.forall_mem_cons.mpr ⟨?_, h.branches⟩, fun _ => nofun⟩
  exact Written.isNamed_concat fun written hwritten =>
    h.parts written (List.mem_reverse.mp hwritten)

theorem IsNamed.content (h : group.IsNamed) : group.content.IsNamed :=
  Written.isNamed_choice fun written hwritten =>
    h.branch.branches written (List.mem_reverse.mp hwritten)

theorem IsNamed.close (h : group.IsNamed) : group.close.IsNamed := h.content.close group.kind

theorem IsNamed.repeatLast? (h : group.IsNamed) {bounds : Bounds} {greedy : Bool}
    {repeated : OpenGroup} (hrepeated : group.repeatLast? bounds greedy = some repeated) :
    repeated.IsNamed := by
  rw [OpenGroup.repeatLast?] at hrepeated
  split at hrepeated
  · cases hrepeated
  next part parts heq =>
    split at hrepeated
    · cases hrepeated
      have hparts := h.parts
      rw [heq] at hparts
      obtain ⟨hpart, hothers⟩ := List.forall_mem_cons.mp hparts
      exact ⟨h.branches, List.forall_mem_cons.mpr ⟨hpart.rounds, hothers⟩⟩
    · cases hrepeated

end OpenGroup

/-- Flags are read as a piece that is no part of the pattern. -/
theorem ne_part_of_readFlags? {written : Written} {text rest : List Char} :
    ∀ {flags : Flags} {on : Bool} {seen : List Char},
    readFlags? flags on seen text ≠ some (.part written, rest) := by
  induction text with
  | nil => exact nofun
  | cons c text ih =>
      intro flags on seen h
      rw [readFlags?.eq_def] at h
      split at h
      next => cases h
      next => split at h <;> cases h
      next => split at h <;> cases h
      next heq =>
        cases heq
        split at h
        · exact ih h
        · cases h
      next heq =>
        cases heq
        split at h
        · cases h
        · obtain ⟨now, -, h⟩ := Option.bind_eq_some_iff.mp h
          exact ih h

/-- So is what opens a group. -/
theorem ne_part_of_readOpening? {flags : Flags} {written : Written} {text rest : List Char} :
    readOpening? flags text ≠ some (.part written, rest) := by
  intro h
  rw [readOpening?.eq_def] at h
  split at h
  next =>
    obtain ⟨_, -, h⟩ := Option.map_eq_some_iff.mp h
    cases h
  next =>
    obtain ⟨_, -, h⟩ := Option.map_eq_some_iff.mp h
    cases h
  next => exact ne_part_of_readFlags? h
  next => cases h

/-- A part that is read as a piece has no groups. -/
theorem isNamed_of_piece? {flags : Flags} {text rest : List Char} {written : Written}
    (h : piece? flags text = some (.part written, rest)) : written.IsNamed := by
  have hleaf : ∀ {form : Form}, form.names = [] → (Written.leaf form).IsNamed := fun hform => by
    rw [Written.IsNamed, Written.leaf, hform]
    exact List.nil_subset _
  rw [piece?.eq_def] at h
  split at h
  next => cases h
  next =>
    split at h
    · cases h
    · split at h
      · cases h
      · split at h
        next => exact absurd h ne_part_of_readOpening?
        next => cases h
        next => cases h
        next =>
          obtain ⟨_, -, h⟩ := Option.bind_eq_some_iff.mp h
          dsimp only at h
          split at h
          · cases h
          · cases h
            exact List.nil_subset _
        next => cases h
        next => cases h
        next => cases h
        next =>
          split at h
          · cases h
          · obtain ⟨_, -, h⟩ := Option.map_eq_some_iff.mp h
            cases h
        next =>
          obtain ⟨⟨escape, _⟩, -, h⟩ := Option.map_eq_some_iff.mp h
          cases h
          cases escape <;> exact hleaf rfl
        all_goals
          cases h
          exact hleaf rfl

theorem isNamed_of_act {piece : Piece} {groups after : Groups}
    (hpiece : ∀ written, piece = .part written → written.IsNamed)
    (hgroups : ∀ group ∈ groups, group.IsNamed) (h : piece.act groups = some after) :
    ∀ group ∈ after, group.IsNamed := by
  match piece, groups with
  | .gap, groups =>
      cases h
      exact hgroups
  | .flags flags, current :: outer =>
      cases h
      obtain ⟨hcurrent, houter⟩ := List.forall_mem_cons.mp hgroups
      exact List.forall_mem_cons.mpr ⟨hcurrent.setFlags flags, houter⟩
  | .opening kind flags, groups =>
      cases h
      exact List.forall_mem_cons.mpr ⟨OpenGroup.isNamed_new kind flags, hgroups⟩
  | .closing, current :: parent :: outer =>
      cases h
      obtain ⟨hcurrent, hothers⟩ := List.forall_mem_cons.mp hgroups
      obtain ⟨hparent, houter⟩ := List.forall_mem_cons.mp hothers
      exact List.forall_mem_cons.mpr ⟨hparent.add hcurrent.close, houter⟩
  | .bar, current :: outer =>
      cases h
      obtain ⟨hcurrent, houter⟩ := List.forall_mem_cons.mp hgroups
      exact List.forall_mem_cons.mpr ⟨hcurrent.branch, houter⟩
  | .part written, current :: outer =>
      cases h
      obtain ⟨hcurrent, houter⟩ := List.forall_mem_cons.mp hgroups
      exact List.forall_mem_cons.mpr ⟨hcurrent.add (hpiece written rfl), houter⟩
  | .repetition bounds greedy, current :: outer =>
      obtain ⟨hcurrent, houter⟩ := List.forall_mem_cons.mp hgroups
      obtain ⟨repeated, hrepeated, rfl⟩ := Option.map_eq_some_iff.mp h
      exact List.forall_mem_cons.mpr ⟨hcurrent.repeatLast? hrepeated, houter⟩

theorem isNamed_of_reads {count : Nat} {groups after : Groups} {text rest : List Char}
    (h : Reads count groups text after rest) (hgroups : ∀ group ∈ groups, group.IsNamed) :
    ∀ group ∈ after, group.IsNamed := by
  induction h with
  | done => exact hgroups
  | piece hpiece _ ih =>
      obtain ⟨current, piece, -, hread, hact⟩ := readPiece?_eq_some.mp hpiece
      refine ih (isNamed_of_act ?_ hgroups hact)
      rintro part rfl
      exact isNamed_of_piece? hread

/-- The groups of a pattern are among those whose names were kept when its text was read. -/
theorem names_of_read? {dialect : Dialect} {text : String} {written : Written}
    (h : Written.read? dialect text = some written) :
    written.form.pattern.names ⊆ written.names := by
  obtain ⟨-, count, current, -, hreads, rfl⟩ := read?_eq_some.mp h
  have hnew : ∀ group ∈ [OpenGroup.new .enclosing dialect.flags], group.IsNamed :=
    List.forall_mem_singleton.mpr (OpenGroup.isNamed_new _ _)
  have hcurrent := isNamed_of_reads hreads hnew current (.head _)
  exact List.Subset.trans (Form.names_pattern _) hcurrent.content

end QubitScript.Pattern
