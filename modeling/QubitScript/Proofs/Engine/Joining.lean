import QubitScript.Proofs.Engine.Laws
import QubitScript.Proofs.Pattern.Preferred
import QubitScript.Proofs.Pattern.Renumbering
import QubitScript.Proofs.Pattern.Splicing

/-!
# Groups joined with bars

Pattern texts that stand in groups with names, with bars between the groups, are a pattern text. It
is read as the choice between the groups, with other numbers for the choices in loops.
-/

namespace QubitScript

open QubitScript.Text

/-! ## Names of rules -/

theorem meets_of_mem {least low high code : Nat} {ranges : List (Nat × Nat)} :
    ascending least ranges = true → (low, high) ∈ ranges → low ≤ code → code ≤ high →
    meets code code ranges = true := by
  induction ranges generalizing least with
  | nil => exact fun _ => nofun
  | cons range ranges ih =>
      intro hordered hmem hlow hhigh
      rw [meets_cons hordered, Bool.or_eq_true, decide_eq_true_eq]
      rcases List.mem_cons.mp hmem with rfl | hmem
      · exact .inl ⟨hlow, hhigh⟩
      · exact .inr (ih ((ascending_cons.mp hordered).2.2) hmem hlow hhigh)

theorem isLetter_of_isAlpha {c : Char} (h : c.isAlpha = true) : isLetter c = true := by
  rcases Bool.or_eq_true _ _ |>.mp h with h | h
  · obtain ⟨hlow, hhigh⟩ := of_decide_eq_true h
    exact meets_of_mem Text.letterSet.ordered (.head _) hlow hhigh
  · obtain ⟨hlow, hhigh⟩ := (Bool.and_eq_true _ _).mp h
    exact meets_of_mem Text.letterSet.ordered (.tail _ (.head _)) (of_decide_eq_true hlow)
      (of_decide_eq_true hhigh)

theorem isNumeral_of_isDigit {c : Char} (h : c.isDigit = true) : isNumeral c = true := by
  obtain ⟨hlow, hhigh⟩ := (Bool.and_eq_true _ _).mp h
  exact meets_of_mem numeralSet.ordered (.head _) (of_decide_eq_true hlow) (of_decide_eq_true hhigh)

/-- What may be the name of a rule may be the name of a group too. -/
theorem isGroupName_of_isKind {name : String} (h : isKind name = true) :
    Pattern.IsGroupName name.toList := by
  rw [isKind] at h
  split at h
  next => cases h
  next c rest heq =>
    obtain ⟨hfirst, hrest⟩ := (Bool.and_eq_true _ _).mp h
    have hstart : Pattern.isGroupNameStart c = true := by
      rw [Pattern.isGroupNameStart, Bool.or_eq_true]
      exact ((Bool.or_eq_true _ _).mp hfirst).symm.imp_right isLetter_of_isAlpha
    have hpart : ∀ c, (c.isAlphanum || c == '_') = true → Pattern.isGroupNamePart c = true := by
      intro c hc
      simp only [Char.isAlphanum, Bool.or_eq_true] at hc
      simp only [Pattern.isGroupNamePart, Bool.or_eq_true]
      rcases hc with (halpha | hdigit) | hunderscore
      · exact .inl (.inr (isLetter_of_isAlpha halpha))
      · exact .inr (isNumeral_of_isDigit hdigit)
      · exact .inl (.inl (.inl (.inl (.inl hunderscore))))
    refine ⟨by rw [heq]; exact hstart, ?_⟩
    rw [heq, List.all_cons, Bool.and_eq_true]
    refine ⟨hpart c ?_, List.all_eq_true.mpr fun d hd => hpart d (List.all_eq_true.mp hrest d hd)⟩
    rw [Bool.or_eq_true] at hfirst ⊢
    exact hfirst.imp_left fun halpha => by rw [Char.isAlphanum, halpha, Bool.true_or]

namespace Pattern

/-- A pattern with a name for its group. -/
structure Part where
  name : String
  written : Written

def Part.grouped (part : Part) : Written := part.written.group (some part.name)

/-- The choice between the groups, as it is written. -/
def joinedWritten (parts : List Part) : Written := .choice (parts.map Part.grouped)

/-! ## Reading the text -/

section Reading

variable {dialect : Dialect} {name pattern text others : String} {part : Part} {parts : List Part}

/-- Read in an open group the text adds a branch for every part. -/
def AddsBranches (dialect : Dialect) (text : String) (parts : List Part) : Prop :=
  ∀ parent : OpenGroup, parent.flags = dialect.flags → parent.parts = [] → ∃ count current,
    count ≤ text.toList.length ∧ Reads count [parent] text.toList [current] [] ∧
    current.branch.branches = (parts.map Part.grouped).reverse ++ parent.branches

/-- The text of a group reads as its part. -/
structure GroupOf (dialect : Dialect) (name pattern : String) (part : Part) : Prop where
  kind : isKind name = true
  named : part.name = name
  pattern : ReadsAlone dialect pattern.toList part.written

theorem toList_groupText (name pattern : String) (more : List Char) :
    (groupText name pattern).toList ++ more = groupChars name.toList pattern.toList more := by
  rw [groupText, groupChars]
  simp

theorem GroupOf.reads (h : GroupOf dialect name pattern part) {parent : OpenGroup}
    (hflags : parent.flags = dialect.flags) : ∃ count,
    count ≤ (groupText name pattern).toList.length ∧ ∀ more,
      Reads count [parent] ((groupText name pattern).toList ++ more) [parent.add part.grouped]
        more := by
  obtain ⟨count, hcount, hreads⟩ :=
    h.pattern.reads_group (isGroupName_of_isKind h.kind) hflags []
  refine ⟨count, ?_, fun more => ?_⟩
  · rw [← List.append_nil (groupText name pattern).toList, toList_groupText, groupChars]
    simp only [List.length_cons, List.length_append]
    omega
  · have hgrouped : part.written.group (some (String.ofList name.toList)) = part.grouped := by
      rw [String.ofList_toList, ← h.named, Part.grouped]
    rw [toList_groupText, ← hgrouped]
    exact hreads more

theorem branches_add {parent : OpenGroup} (h : parent.parts = []) (written : Written) :
    (parent.add written).branch.branches = written :: parent.branches := by
  rw [OpenGroup.branch, OpenGroup.add, h]
  rfl

theorem GroupOf.addsBranches (h : GroupOf dialect name pattern part) :
    AddsBranches dialect (groupText name pattern) [part] := by
  intro parent hflags hparts
  obtain ⟨count, hcount, hreads⟩ := h.reads hflags
  have hwhole := hreads []
  rw [List.append_nil] at hwhole
  exact ⟨count, parent.add part.grouped, hcount, hwhole, branches_add hparts _⟩

theorem piece?_bar {flags : Flags} (hflags : flags.verbose = false) (more : List Char) :
    piece? flags ('|' :: more) = some (.bar, more) := by
  rw [piece?, hflags]
  rfl

theorem GroupOf.addsBranches_more (h : GroupOf dialect name pattern part)
    (hothers : AddsBranches dialect others parts) :
    AddsBranches dialect (groupText name pattern ++ "|" ++ others) (part :: parts) := by
  intro parent hflags hparts
  obtain ⟨count, hcount, hreads⟩ := h.reads hflags
  -- After the bar the others are read in the same group, which has one branch more.
  obtain ⟨more, current, hmore, hreads', hbranches⟩ :=
    hothers (parent.add part.grouped).branch hflags rfl
  have htext : (groupText name pattern ++ "|" ++ others).toList =
      (groupText name pattern).toList ++ '|' :: others.toList := by simp
  have hbar : readPiece? [parent.add part.grouped] ('|' :: others.toList) =
      some ([(parent.add part.grouped).branch], others.toList) :=
    readPiece?_eq_some.mpr ⟨_, .bar, rfl,
      piece?_bar (by rw [OpenGroup.add, hflags]; rfl) _, rfl⟩
  refine ⟨count + (more + 1), current, ?_, ?_, ?_⟩
  · rw [htext, List.length_append, List.length_cons]
    omega
  · rw [htext]
    exact (hreads _).append (.piece hbar hreads')
  · rw [hbranches, branches_add hparts, List.append_cons, ← List.reverse_cons]
    rfl

/-- Such a text is read as the choice, unless that is not accepted. -/
theorem AddsBranches.read? (h : AddsBranches dialect text parts) :
    Written.read? dialect text = (some (joinedWritten parts)).filter (·.isAccepted) := by
  obtain ⟨count, current, hcount, hreads, hbranches⟩ := h (.new .enclosing dialect.flags) rfl rfl
  have hcontent : current.content = joinedWritten parts := by
    rw [OpenGroup.content, hbranches, List.reverse_append, List.reverse_reverse]
    rfl
  rw [Written.read?, readGroups?_eq_some.mpr ⟨count, current, hcount, hreads, hcontent⟩]

end Reading

/-! ## The pattern of the text -/

/-- From a place with no choices passed the patterns lead to the same places, in the same order. -/
def Agree (first second : Pattern) : Prop := ∀ (rounds : List Nat) (cursor : Cursor),
  cursor.passed = [] →
    (first.ends rounds cursor).map Cursor.settle = (second.ends rounds cursor).map Cursor.settle

namespace Part

def form (part : Part) : Form := .group (some part.name) part.written.form

def pattern (part : Part) : Pattern := .group part.name part.written.form.pattern

end Part

theorem flatMap_branches_parts (parts : List Part) :
    (parts.map Part.form).flatMap Form.branches = parts.map Part.form := by
  rw [List.flatMap_map, List.map_eq_flatMap]
  rfl

/-- Groups have nothing in common and are no sets of characters, so their choice stays as it is. -/
theorem choice_parts (part other : Part) (others : List Part) :
    Form.choice ((part :: other :: others).map Part.form) =
      Form.choose.nest ((part :: other :: others).map Part.form) := by
  have hunion : Form.union? ((part :: other :: others).map Part.form) = none := rfl
  have hshared : Form.sharedParts ((part :: other :: others).map Part.form) = [] := by
    unfold Form.sharedParts
    exact if_neg (by rw [List.map_cons, List.all_cons]; exact Bool.false_ne_true)
  rw [Form.choice, flatMap_branches_parts]
  split
  next heq => cases heq
  next =>
    rw [hshared]
    dsimp only
    rw [Form.choose, flatMap_branches_parts, hunion]

theorem form_joinedWritten {parts : List Part} (h : parts ≠ []) :
    (joinedWritten parts).form = Form.choose.nest (parts.map Part.form) := by
  match parts, h with
  | [part], _ => rfl
  | part :: other :: others, _ =>
      have hforms : ((part :: other :: others).map Part.grouped).map (·.form) =
          (part :: other :: others).map Part.form := List.map_map
      rw [← choice_parts, ← hforms]
      rfl

theorem concat_singleton (pattern : Pattern) : concat [pattern] = pattern := by
  cases pattern <;> rfl

theorem numberFrom_part (part : Part) (next : Nat) :
    ((part.form.numberFrom false).run next).1 = [part.pattern.renumber (higher next)] := by
  rw [Part.pattern, renumber, ← concat_numberFrom]
  rfl

theorem numberFrom_alt (left right : Form) (next : Nat) :
    (((Form.alt left right).numberFrom false).run next).1 =
      [.alt none (.concat ((left.numberFrom false).run next).1)
        (.concat ((right.numberFrom false).run ((left.numberFrom false).run next).2).1)] :=
  rfl

/-- The groups are numbered one after the other, where each has its numbers from the first one on
when it stands alone. -/
theorem numberFrom_nest {parts : List Part} : parts ≠ [] → ∀ next, ∃ pattern,
    (((Form.choose.nest (parts.map Part.form)).numberFrom false).run next).1 = [pattern] ∧
      Agree pattern (.choice (parts.map Part.pattern)) := by
  induction parts with
  | nil => exact fun h => absurd rfl h
  | cons part parts ih =>
      intro _ next
      have hgroup : Agree (part.pattern.renumber (higher next)) part.pattern :=
        fun rounds cursor hpassed =>
          settle_ends_renumber (higher_injective next) _ rounds hpassed
      cases parts with
      | nil => exact ⟨_, numberFrom_part part next, hgroup⟩
      | cons other others =>
          -- The others are numbered from where the first group ends.
          obtain ⟨pattern, hpattern, hagree⟩ := ih nofun ((part.form.numberFrom false).run next).2
          refine ⟨.alt none (part.pattern.renumber (higher next)) pattern, ?_, ?_⟩
          · refine (numberFrom_alt part.form _ next).trans ?_
            rw [hpattern, numberFrom_part, concat_singleton, concat_singleton]
          · intro rounds cursor hpassed
            have hleft := hgroup rounds cursor hpassed
            have hright := hagree rounds cursor hpassed
            rw [ends_alt, List.map_append, hleft, hright, ← List.map_append]
            rfl

/-- The pattern of the text leads to the same places as the choice between the groups. -/
theorem agree_joinedWritten {parts : List Part} (h : parts ≠ []) :
    Agree (joinedWritten parts).form.pattern (.choice (parts.map Part.pattern)) := by
  obtain ⟨pattern, hpattern, hagree⟩ := numberFrom_nest h 0
  rw [form_joinedWritten h, Form.pattern, hpattern, concat_singleton]
  exact hagree

/-! ## What is accepted -/

section Accepted

variable {part other : Part} {parts : List Part}

theorem foldl_max_le_iff {values : List Nat} {least bound : Nat} :
    values.foldl max least ≤ bound ↔ least ≤ bound ∧ ∀ value ∈ values, value ≤ bound := by
  induction values generalizing least with
  | nil => simp
  | cons value values ih =>
      rw [List.foldl_cons, ih, Nat.max_le, and_assoc, List.forall_mem_cons]

theorem names_joinedWritten (h : parts ≠ []) :
    (joinedWritten parts).names = parts.flatMap fun part => part.name :: part.written.names := by
  match parts, h with
  | [part], _ => exact (List.append_nil _).symm
  | part :: other :: others, _ =>
      have hnames : ((part :: other :: others).map Part.grouped).flatMap (·.names) =
          (part :: other :: others).flatMap fun part => part.name :: part.written.names :=
        List.flatMap_map ..
      exact hnames

/-- No group, and no choice between fewer groups, is more deeply nested. -/
theorem nesting_joinedWritten_le (h : parts ≠ []) :
    (joinedWritten [part]).nesting ≤ (joinedWritten (part :: parts)).nesting ∧
      (joinedWritten parts).nesting ≤ (joinedWritten (part :: parts)).nesting := by
  obtain ⟨other, others, rfl⟩ := List.exists_cons_of_ne_nil h
  have hall := (foldl_max_le_iff.mp (Nat.le_refl
    (((part :: other :: others).map Part.grouped).map (·.nesting) |>.foldl max 0))).2
  have hwhole : (joinedWritten (part :: other :: others)).nesting =
      (((part :: other :: others).map Part.grouped).map (·.nesting)).foldl max 0 + 1 := rfl
  rw [hwhole]
  refine ⟨Nat.le_succ_of_le (hall _ (.head _)), ?_⟩
  cases others with
  | nil => exact Nat.le_succ_of_le (hall _ (.tail _ (.head _)))
  | cons another others =>
      refine Nat.succ_le_succ (foldl_max_le_iff.mpr ⟨Nat.zero_le _, fun value hvalue => ?_⟩)
      exact hall value (.tail _ hvalue)

theorem size_alt_le {left right : Form} (setSize : CharSet → Nat) (groupSize : Nat) :
    left.size setSize groupSize ≤ (Form.alt left right).size setSize groupSize ∧
      right.size setSize groupSize ≤ (Form.alt left right).size setSize groupSize := by
  rw [Form.size.eq_def _ _ (.alt left right)]
  dsimp only
  omega

theorem size_joinedWritten_le (setSize : CharSet → Nat) (groupSize : Nat) (h : parts ≠ []) :
    (joinedWritten [part]).form.size setSize groupSize ≤
        (joinedWritten (part :: parts)).form.size setSize groupSize ∧
      (joinedWritten parts).form.size setSize groupSize ≤
        (joinedWritten (part :: parts)).form.size setSize groupSize := by
  obtain ⟨other, others, rfl⟩ := List.exists_cons_of_ne_nil h
  have hwhole : (joinedWritten (part :: other :: others)).form =
      .alt (joinedWritten [part]).form (joinedWritten (other :: others)).form := by
    rw [form_joinedWritten (List.cons_ne_nil part _), form_joinedWritten (List.cons_ne_nil part []),
      form_joinedWritten h]
    rfl
  rw [hwhole]
  exact size_alt_le setSize groupSize

theorem fits_of_size_le {form larger : Form}
    (h : ∀ setSize groupSize, form.size setSize groupSize ≤ larger.size setSize groupSize)
    (hfits : larger.fits = true) : form.fits = true := by
  have hbound := h CharSet.sizeBound 64
  have hforward := h CharSet.forwardSize 64
  have hbackward := h CharSet.backwardSize 0
  rw [Form.fits, Bool.or_eq_true, Bool.and_eq_true] at hfits ⊢
  refine hfits.imp (fun hsize => ?_) fun ⟨hforth, hback⟩ => ⟨?_, ?_⟩
  · exact decide_eq_true ((Nat.add_le_add_right hbound 208).trans (of_decide_eq_true hsize))
  · exact decide_eq_true ((Nat.add_le_add_right hforward 208).trans (of_decide_eq_true hforth))
  · exact decide_eq_true ((Nat.add_le_add_right hbackward 144).trans (of_decide_eq_true hback))

/-- What is accepted within a choice is accepted on its own. -/
theorem isAccepted_of_joinedWritten (h : parts ≠ [])
    (haccepted : (joinedWritten (part :: parts)).isAccepted = true) :
    (joinedWritten [part]).isAccepted = true ∧ (joinedWritten parts).isAccepted = true := by
  have hnesting := @nesting_joinedWritten_le part parts h
  simp only [Written.isAccepted, Bool.and_eq_true, decide_eq_true_eq,
    names_joinedWritten (List.cons_ne_nil _ _), names_joinedWritten h, List.flatMap_cons,
    List.flatMap_nil, List.append_nil, List.nodup_append] at haccepted ⊢
  -- The names are distinct, the nesting is not too deep, and the size is within the limit.
  obtain ⟨⟨⟨hpart, hparts, -⟩, hdepth⟩, hfits⟩ := haccepted
  exact ⟨⟨⟨hpart, hnesting.1.trans hdepth⟩,
      fits_of_size_le (fun setSize groupSize =>
        (size_joinedWritten_le setSize groupSize h).1) hfits⟩,
    ⟨⟨hparts, hnesting.2.trans hdepth⟩,
      fits_of_size_le (fun setSize groupSize =>
        (size_joinedWritten_le setSize groupSize h).2) hfits⟩⟩

end Accepted

end Pattern

end QubitScript
