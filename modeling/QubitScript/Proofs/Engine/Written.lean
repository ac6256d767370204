import QubitScript.Proofs.Engine.Joining
import QubitScript.Proofs.Pattern.Naming
import QubitScript.Proofs.Pattern.Searching

/-!
# The engine for written patterns keeps the laws

A text that is read within a group or within a choice makes the same pattern there, up to the
numbers of its choices in loops. So the engine finds in a group what it finds with the pattern
alone, and in a choice what it finds with the first branch, or else with the others.
-/

namespace QubitScript.Pattern

open QubitScript.Text

variable {dialect : Dialect} {name pattern text : String} {regex : Regex}

theorem engine_eq_ok : engine.compile dialect text = .ok regex ↔
    ∃ written, Written.read? dialect text = some written ∧ written.regex = regex := by
  rw [engine]
  dsimp only
  cases Written.read? dialect text with
  | none => exact ⟨nofun, nofun⟩
  | some written => simp

/-- What a text is read as can be evaluated. -/
theorem compile_of_read? {body : Pattern} {names : List String}
    (h : (Written.read? dialect text).map (fun written => (written.form.pattern, written.names)) =
      some (body, names)) : engine.compile dialect text = .ok (body.regex names) := by
  obtain ⟨written, hread, heq⟩ := Option.map_eq_some_iff.mp h
  obtain ⟨rfl, rfl⟩ := Prod.mk.inj heq
  exact engine_eq_ok.mpr ⟨written, hread, rfl⟩

/-! ## Matches -/

theorem groups_skip {count : Nat} : ∀ {cursor : Cursor},
    (cursor.skip count).groups = cursor.groups := by
  induction count with
  | zero => exact rfl
  | succ count ih =>
      intro cursor
      rw [Cursor.skip, ih, Cursor.next]
      split <;> rfl

theorem passed_start_skip (text : List Char) (count : Nat) :
    ((Cursor.start text).skip count).passed = [] :=
  (congrArg Cursor.passed (Cursor.forget_skip (.start text) count)).symm

theorem wellFormed_of_read? {written : Written} (h : Written.read? dialect text = some written) :
    written.regex.WellFormed := by
  obtain ⟨haccepted, -⟩ := read?_eq_some.mp h
  simp only [Written.isAccepted, Bool.and_eq_true, decide_eq_true_eq] at haccepted
  refine ⟨haccepted.1.1, fun {text place found} hplace hfound => ?_,
    fun {text place found} hplace hfound group hgroup => ?_⟩
  · obtain ⟨⟨start, stop⟩, hsearch, rfl⟩ := Option.map_eq_some_iff.mp hfound
    exact span_of_search? hplace hsearch
  · obtain ⟨⟨start, stop⟩, hsearch, rfl⟩ := Option.map_eq_some_iff.mp hfound
    obtain ⟨capture, hcapture, rfl⟩ := List.mem_map.mp hgroup
    obtain ⟨k, -, hstart, hmatch, -⟩ := searchFrom?_eq_some.mp hsearch
    obtain ⟨taken, -, hmoves⟩ := reaches_of_mem_ends (List.mem_of_head? hmatch)
    rcases hmoves.groups capture hcapture with hpassed | hname
    · rw [hstart, groups_skip, groups_skip] at hpassed
      cases hpassed
    · exact names_of_read? h hname

/-! ## Blanks -/

theorem compile_blankPattern (dialect : Dialect) : engine.compile dialect Lexer.blankPattern =
    .ok ((Pattern.star none true (.oneOfEach [blankSet])).regex []) := by
  obtain ⟨multiline, ignoreCase⟩ := dialect
  apply compile_of_read?
  cases multiline <;> cases ignoreCase <;> decide +kernel

theorem matchAt?_blanks {names : List String} {text : List Char} {place : Nat}
    (hplace : place ≤ text.length) :
    (((Pattern.star none true (.oneOfEach [blankSet])).regex names).matchAt? text place).map
      (·.whole) = some (blanksAt text place) := by
  let cursor := (Cursor.start text).skip place
  have hrest : cursor.rest = text.drop place := Cursor.rest_skip _ _
  have hsplit : cursor.rest = cursor.rest.takeWhile isBlank ++ cursor.rest.dropWhile isBlank :=
    List.takeWhile_append_dropWhile.symm
  have hafter : ∀ c ∈ (cursor.rest.dropWhile isBlank).head?, blankSet.contains c = false := by
    intro c hc
    have hhead := List.head?_dropWhile_not isBlank cursor.rest
    rwa [Option.mem_def.mp hc] at hhead
  have hmatch : (Pattern.star none true (.oneOfEach [blankSet])).matchAt? cursor =
      some (cursor.skip (cursor.rest.takeWhile isBlank).length) :=
    (turns_of_run hafter (fun c hc => List.mem_takeWhile_imp hc) hsplit).prefers []
  have hblanks : (cursor.rest.takeWhile isBlank).length ≤ text.length - place := by
    have := (List.takeWhile_prefix isBlank (l := cursor.rest)).length_le
    rwa [Cursor.length_rest_start_skip] at this
  rw [regex_matchAt? hplace, hmatch, Option.map_some, Option.map_some, Option.some_inj]
  simp only [Cursor.found, Span.ofLeft, blanksAt, ← hrest, Span.mk.injEq]
  rw [Cursor.skip_add, Cursor.length_rest_start_skip, Cursor.length_rest_start_skip]
  omega

/-! ## Groups and choices -/

theorem selfContained_of_read? (hread : (Written.read? dialect pattern).isSome = true)
    (hclosed : (Written.read? dialect (pattern ++ ")")).isSome = false) :
    engine.SelfContained dialect pattern := by
  obtain ⟨written, hwritten⟩ := Option.isSome_iff_exists.mp hread
  refine ⟨⟨_, engine_eq_ok.mpr ⟨written, hwritten, rfl⟩⟩, fun regex h => ?_⟩
  obtain ⟨longer, hlonger, -⟩ := engine_eq_ok.mp h
  rw [hlonger] at hclosed
  cases hclosed

/-- Whether all patterns of a table stand for themselves can be tested. -/
theorem selfContained_of_all {rules : List Rule} (h : rules.all (fun rule =>
      (Written.read? dialect rule.pattern).isSome &&
        !(Written.read? dialect (rule.pattern ++ ")")).isSome) = true) :
    ∀ rule ∈ rules, engine.SelfContained dialect rule.pattern := by
  intro rule hrule
  have htested := List.all_eq_true.mp h rule hrule
  rw [Bool.and_eq_true, Bool.not_eq_true'] at htested
  exact selfContained_of_read? htested.1 htested.2

/-- A pattern that stands for itself is read, and leaves no comment open. -/
theorem readsAlone_of_selfContained (h : engine.SelfContained dialect pattern) :
    ∃ written, Written.read? dialect pattern = some written ∧
      ReadsAlone dialect pattern.toList written := by
  obtain ⟨_, hcompiles⟩ := h.compiles
  obtain ⟨written, hread, -⟩ := engine_eq_ok.mp hcompiles
  obtain ⟨haccepted, count, current, hcount, hreads, hcontent⟩ := read?_eq_some.mp hread
  -- A text that is read to its end with a parenthesis after it too would compile with it.
  refine ⟨written, hread, count, current, hcount, hreads, fun hopen => ?_, hcontent⟩
  have htext : (pattern ++ ")").toList = pattern.toList ++ [')'] := String.toList_append
  refine h.closed written.regex (engine_eq_ok.mpr ⟨written, ?_, rfl⟩)
  refine read?_eq_some.mpr ⟨haccepted, count, current, ?_, ?_, hcontent⟩
  · rw [htext, List.length_append]
    exact Nat.le_add_right_of_le hcount
  · rw [htext]
    exact hopen

theorem exists_part (hname : isKind name = true) (h : engine.SelfContained dialect pattern) :
    ∃ part : Part, GroupOf dialect name pattern part ∧
      Written.read? dialect pattern = some part.written := by
  obtain ⟨written, hread, halone⟩ := readsAlone_of_selfContained h
  exact ⟨⟨name, written⟩, ⟨hname, rfl, halone⟩, hread⟩

theorem exists_parts_of_branches (h : engine.Branches dialect text) :
    ∃ parts, parts ≠ [] ∧ AddsBranches dialect text parts := by
  induction h with
  | last hname hpattern =>
      obtain ⟨part, hpart, -⟩ := exists_part hname hpattern
      exact ⟨[part], List.cons_ne_nil _ _, hpart.addsBranches⟩
  | more hname hpattern _ ih =>
      obtain ⟨part, hpart, -⟩ := exists_part hname hpattern
      obtain ⟨parts, -, hparts⟩ := ih
      exact ⟨part :: parts, List.cons_ne_nil _ _, hpart.addsBranches_more hparts⟩

theorem AddsBranches.compile_eq_ok {parts : List Part} (h : AddsBranches dialect text parts) :
    engine.compile dialect text = .ok regex ↔
      (joinedWritten parts).isAccepted = true ∧ (joinedWritten parts).regex = regex := by
  simp only [engine_eq_ok, h.read?, Option.filter_eq_some_iff, Option.some.injEq]
  constructor
  · rintro ⟨_, ⟨rfl, haccepted⟩, hregex⟩
    exact ⟨haccepted, hregex⟩
  · rintro ⟨haccepted, hregex⟩
    exact ⟨_, ⟨rfl, haccepted⟩, hregex⟩

/-- What is found does not hang on the choices passed. -/
theorem matchAt?_of_agree {first second : Pattern} {names others : List String} {text : List Char}
    {place : Nat} (h : Agree first second) (hplace : place ≤ text.length) :
    (first.regex names).matchAt? text place = (second.regex others).matchAt? text place := by
  have hsettled := congrArg List.head? (h [] _ (passed_start_skip text place))
  rw [List.head?_map, List.head?_map] at hsettled
  have hfound (found : Option Cursor) :
      found.map (((Cursor.start text).skip place).found text) =
        (found.map Cursor.settle).map (((Cursor.start text).skip place).found text) := by
    rw [Option.map_map]
    rfl
  rw [regex_matchAt? hplace, regex_matchAt? hplace, hfound, hfound (second.matchAt? _)]
  exact congrArg (Option.map _) hsettled

theorem joinedWritten_matchAt? {parts : List Part} {text : List Char} {place : Nat}
    (h : parts ≠ []) (hplace : place ≤ text.length) :
    (joinedWritten parts).regex.matchAt? text place =
      ((choice (parts.map Part.pattern)).regex []).matchAt? text place :=
  matchAt?_of_agree (agree_joinedWritten h) hplace

theorem group_matchAt? {body : Pattern} {names others : List String} {text : List Char}
    {place : Nat} (hplace : place ≤ text.length) :
    ((Pattern.group name body).regex names).matchAt? text place =
      ((body.regex others).matchAt? text place).map (Found.named name) := by
  have hends : (Pattern.group name body).matchAt? ((Cursor.start text).skip place) =
      (body.matchAt? ((Cursor.start text).skip place)).map
        (((Cursor.start text).skip place).pass name) := List.head?_map
  rw [regex_matchAt? hplace, regex_matchAt? hplace, hends, Option.map_map, Option.map_map]
  rfl

theorem alt_matchAt? {left right : Pattern} {names first second : List String} {text : List Char}
    {place : Nat} (hplace : place ≤ text.length) :
    ((Pattern.alt none left right).regex names).matchAt? text place =
      ((left.regex first).matchAt? text place).or ((right.regex second).matchAt? text place) := by
  have hends : (Pattern.alt none left right).matchAt? ((Cursor.start text).skip place) =
      (left.matchAt? ((Cursor.start text).skip place)).or
        (right.matchAt? ((Cursor.start text).skip place)) := List.head?_append
  rw [regex_matchAt? hplace, regex_matchAt? hplace, regex_matchAt? hplace, hends]
  cases left.matchAt? ((Cursor.start text).skip place) <;> rfl

/-- The engine for written patterns finds the leftmost match and the first one there. -/
theorem engine_leftmostFirst : engine.LeftmostFirst where
  wellFormed h := by
    obtain ⟨written, hread, rfl⟩ := engine_eq_ok.mp h
    exact wellFormed_of_read? hread
  blanks {dialect regex} h {text place} hplace := by
    cases (compile_blankPattern dialect).symm.trans h
    exact matchAt?_blanks hplace
  group {dialect name pattern regex grouped} hname hpattern hregex hgrouped := by
    obtain ⟨part, hpart, hread⟩ := exists_part hname hpattern
    obtain ⟨written, hwritten, rfl⟩ := engine_eq_ok.mp hregex
    cases hread.symm.trans hwritten
    obtain ⟨-, rfl⟩ := hpart.addsBranches.compile_eq_ok.mp hgrouped
    refine ⟨?_, fun hplace => ?_⟩
    · rw [← hpart.named]
      rfl
    · rw [joinedWritten_matchAt? (List.cons_ne_nil _ _) hplace, ← hpart.named]
      exact group_matchAt? hplace
  choice {dialect name pattern others regex} hname hpattern hothers h := by
    obtain ⟨part, hpart, -⟩ := exists_part hname hpattern
    obtain ⟨parts, hparts, hadds⟩ := exists_parts_of_branches hothers
    obtain ⟨haccepted, rfl⟩ := (hpart.addsBranches_more hadds).compile_eq_ok.mp h
    -- The limits hold of the whole, so they hold of its branches.
    obtain ⟨hfirst, hsecond⟩ := isAccepted_of_joinedWritten hparts haccepted
    refine ⟨_, _, hpart.addsBranches.compile_eq_ok.mpr ⟨hfirst, rfl⟩,
      hadds.compile_eq_ok.mpr ⟨hsecond, rfl⟩, ?_, fun {text place} hplace => ?_⟩
    · have hnames (parts : List Part) :
          (joinedWritten parts).regex.names = (joinedWritten parts).names := rfl
      rw [hnames, hnames, hnames, names_joinedWritten (List.cons_ne_nil _ _),
        names_joinedWritten (List.cons_ne_nil _ _), names_joinedWritten hparts, List.flatMap_cons,
        List.flatMap_singleton]
    · rw [joinedWritten_matchAt? (List.cons_ne_nil _ _) hplace,
        joinedWritten_matchAt? (List.cons_ne_nil _ _) hplace, joinedWritten_matchAt? hparts hplace]
      obtain ⟨other, others, rfl⟩ := List.exists_cons_of_ne_nil hparts
      exact alt_matchAt? hplace

end QubitScript.Pattern
