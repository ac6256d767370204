import Mathlib.Algebra.BigOperators.Group.Finset.Basic
import Mathlib.Algebra.GroupWithZero.Nat
import Mathlib.Data.List.FinRange
import QubitScript.Challenge

/-!
# The ledger of awards

A book is shown lines one after another. Which challenges a line completes is decided by the awards
before the line, and then they are all recorded, so that the ledger is put together from the lines,
and within a line from the places of the table. An id is awarded by the first line that completes a
challenge with it, and as often as this line does.
-/

namespace QubitScript

/-- The pattern of a challenge, if it has one that compiles. -/
def Challenge.regex? (engine : Engine) (challenge : Challenge) : Option Regex :=
  challenge.pattern.bind fun pattern => (engine.compile ChallengeBook.dialect pattern).toOption

/-- Whether the pattern of a challenge compiles and occurs in a line. -/
def Challenge.isCompletedBy (engine : Engine) (challenge : Challenge) (line : String) : Bool :=
  (challenge.regex? engine).any (·.occursIn line)

namespace ChallengeBook

variable {engine : Engine} {book : ChallengeBook} {line : String} {id : UInt32}

/-! ## One line -/

theorem isAwarded_iff : book.isAwarded id = true ↔ id ∈ book.awards.map (·.challengeId) := by
  rw [isAwarded, List.any_eq_true, List.mem_map]
  simp only [beq_iff_eq]

theorem foldl_record (challenges : List Challenge) (book : ChallengeBook) :
    challenges.foldl record book =
      { book with awards := book.awards ++ challenges.map Challenge.award } := by
  induction challenges generalizing book with
  | nil => rw [List.map_nil, List.append_nil, List.foldl_nil]
  | cons challenge challenges ih =>
      rw [List.foldl_cons, ih, record, List.map_cons, List.append_assoc]
      rfl

section Telling

variable {m : Type → Type} [Monad m] [LawfulMonad m] (tell : Challenge → m Unit)

theorem foldlM_recordTelling (challenges : List Challenge) (book : ChallengeBook) :
    challenges.foldlM (recordTelling tell) book = do
      forM challenges tell
      return challenges.foldl record book := by
  induction challenges generalizing book with
  | nil =>
      rw [List.foldlM_nil, List.forM_nil, pure_bind]
      rfl
  | cons challenge challenges ih =>
      rw [List.foldlM_cons, recordTelling, List.forM_cons, bind_assoc, bind_assoc, List.foldl_cons]
      simp only [pure_bind, ih]

/-- A hook is told of the completed challenges in their order, and makes no difference to the
awards. -/
theorem checkTelling_eq (book : ChallengeBook) (line : String) :
    book.checkTelling tell line = do
      forM (book.completed line) tell
      return book.check line := by
  rw [checkTelling, foldlM_recordTelling, foldl_record]
  rfl

end Telling

/-- The challenges that a line has completed are awarded after it, so that it completes none of them
again. -/
theorem completed_check (book : ChallengeBook) (line : String) :
    (book.check line).completed line = [] := by
  rw [completed, List.map_eq_nil_iff, List.filter_eq_nil_iff]
  rintro ⟨challenge, pattern⟩ hmem hcompletes
  obtain ⟨hnot, hoccurs⟩ := Bool.and_eq_true_iff.mp hcompletes
  rw [Bool.not_eq_true', ← Bool.not_eq_true, isAwarded_iff, check, List.map_append, List.mem_append,
    not_or] at hnot
  obtain ⟨hbefore, hnow⟩ := hnot
  refine hnow (List.mem_map.mpr ⟨challenge.award, List.mem_map_of_mem ?_, rfl⟩)
  refine List.mem_map.mpr ⟨(challenge, pattern), List.mem_filter.mpr ⟨hmem, ?_⟩, rfl⟩
  rw [← isAwarded_iff, Bool.not_eq_true] at hbefore
  simp only [hbefore, hoccurs, Bool.not_false, Bool.true_and]

theorem check_check (book : ChallengeBook) (line : String) :
    (book.check line).check line = book.check line := by
  rw [check, completed_check, List.map_nil, List.append_nil]

/-- The challenges of a book by their number, with the patterns that complete them. -/
def patterns (book : ChallengeBook) : List (UInt32 × Option Regex) :=
  book.challenges.map fun (challenge, pattern) => (challenge.id, pattern)

theorem patterns_check : (book.check line).patterns = book.patterns := rfl

/-- After a line those challenges are awarded that had been before, and those that it completes. -/
theorem isAwarded_check : (book.check line).isAwarded id = true ↔
    book.isAwarded id = true ∨
      ∃ pattern, (id, some pattern) ∈ book.patterns ∧ pattern.occursIn line = true := by
  have hawarded : (book.check line).isAwarded id = true ↔
      book.isAwarded id = true ∨ ∃ challenge ∈ book.completed line, challenge.id = id := by
    rw [isAwarded, check, List.any_append, Bool.or_eq_true, ← isAwarded, List.any_map,
      List.any_eq_true]
    simp only [Function.comp_apply, Challenge.award, beq_iff_eq]
  rw [hawarded]
  constructor
  · rintro (hbefore | ⟨challenge, hcompleted, rfl⟩)
    · exact .inl hbefore
    · obtain ⟨⟨_, pattern⟩, hentry, rfl⟩ := List.mem_map.mp hcompleted
      obtain ⟨hmem, hcompletes⟩ := List.mem_filter.mp hentry
      obtain ⟨-, hoccurs⟩ := Bool.and_eq_true_iff.mp hcompletes
      obtain ⟨pattern, rfl, hoccurs⟩ := (Option.any_eq_true _ _).mp hoccurs
      exact .inr ⟨pattern, List.mem_map.mpr ⟨_, hmem, rfl⟩, hoccurs⟩
  · rintro (hbefore | ⟨pattern, hentry, hoccurs⟩)
    · exact .inl hbefore
    · obtain ⟨⟨challenge, _⟩, hmem, heq⟩ := List.mem_map.mp hentry
      obtain ⟨rfl, rfl⟩ := Prod.mk.inj heq
      -- A challenge that is completed once more has been awarded already.
      by_cases hbefore : book.isAwarded challenge.id = true
      · exact .inl hbefore
      · refine .inr ⟨challenge, List.mem_map.mpr ⟨_, List.mem_filter.mpr ⟨hmem, ?_⟩, rfl⟩, rfl⟩
        simp [hbefore, hoccurs]

/-! ## All lines -/

/-- Shows lines to a book, one after another. -/
def checkAll (book : ChallengeBook) (lines : List String) : ChallengeBook := lines.foldl check book

/-- The same with a hook. -/
def checkAllTelling {m : Type → Type} [Monad m] (tell : Challenge → m Unit) (book : ChallengeBook)
    (lines : List String) : m ChallengeBook :=
  lines.foldlM (checkTelling tell) book

theorem checkAll_snoc (lines : List String) :
    book.checkAll (lines ++ [line]) = (book.checkAll lines).check line := by
  rw [checkAll, List.foldl_append]
  rfl

theorem checkAll_append (book : ChallengeBook) (lines later : List String) :
    book.checkAll (lines ++ later) = (book.checkAll lines).checkAll later :=
  List.foldl_append

/-- Awards are never removed. -/
theorem awards_checkAll_prefix (book : ChallengeBook) (lines : List String) :
    book.awards <+: (book.checkAll lines).awards := by
  induction lines using List.reverseRecOn with
  | nil => exact List.prefix_rfl
  | append_singleton lines line ih =>
      rw [checkAll_snoc, check]
      exact ih.trans (List.prefix_append _ _)

theorem challenges_checkAll (book : ChallengeBook) (lines : List String) :
    (book.checkAll lines).challenges = book.challenges := by
  induction lines using List.reverseRecOn with
  | nil => rfl
  | append_singleton lines line ih => rw [checkAll_snoc, ← ih, check]

section Table

variable {table : List Challenge} {lines : List String} {count t : Nat}

/-- The places of the challenges that the line with the number `t` is awarded with, in the order of
the table. -/
def placesAt (engine : Engine) (table : List Challenge) (lines : List String) (t : Nat) :
    List (Fin table.length) :=
  match lines[t]? with
  | some line => (List.finRange table.length).filter fun place =>
      !((ofChallengesWith engine table).checkAll (lines.take t)).isAwarded table[place].id &&
        table[place].isCompletedBy engine line
  | none => []

theorem completed_of_challenges
    (hbook : book.challenges = (ofChallengesWith engine table).challenges) :
    book.completed line = ((List.finRange table.length).filter fun place =>
      !book.isAwarded table[place].id && table[place].isCompletedBy engine line).map
        (table[·]) := by
  have htable : book.challenges = (List.finRange table.length).map fun place =>
      (table[place], table[place].regex? engine) := by
    rw [hbook, ofChallengesWith]
    conv => lhs; rw [← List.map_get_finRange table, List.map_map]
    rfl
  rw [completed, htable, List.filter_map, List.map_map]
  rfl

theorem completed_checkAll (h : lines[t]? = some line) :
    ((ofChallengesWith engine table).checkAll (lines.take t)).completed line =
      (placesAt engine table lines t).map (table[·]) := by
  rw [completed_of_challenges (challenges_checkAll _ _), placesAt, h]

theorem placesAt_of_none (h : lines[t]? = none) : placesAt engine table lines t = [] := by
  rw [placesAt, h]

theorem take_succ_of_some (h : lines[count]? = some line) :
    lines.take (count + 1) = lines.take count ++ [line] := by
  rw [List.take_add_one, h, Option.toList_some]

theorem take_succ_of_none (h : lines[count]? = none) :
    lines.take (count + 1) = lines.take count := by
  rw [List.take_add_one, h, Option.toList_none, List.append_nil]

/-- The places of the challenges that the first lines are awarded with, line by line. -/
def placesUpTo (engine : Engine) (table : List Challenge) (lines : List String) (count : Nat) :
    List (Fin table.length) :=
  (List.range count).flatMap (placesAt engine table lines)

theorem placesUpTo_succ : placesUpTo engine table lines (count + 1) =
    placesUpTo engine table lines count ++ placesAt engine table lines count := by
  rw [placesUpTo, List.range_succ, List.flatMap_append, List.flatMap_singleton]
  rfl

/-- The ledger holds the awards of the lines, one line after another. -/
theorem awards_checkAll (engine : Engine) (table : List Challenge) (lines : List String)
    (count : Nat) :
    ((ofChallengesWith engine table).checkAll (lines.take count)).awards =
      (placesUpTo engine table lines count).map fun place => table[place].award := by
  induction count with
  | zero => rfl
  | succ count ih =>
      rw [placesUpTo_succ, List.map_append, ← ih]
      cases hline : lines[count]? with
      | none => rw [take_succ_of_none hline, placesAt_of_none hline, List.map_nil, List.append_nil]
      | some line =>
          rw [take_succ_of_some hline, checkAll_snoc, check, completed_checkAll hline, List.map_map]
          rfl

theorem checkAllTelling_eq {m : Type → Type} [Monad m] [LawfulMonad m] (tell : Challenge → m Unit)
    (engine : Engine) (table : List Challenge) (lines : List String) (count : Nat) :
    (ofChallengesWith engine table).checkAllTelling tell (lines.take count) = do
      forM (placesUpTo engine table lines count) fun place => tell table[place]
      return (ofChallengesWith engine table).checkAll (lines.take count) := by
  induction count with
  | zero =>
      rw [show placesUpTo engine table lines 0 = [] from rfl, List.forM_nil, pure_bind]
      rfl
  | succ count ih =>
      rw [placesUpTo_succ, List.forM_append]
      cases hline : lines[count]? with
      | none =>
          rw [take_succ_of_none hline, placesAt_of_none hline, List.forM_nil, ih]
          simp only [bind_assoc, pure_bind]
      | some line =>
          rw [take_succ_of_some hline, checkAllTelling, List.foldlM_append, ← checkAllTelling, ih]
          simp only [List.foldlM_cons, List.foldlM_nil, bind_pure, bind_assoc, pure_bind,
            checkTelling_eq, completed_checkAll hline, List.forM_map, checkAll_snoc]

theorem isAwarded_checkAll_take :
    ((ofChallengesWith engine table).checkAll (lines.take t)).isAwarded id = true ↔
    ∃ s < t, ∃ place ∈ placesAt engine table lines s, table[place].id = id := by
  rw [isAwarded_iff, awards_checkAll, List.map_map, List.mem_map]
  simp only [placesUpTo, List.mem_flatMap, List.mem_range]
  constructor
  · rintro ⟨place, ⟨s, hs, hplace⟩, hid⟩
    exact ⟨s, hs, place, hplace, hid⟩
  · rintro ⟨s, hs, place, hplace, hid⟩
    exact ⟨place, ⟨s, hs, hplace⟩, hid⟩

/-- What completes a challenge of a book, said of the table that the book is over. -/
theorem exists_pattern_iff (hbook : book.challenges = (ofChallengesWith engine table).challenges) :
    (∃ pattern, (id, some pattern) ∈ book.patterns ∧ pattern.occursIn line = true) ↔
      ∃ challenge ∈ table, challenge.id = id ∧ challenge.isCompletedBy engine line = true := by
  have hpatterns : ∀ pattern, (id, some pattern) ∈ book.patterns ↔ ∃ challenge ∈ table,
      challenge.id = id ∧ challenge.regex? engine = some pattern := by
    intro pattern
    rw [patterns, hbook, ofChallengesWith, List.map_map, List.mem_map]
    simp only [Function.comp_apply, Prod.mk.injEq, Challenge.regex?]
  constructor
  · rintro ⟨pattern, hentry, hoccurs⟩
    obtain ⟨challenge, hmem, hid, hread⟩ := (hpatterns pattern).mp hentry
    exact ⟨challenge, hmem, hid, by rwa [Challenge.isCompletedBy, hread]⟩
  · rintro ⟨challenge, hmem, hid, hcompleted⟩
    obtain ⟨pattern, hread, hoccurs⟩ := (Option.any_eq_true _ _).mp hcompleted
    exact ⟨pattern, (hpatterns pattern).mpr ⟨challenge, hmem, hid, hread⟩, hoccurs⟩

/-- An id is awarded once a line has completed a challenge with it. -/
theorem isAwarded_checkAll : ((ofChallengesWith engine table).checkAll lines).isAwarded id = true ↔
    ∃ line ∈ lines, ∃ challenge ∈ table, challenge.id = id ∧
      challenge.isCompletedBy engine line = true := by
  induction lines using List.reverseRecOn with
  | nil => simp [checkAll, ofChallengesWith, isAwarded]
  | append_singleton lines line ih =>
      rw [checkAll_snoc, isAwarded_check, ih, exists_pattern_iff (challenges_checkAll _ _)]
      simp only [List.mem_append, List.mem_singleton, or_and_right, exists_or, exists_eq_left]

theorem mem_placesAt {place : Fin table.length} : place ∈ placesAt engine table lines t ↔
    ∃ line, lines[t]? = some line ∧ table[place].isCompletedBy engine line = true ∧
      ¬ ((ofChallengesWith engine table).checkAll (lines.take t)).isAwarded
        table[place].id = true := by
  rw [placesAt]
  cases lines[t]? with
  | none => simp
  | some line =>
      simp only [List.mem_filter, List.mem_finRange, true_and, Option.some.injEq, exists_eq_left',
        Bool.and_eq_true, Bool.not_eq_true', Bool.not_eq_true]
      exact and_comm

/-- The first line that completes a challenge with an id is awarded with all the challenges with
this id that it completes, and no later line is awarded with any. -/
theorem mem_placesAt_iff_first {place : Fin table.length} : place ∈ placesAt engine table lines t ↔
    ∃ line, lines[t]? = some line ∧ table[place].isCompletedBy engine line = true ∧
      ∀ earlier ∈ lines.take t, ∀ challenge ∈ table, challenge.id = table[place].id →
        challenge.isCompletedBy engine earlier = false := by
  rw [mem_placesAt, isAwarded_checkAll]
  simp only [not_exists, not_and, Bool.not_eq_true]

theorem placesAt_ascending : (placesAt engine table lines t).Pairwise (· < ·) := by
  rw [placesAt]
  split
  · exact (List.pairwise_lt_finRange _).filter _
  · exact .nil

/-! ## Repeated ids -/

/-- The ids of the awards are distinct if every line is awarded with challenges of different ids. -/
theorem nodup_ids_iff_places :
    (((ofChallengesWith engine table).checkAll lines).awards.map (·.challengeId)).Nodup ↔
      ∀ t, ∀ place ∈ placesAt engine table lines t, ∀ other ∈ placesAt engine table lines t,
        table[place].id = table[other].id → place = other := by
  have hids : ((ofChallengesWith engine table).checkAll lines).awards.map (·.challengeId) =
      (List.range lines.length).flatMap fun t =>
        (placesAt engine table lines t).map fun place => table[place].id := by
    have h := awards_checkAll engine table lines lines.length
    rw [List.take_length] at h
    rw [h, List.map_map, placesUpTo, List.map_flatMap]
    rfl
  -- What has been awarded at a line is not awarded at a later one.
  have hlines : (List.range lines.length).Pairwise (Function.onFun List.Disjoint fun t =>
      (placesAt engine table lines t).map fun place => table[place].id) := by
    refine List.pairwise_lt_range.imp fun {s t} hlt id hid hid' => ?_
    obtain ⟨place, hplace, rfl⟩ := List.mem_map.mp hid
    obtain ⟨other, hother, heq⟩ := List.mem_map.mp hid'
    obtain ⟨-, -, -, hnot⟩ := mem_placesAt.mp hother
    exact hnot (isAwarded_checkAll_take.mpr ⟨s, hlt, place, hplace, heq.symm⟩)
  rw [hids, List.nodup_flatMap, and_iff_left hlines]
  have hplaces : ∀ t, ((placesAt engine table lines t).map fun place => table[place].id).Nodup ↔
      ∀ place ∈ placesAt engine table lines t, ∀ other ∈ placesAt engine table lines t,
        table[place].id = table[other].id → place = other := fun t =>
    List.nodup_map_iff_inj_on (placesAt_ascending.imp ne_of_lt)
  constructor
  · intro h t place hplace
    obtain ⟨line, hline, -⟩ := mem_placesAt.mp hplace
    have ht : t < lines.length := (List.getElem?_eq_some_iff.mp hline).1
    exact (hplaces t).mp (h t (List.mem_range.mpr ht)) place hplace
  · exact fun h t _ => (hplaces t).mpr (h t)

end Table

end ChallengeBook

open ChallengeBook

/-- With any pattern engine, awards follow the lines. The line with the number `t` is awarded with
the challenges, in the order of the table, that it completes and whose ids no line before it has
been awarded with. After any number of lines the ledger holds the awards of these lines, one line
after another, and keeps them whatever lines follow; a hook has been told of the same challenges in
the same order, and nothing else happens. A line that is given twice makes no difference the second
time. -/
theorem awards_follow_lines (engine : Engine) (table : List Challenge) (lines : List String) :
    ∃ awardedAt : Nat → List (Fin table.length),
      (∀ t place, place ∈ awardedAt t ↔
        ∃ line, lines[t]? = some line ∧ table[place].isCompletedBy engine line = true ∧
          ∀ s < t, ∀ other ∈ awardedAt s, table[other].id ≠ table[place].id) ∧
      (∀ t, (awardedAt t).Pairwise (· < ·)) ∧
      (∀ count, let awarded := (List.range count).flatMap awardedAt
        let book := (ofChallengesWith engine table).checkAll (lines.take count)
        book.awards = awarded.map (fun place => table[place].award) ∧
        book.awards <+: ((ofChallengesWith engine table).checkAll lines).awards ∧
        ∀ (m : Type → Type) [Monad m] [LawfulMonad m] (tell : Challenge → m Unit),
          (ofChallengesWith engine table).checkAllTelling tell (lines.take count) = do
            forM awarded fun place => tell table[place]
            return book) ∧
      ∀ line, let book := (ofChallengesWith engine table).checkAll (lines ++ [line])
        book.check line = book ∧
        ∀ (m : Type → Type) [Monad m] [LawfulMonad m] (tell : Challenge → m Unit),
          book.checkTelling tell line = pure book := by
  refine ⟨placesAt engine table lines, fun t place => ?_, fun t => placesAt_ascending,
    fun count => ?_, fun line => ?_⟩
  · rw [mem_placesAt, isAwarded_checkAll_take]
    simp only [not_exists, not_and, ne_eq]
  · intro awarded book
    refine ⟨awards_checkAll engine table lines count, ?_, fun m _ _ tell => ?_⟩
    · conv => rhs; rw [← List.take_append_drop count lines, checkAll_append]
      exact awards_checkAll_prefix _ _
    · exact checkAllTelling_eq tell engine table lines count
  · intro book
    have hbook : book = ((ofChallengesWith engine table).checkAll lines).check line :=
      checkAll_snoc lines
    refine ⟨by rw [hbook, check_check], fun m _ _ tell => ?_⟩
    rw [hbook, checkTelling_eq, completed_check, check_check, List.forM_nil, pure_bind]

/-! ## The total -/

/-- Rewards have a total when their sum fits into 32 bits, and the total is that sum. -/
theorem foldlM_addReward?_eq_some {rewards : List UInt32} {total : UInt32} : ∀ {start : UInt32},
    rewards.foldlM addReward? start = some total ↔
      total.toNat = start.toNat + (rewards.map UInt32.toNat).sum := by
  induction rewards with
  | nil =>
      intro start
      rw [List.foldlM_nil, List.map_nil, List.sum_nil, Nat.add_zero, UInt32.toNat_inj]
      exact ⟨fun h => (Option.some.inj h).symm, fun h => congrArg some h.symm⟩
  | cons reward rewards ih =>
      intro start
      rw [List.foldlM_cons, addReward?, List.map_cons, List.sum_cons, ← Nat.add_assoc]
      split
      next hfits =>
        rw [Option.bind_eq_bind, Option.bind_some, ih, UInt32.toNat_add, Nat.mod_eq_of_lt hfits]
      next hlarge =>
        have := total.toNat_lt
        simp only [Option.bind_eq_bind, Option.bind_none, reduceCtorEq, false_iff]
        rw [UInt32.size] at hlarge
        omega

/-- An id is awarded once unless a line completes two challenges with it, with any pattern engine.
The ids of the awards are distinct exactly if no line completes two challenges of the table with one
id that no line before it has completed a challenge with. Then the total counts the reward of every
awarded id once, as long as it fits into 32 bits. -/
theorem distinct_ids_iff (engine : Engine) (table : List Challenge) (lines : List String) :
    let book := (ofChallengesWith engine table).checkAll lines
    let ids := book.awards.map (·.challengeId)
    (ids.Nodup ↔ ∀ t line, lines[t]? = some line → ∀ place other : Fin table.length,
      table[place].id = table[other].id → table[place].isCompletedBy engine line = true →
      table[other].isCompletedBy engine line = true →
      (∀ earlier ∈ lines.take t, ∀ challenge ∈ table, challenge.id = table[place].id →
        challenge.isCompletedBy engine earlier = false) → place = other) ∧
    (ids.Nodup → ∀ reward : UInt32 → UInt32,
      (∀ award ∈ book.awards, award.reward = reward award.challengeId) → ∀ total,
      book.totalReward? = some total ↔ total.toNat = ∑ id ∈ ids.toFinset, (reward id).toNat) := by
  intro book ids
  constructor
  · rw [nodup_ids_iff_places]
    constructor
    · intro h t line hline place other hid hplace hother hfirst
      refine h t place (mem_placesAt_iff_first.mpr ⟨line, hline, hplace, hfirst⟩) other ?_ hid
      exact mem_placesAt_iff_first.mpr ⟨line, hline, hother, hid ▸ hfirst⟩
    · intro h t place hplace other hother hid
      obtain ⟨line, hline, hcompleted, hfirst⟩ := mem_placesAt_iff_first.mp hplace
      obtain ⟨_, hline', hcompleted', -⟩ := mem_placesAt_iff_first.mp hother
      cases hline.symm.trans hline'
      exact h t line hline place other hid hcompleted hcompleted' hfirst
  · intro hids reward hreward total
    have hsum : (book.awards.map (·.reward)).map UInt32.toNat =
        ids.map fun id => (reward id).toNat := by
      rw [List.map_map, List.map_map]
      exact List.map_congr_left fun award haward => congrArg _ (hreward award haward)
    have hzero : (0 : UInt32).toNat = 0 := rfl
    rw [totalReward?, foldlM_addReward?_eq_some, hsum, hzero, Nat.zero_add,
      List.sum_toFinset _ hids]

/-- Two challenges with one id, which one line completes. -/
theorem awards_of_shared_id :
    let first : Challenge := ⟨1, "first", 1, 5, some "a"⟩
    let second : Challenge := ⟨1, "second", 1, 7, some "b"⟩
    let book := (ofChallengesWith Pattern.engine [first, second]).checkAll ["ab"]
    first.isCompletedBy Pattern.engine "ab" = true ∧
      second.isCompletedBy Pattern.engine "ab" = true ∧
      book.awards = [⟨1, 5⟩, ⟨1, 7⟩] ∧ book.totalReward? = some 12 ∧
      ¬ (book.awards.map (·.challengeId)).Nodup := by
  intro first second book
  have hfirst : first.isCompletedBy Pattern.engine "ab" = true := by decide +kernel
  have hsecond : second.isCompletedBy Pattern.engine "ab" = true := by decide +kernel
  refine ⟨hfirst, hsecond, by decide +kernel, by decide +kernel, fun hids => ?_⟩
  have hplaces := (distinct_ids_iff Pattern.engine [first, second] ["ab"]).1.mp hids 0 "ab" rfl 0 1
    rfl hfirst hsecond (fun _ hearlier => absurd hearlier List.not_mem_nil)
  exact absurd hplaces (by decide)

end QubitScript
