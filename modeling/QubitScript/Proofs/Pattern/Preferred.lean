import Mathlib.Data.List.Basic
import QubitScript.Proofs.Pattern.Language

/-!
# The preferred match

The first of the places where a match can end is the one that counts. A text leads to it step by
step when nothing else is preferred at any step: a greedy loop goes on for as long as its body
matches.
-/

namespace QubitScript

open QubitScript.Text

namespace Pattern

/-- The preferred match takes the next `count` characters. -/
def Prefers (pattern : Pattern) (cursor : Cursor) (count : Nat) : Prop :=
  ∀ rounds, (pattern.ends rounds cursor).head? = some (cursor.skip count)

/-- There is no match. -/
def Fails (pattern : Pattern) (cursor : Cursor) : Prop :=
  ∀ rounds, pattern.ends rounds cursor = []

/-! ## Order of preference -/

theorem suffix_record (found : List Cursor) (cursor : Cursor) : found <:+ record found cursor := by
  rw [record]
  split
  · exact List.suffix_rfl
  · exact List.suffix_cons _ _

/-- Places that have been found stay, and what comes later is preferred less. -/
theorem suffix_foldl {f : List Cursor → Cursor → List Cursor}
    (step : ∀ found cursor, found <:+ f found cursor) (cursors : List Cursor) :
    ∀ found : List Cursor, found <:+ cursors.foldl f found := by
  induction cursors with
  | nil => exact fun _ => List.suffix_rfl
  | cons cursor cursors ih => exact fun found => (step found cursor).trans (ih _)

theorem getLast?_of_suffix {found others : List Cursor} {cursor : Cursor} (h : found <:+ others)
    (hlast : found.getLast? = some cursor) : others.getLast? = some cursor := by
  obtain ⟨front, rfl⟩ := h
  rw [List.getLast?_append, hlast]
  rfl

theorem head?_distinct (cursors : List Cursor) : (distinct cursors).head? = cursors.head? := by
  cases cursors with
  | nil => rfl
  | cons cursor cursors =>
      rw [distinct, List.head?_reverse, List.foldl_cons, List.head?_cons]
      exact getLast?_of_suffix (suffix_foldl suffix_record cursors _) rfl

theorem suffix_loopFrom {enter? : Cursor → Option Cursor} {greedy : Bool}
    {body : Cursor → List Cursor} {fuel : Nat} : ∀ {cursor : Cursor} {found : List Cursor},
    found <:+ loopFrom enter? greedy body fuel cursor found := by
  induction fuel with
  | zero =>
      intro cursor found
      rw [loopFrom]
      cases enter? cursor with
      | none => exact List.suffix_rfl
      | some entered => exact suffix_record found entered
  | succ fuel ih =>
      intro cursor found
      rw [loopFrom]
      split
      · exact List.suffix_rfl
      · split
        · exact List.suffix_rfl
        · have honward := suffix_foldl (fun found stop =>
            (ih : found <:+ loopFrom enter? greedy body fuel stop found))
          dsimp only
          split
          · exact (honward _ _).trans (List.suffix_cons _ _)
          · exact (List.suffix_cons _ _).trans (honward _ _)

/-- A pattern that takes nothing of what comes next has no match. -/
theorem fails_of_takes {pattern : Pattern} {cursor : Cursor}
    (h : ∀ taken after, cursor.rest = taken ++ after → ¬ pattern.Takes taken) :
    pattern.Fails cursor := by
  intro rounds
  rw [List.eq_nil_iff_forall_not_mem]
  intro stop hstop
  obtain ⟨taken, htakes, hmoves⟩ := reaches_of_mem_ends hstop
  exact h taken stop.rest hmoves.text htakes

/-! ## Characters and parts -/

variable {first second body : Pattern} {cursor : Cursor} {m n : Nat}

section Characters

variable {set : CharSet} {c : Char} {after : List Char}

theorem prefers_char (hrest : cursor.rest = c :: after) (hc : set.contains c = true) :
    (oneOfEach [set]).Prefers cursor 1 := by
  intro rounds
  rw [ends, Cursor.takeEach?, hrest, List.head?_cons, Option.any_some, if_pos hc]
  rfl

theorem fails_head (h : ∀ c ∈ cursor.rest.head?, set.contains c = false) :
    (oneOfEach [set]).Fails cursor := by
  intro rounds
  rw [ends, Cursor.takeEach?, if_neg]
  · rfl
  · rw [Option.any_eq_true]
    rintro ⟨c, hc, hset⟩
    rw [h c hc] at hset
    cases hset

theorem fails_char (hrest : cursor.rest = c :: after) (hc : set.contains c = false) :
    (oneOfEach [set]).Fails cursor := by
  refine fails_head ?_
  rw [hrest]
  rintro _ ⟨⟩
  exact hc

end Characters

theorem Prefers.seq (hfirst : first.Prefers cursor m)
    (hsecond : second.Prefers (cursor.skip m) n) : (first.seq second).Prefers cursor (m + n) := by
  intro rounds
  obtain ⟨others, hothers⟩ := List.head?_eq_some_iff.mp (hfirst rounds)
  rw [ends, head?_distinct, hothers, List.flatMap_cons, List.head?_append, hsecond rounds,
    Cursor.skip_add]
  rfl

theorem Fails.seq (h : first.Fails cursor) : (first.seq second).Fails cursor := by
  intro rounds
  rw [ends, h rounds]
  rfl

theorem ends_alt (rounds : List Nat) (cursor : Cursor) :
    (alt none first second).ends rounds cursor =
      first.ends rounds cursor ++ second.ends rounds cursor := rfl

theorem Prefers.left (h : first.Prefers cursor n) : (alt none first second).Prefers cursor n := by
  intro rounds
  rw [ends_alt, List.head?_append, h rounds]
  rfl

theorem Prefers.right (hfirst : first.Fails cursor) (h : second.Prefers cursor n) :
    (alt none first second).Prefers cursor n := by
  intro rounds
  rw [ends_alt, hfirst rounds, List.nil_append, h rounds]

theorem Fails.alt (hfirst : first.Fails cursor) (hsecond : second.Fails cursor) :
    (alt none first second).Fails cursor := by
  intro rounds
  rw [ends_alt, hfirst rounds, hsecond rounds, List.append_nil]

section Assertions

variable {condition : Assertion}

theorem prefers_assert (h : condition.holds cursor = true) :
    (assert condition).Prefers cursor 0 := by
  intro rounds
  rw [ends, if_pos h]
  rfl

theorem fails_assert (h : condition.holds cursor = false) : (assert condition).Fails cursor := by
  intro rounds
  rw [ends, h, if_neg Bool.false_ne_true]

/-- An assertion does not move on, so what comes after it has to match where it stands. -/
theorem Fails.after_assert (h : second.Fails cursor) :
    ((assert condition).seq second).Fails cursor := by
  intro rounds
  rw [ends, ends]
  split
  · rw [List.flatMap_singleton, h rounds]
    rfl
  · rfl

end Assertions

/-! ## At most one round -/

theorem found_foldl_upToFrom {enter? : Nat → Cursor → Option Cursor} {greedy : Bool}
    {body : Nat → Cursor → List Cursor} (cursors : List Cursor) : ∀ descent : Descent,
    (cursors.foldl (fun descent cursor => upToFrom enter? greedy body 0 cursor descent)
      descent).found = cursors.foldl record descent.found := by
  induction cursors with
  | nil => exact fun _ => rfl
  | cons cursor cursors ih =>
      intro descent
      rw [List.foldl_cons, List.foldl_cons, ih]
      rfl

theorem ends_upTo_one (rounds : List Nat) (cursor : Cursor) :
    (upTo none true 1 body).ends rounds cursor =
      (record ((body.ends (0 :: rounds) cursor).foldl record []) cursor).reverse := by
  rw [ends, upToFrom, List.contains_nil, if_neg (by decide), Cursor.enter?]
  dsimp only
  rw [if_pos rfl, found_foldl_upToFrom]

theorem Prefers.upTo_one (h : body.Prefers cursor n) :
    (upTo none true 1 body).Prefers cursor n := by
  intro rounds
  obtain ⟨others, hothers⟩ := List.head?_eq_some_iff.mp (h (0 :: rounds))
  rw [ends_upTo_one, List.head?_reverse, hothers, List.foldl_cons]
  refine getLast?_of_suffix ((suffix_foldl suffix_record others _).trans (suffix_record _ _)) ?_
  rfl

theorem Fails.upTo_one (h : body.Fails cursor) : (upTo none true 1 body).Prefers cursor 0 := by
  intro rounds
  rw [ends_upTo_one, h]
  rfl

/-! ## Greedy loops -/

/-- Rounds that each take what the body prefers, until it has no match. -/
inductive Turns (body : Pattern) : Cursor → Nat → Prop
  | stop {cursor : Cursor} : body.Fails cursor → Turns body cursor 0
  | round {cursor : Cursor} {m n : Nat} :
      body.Prefers cursor m → 0 < m → m ≤ cursor.rest.length → Turns body (cursor.skip m) n →
      Turns body cursor (m + n)

theorem Turns.getLast?_loopFrom {rounds : List Nat} (h : Turns body cursor n) :
    ∀ {fuel : Nat}, cursor.rest.length ≤ fuel →
    (loopFrom (·.enter? rounds none) true (body.ends rounds) fuel cursor []).getLast? =
      some (cursor.skip n) := by
  induction h with
  | @stop cursor hfails =>
      intro fuel _
      cases fuel with
      | zero => rfl
      | succ fuel =>
          rw [loopFrom, List.any_nil, if_neg (by decide), Cursor.enter?]
          dsimp only
          rw [hfails rounds]
          rfl
  | @round cursor m n hbody hpos hrest _ ih =>
      intro fuel hfuel
      cases fuel with
      | zero => omega
      | succ fuel =>
          have hless : (cursor.skip m).rest.length ≤ fuel := by
            rw [Cursor.rest_skip, List.length_drop]
            omega
          have hmoves : cursor.offset < (cursor.skip m).offset := by
            refine Cursor.offset_lt_skip hpos fun hempty => ?_
            rw [hempty, List.length_nil] at hrest
            omega
          obtain ⟨others, hothers⟩ := List.head?_eq_some_iff.mp (hbody rounds)
          rw [loopFrom, List.any_nil, if_neg (by decide), Cursor.enter?]
          dsimp only
          rw [if_pos rfl, hothers, List.filter_cons_of_pos (by simpa using hmoves),
            List.foldl_cons, ← Cursor.skip_add]
          -- The first round leads to the place that is found first, and later ones come before it.
          refine getLast?_of_suffix (List.suffix_cons _ _) ?_
          exact getLast?_of_suffix (suffix_foldl (fun _ _ => suffix_loopFrom) _ _) (ih hless)

theorem Turns.prefers (h : Turns body cursor n) : (star none true body).Prefers cursor n := by
  intro rounds
  rw [ends, List.head?_reverse]
  exact h.getLast?_loopFrom (Nat.le_refl _)

/-- A loop over single characters takes as many of its set as there are. -/
theorem turns_of_run {set : CharSet} {run after : List Char}
    (hafter : ∀ c ∈ after.head?, set.contains c = false) : ∀ {cursor : Cursor},
    (∀ c ∈ run, set.contains c = true) → cursor.rest = run ++ after →
    Turns (oneOfEach [set]) cursor run.length := by
  induction run with
  | nil =>
      intro cursor _ hrest
      rw [List.nil_append] at hrest
      exact .stop (fails_head (by rwa [hrest]))
  | cons c run ih =>
      intro cursor hrun hrest
      obtain ⟨hc, hothers⟩ := List.forall_mem_cons.mp hrun
      have hchar : (oneOfEach [set]).Prefers cursor 1 := prefers_char hrest hc
      rw [List.length_cons, Nat.add_comm]
      exact .round hchar Nat.one_pos (by simp [hrest]) (ih hothers (Cursor.rest_skip_one hrest))

theorem Prefers.plus (hbody : body.Prefers cursor m) (hturns : Turns body (cursor.skip m) n) :
    (plus none true body).Prefers cursor (m + n) := by
  intro rounds
  obtain ⟨others, hothers⟩ := List.head?_eq_some_iff.mp (hbody rounds)
  rw [ends, List.head?_reverse, hothers, List.foldl_cons, ← Cursor.skip_add]
  exact getLast?_of_suffix (suffix_foldl (fun _ _ => suffix_loopFrom) _ _)
    (hturns.getLast?_loopFrom (Nat.le_refl _))

theorem Fails.plus (h : body.Fails cursor) : (plus none true body).Fails cursor := by
  intro rounds
  rw [ends, h rounds]
  rfl

end Pattern

end QubitScript
