import QubitScript.Proofs.Pattern.Carrying

/-!
# Lines around a text

A pattern that takes no line break and does not ask for the ends of the whole text sees nothing of
the lines before and after the text that it is matched in. So it leads to the same places there as
in the text alone.
-/

namespace QubitScript

open QubitScript.Text

/-- Whole lines stand around a text: a line break ends what comes before it and begins what comes
after it, where there is anything. -/
structure AreLines (front back : List Char) : Prop where
  front : ∀ c ∈ front.getLast?, c = '\n'
  back : ∀ c ∈ back.head?, c = '\n'

/-- A condition that no line break meets fails where there is no character just as at a line
break. -/
theorem any_eq_getD {p : Char → Bool} (hp : p '\n' = false) (c : Option Char) :
    c.any p = p (c.getD '\n') := by
  cases c with
  | none => exact hp.symm
  | some c => rfl

theorem all_eq_getD {p : Char → Bool} (hp : p '\n' = true) (c : Option Char) :
    c.all p = p (c.getD '\n') := by
  cases c with
  | none => exact hp.symm
  | some c => rfl

/-! ## Places -/

namespace Cursor

variable {front back : List Char}

/-- The same place where the text has others before and after it. More characters are left there. -/
def within (front back : List Char) (cursor : Cursor) : Cursor :=
  { cursor with
    before := cursor.before.or front.getLast?
    offset := byteLength front + cursor.offset
    rest := cursor.rest ++ back
    groups := cursor.groups.map fun capture =>
      ⟨capture.name, capture.atStart + back.length, capture.atStop + back.length⟩ }

theorem pass_within (name : String) (start stop : Cursor) :
    (start.within front back).pass name (stop.within front back) =
      (start.pass name stop).within front back := by
  simp only [pass, within, List.length_append, List.map_cons]

theorem shifts_within (front back : List Char) : Shifts (byteLength front) (within front back) where
  offset _ := rfl
  length_le cursor := by
    rw [within, List.length_append]
    exact Nat.le_add_right _ _

theorem next_within {cursor : Cursor} (hrest : cursor.rest ≠ []) :
    (cursor.within front back).next = cursor.next.within front back := by
  obtain ⟨c, rest, hcursor⟩ := List.exists_cons_of_ne_nil hrest
  rw [next, next, within, hcursor]
  simp only [List.cons_append, within, Option.some_or, Nat.add_assoc]

theorem skip_within {count : Nat} : ∀ {cursor : Cursor}, count ≤ cursor.rest.length →
    (cursor.within front back).skip count = (cursor.skip count).within front back := by
  induction count with
  | zero => exact fun _ => rfl
  | succ count ih =>
      intro cursor hcount
      have hrest : cursor.rest ≠ [] := List.length_pos_iff.mp (by omega)
      have hnext : count ≤ cursor.next.rest.length := by
        rw [rest_next, List.length_tail]
        omega
      rw [skip, skip, next_within hrest, ih hnext]

/-- The text begins in the larger one where what is before it ends. -/
theorem within_start (front text back : List Char) :
    (start text).within front back = (start (front ++ text ++ back)).skip front.length := by
  have hrest : (start (front ++ text ++ back)).rest = front ++ (text ++ back) :=
    List.append_assoc ..
  have hforget : ((start (front ++ text ++ back)).skip front.length).forget =
      (start (front ++ text ++ back)).skip front.length := forget_skip _ _
  rw [← hforget, forget, before_skip hrest, offset_skip hrest, rest_skip_append hrest, within,
    start, start, Option.or_none, Option.none_or, Nat.add_comm, List.map_nil]

theorem enter?_within (cursor : Cursor) (rounds : List Nat) (number : Option Nat) :
    (cursor.within front back).enter? rounds number =
      (cursor.enter? rounds number).map (within front back) := by
  cases number with
  | none => rfl
  | some number =>
      rw [enter?, enter?, apply_ite (Option.map (within front back))]
      rfl

/-- A line break comes next where there was nothing more, and else what came next before. -/
theorem getD_head?_within (hlines : AreLines front back) (cursor : Cursor) :
    (cursor.within front back).rest.head?.getD '\n' = cursor.rest.head?.getD '\n' := by
  rw [within]
  cases cursor.rest with
  | cons c rest => rfl
  | nil =>
      rw [List.nil_append, List.head?_nil, Option.getD_none]
      cases hback : back.head? with
      | none => rfl
      | some c => exact hlines.back c hback

theorem getD_before_within (hlines : AreLines front back) (cursor : Cursor) :
    (cursor.within front back).before.getD '\n' = cursor.before.getD '\n' := by
  rw [within]
  cases cursor.before with
  | some c => rfl
  | none =>
      rw [Option.none_or, Option.getD_none]
      cases hfront : front.getLast? with
      | none => rfl
      | some c => exact hlines.front c hfront

theorem takeEach?_within (hlines : AreLines front back) {sets : List CharSet} :
    (∀ set ∈ sets, set.contains '\n' = false) → ∀ cursor : Cursor,
    (cursor.within front back).takeEach? sets =
      (cursor.takeEach? sets).map (within front back) := by
  induction sets with
  | nil => exact fun _ _ => rfl
  | cons set sets ih =>
      intro hsets cursor
      obtain ⟨hset, hothers⟩ := List.forall_mem_cons.mp hsets
      rw [takeEach?, takeEach?, any_eq_getD hset, any_eq_getD hset, getD_head?_within hlines]
      split
      next hhead =>
        have hrest : cursor.rest ≠ [] := by
          intro hempty
          rw [hempty, List.head?_nil, Option.getD_none, hset] at hhead
          cases hhead
        rw [next_within hrest, ih hothers]
      next => rfl

end Cursor

/-! ## Patterns -/

namespace Pattern

/-- Whether a condition is about the line of a place. It is not when it is about the whole text, or
about a return beside a line break. -/
def Assertion.staysInLine : Assertion → Bool
  | textStart | textEnd | breakBefore | breakAfter => false
  | lineStart | lineEnd | wordBoundary _ | wordStart | wordEnd | noWordBefore | noWordAfter => true

/-- Whether a pattern takes no line break and has no condition about the whole text. -/
def staysInLine : Pattern → Bool
  | empty => true
  | oneOfEach sets => sets.all fun set => !set.contains '\n'
  | assert condition => condition.staysInLine
  | seq first second => first.staysInLine && second.staysInLine
  | alt _ left right => left.staysInLine && right.staysInLine
  | times _ body | upTo _ _ _ body | star _ _ body | plus _ _ body | group _ body =>
      body.staysInLine

variable {front back : List Char}

theorem isWord_newline : isWord '\n' = false := by decide +kernel

theorem holds_within (hlines : AreLines front back) {condition : Assertion}
    (hstays : condition.staysInLine = true) (cursor : Cursor) :
    condition.holds (cursor.within front back) = condition.holds cursor := by
  have hbefore := Cursor.getD_before_within hlines cursor
  have hnext := Cursor.getD_head?_within hlines cursor
  have hafterWord : (cursor.within front back).afterWord = cursor.afterWord := by
    rw [Cursor.afterWord, Cursor.afterWord, any_eq_getD isWord_newline, hbefore,
      any_eq_getD isWord_newline]
  have hbeforeWord : (cursor.within front back).beforeWord = cursor.beforeWord := by
    rw [Cursor.beforeWord, Cursor.beforeWord, any_eq_getD isWord_newline, hnext,
      any_eq_getD isWord_newline]
  cases condition with
  | textStart | textEnd | breakBefore | breakAfter => cases hstays
  | lineStart => rw [Assertion.holds, Assertion.holds, all_eq_getD rfl, hbefore, all_eq_getD rfl]
  | lineEnd => rw [Assertion.holds, Assertion.holds, all_eq_getD rfl, hnext, all_eq_getD rfl]
  | wordBoundary | wordStart | wordEnd | noWordBefore | noWordAfter =>
      simp only [Assertion.holds, hafterWord, hbeforeWord]

/-- Such a pattern leads to the same places whatever lines are around the text. -/
theorem carries_within (hlines : AreLines front back) {pattern : Pattern} :
    pattern.staysInLine = true → Carries (Cursor.within front back) pattern pattern := by
  have hshifts := Cursor.shifts_within front back
  have hchoice (number : Option Nat) : CarriesChoice (Cursor.within front back) number number :=
    fun rounds cursor => cursor.enter?_within rounds number
  induction pattern with
  | empty => exact fun _ => .empty
  | oneOfEach sets =>
      intro hstays
      refine .oneOfEach (Cursor.takeEach?_within hlines fun set hset => ?_)
      exact (Bool.not_eq_true' _).mp (List.all_eq_true.mp hstays set hset)
  | assert condition => exact fun hstays => .assert (holds_within hlines hstays)
  | seq first second ihFirst ihSecond =>
      intro hstays
      obtain ⟨hfirst, hsecond⟩ := (Bool.and_eq_true _ _).mp hstays
      exact (ihFirst hfirst).seq hshifts (ihSecond hsecond)
  | alt number left right ihLeft ihRight =>
      intro hstays
      obtain ⟨hleft, hright⟩ := (Bool.and_eq_true _ _).mp hstays
      exact .alt (hchoice number) (ihLeft hleft) (ihRight hright)
  | times count body ih => exact fun hstays => (ih hstays).times hshifts count
  | upTo number greedy most body ih =>
      exact fun hstays => (ih hstays).upTo hshifts (hchoice number) greedy most
  | star number greedy body ih =>
      exact fun hstays => (ih hstays).star hshifts (hchoice number) greedy
  | plus number greedy body ih =>
      exact fun hstays => (ih hstays).plus hshifts (hchoice number) greedy
  | group name body ih => exact fun hstays => (ih hstays).group (Cursor.pass_within name)

theorem matchAt?_within (hlines : AreLines front back) {pattern : Pattern}
    (hstays : pattern.staysInLine = true) (cursor : Cursor) :
    pattern.matchAt? (cursor.within front back) =
      (pattern.matchAt? cursor).map (Cursor.within front back) := by
  rw [matchAt?, matchAt?, carries_within hlines hstays, List.head?_map]

end Pattern

end QubitScript
