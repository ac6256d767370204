import QubitScript.Pattern.Numbering
import QubitScript.Proofs.Pattern.Carrying

/-!
# Other numbers for choices

The numbers of choices only tell choices apart. A pattern whose choices get other numbers leads to
the same places, with the other numbers among the choices passed. A form that is numbered from a
higher number on has all its numbers higher.
-/

namespace QubitScript

variable {σ : Nat → Nat}

/-! ## Cursors -/

def Choice.renumber (σ : Nat → Nat) (choice : Choice) : Choice :=
  { choice with number := σ choice.number }

namespace Cursor

/-- The same place, with other numbers for the choices passed. -/
def renumber (σ : Nat → Nat) (cursor : Cursor) : Cursor :=
  { cursor with passed := cursor.passed.map (Choice.renumber σ) }

/-- The same place, with no choices kept. -/
def settle (cursor : Cursor) : Cursor := { cursor with passed := [] }

theorem renumber_of_passed {cursor : Cursor} (h : cursor.passed = []) :
    cursor.renumber σ = cursor := by
  obtain ⟨before, offset, rest, groups, passed⟩ := cursor
  cases h
  rfl

theorem shifts_renumber (σ : Nat → Nat) : Shifts 0 (renumber σ) :=
  ⟨fun _ => (Nat.zero_add _).symm, fun _ => Nat.le_refl _⟩

theorem next_renumber (cursor : Cursor) : (cursor.renumber σ).next = cursor.next.renumber σ := by
  obtain ⟨before, offset, rest, groups, passed⟩ := cursor
  cases rest <;> rfl

theorem takeEach?_renumber (sets : List Text.CharSet) : ∀ cursor : Cursor,
    (cursor.renumber σ).takeEach? sets = (cursor.takeEach? sets).map (renumber σ) := by
  induction sets with
  | nil => exact fun _ => rfl
  | cons set sets ih =>
      intro cursor
      rw [takeEach?, takeEach?, next_renumber, ih]
      rw [apply_ite (Option.map (renumber σ)), Option.map_none]
      rfl

theorem renumber_injective (hσ : Function.Injective σ) :
    Function.Injective (Choice.renumber σ) := by
  intro first second h
  obtain ⟨hnumber, hrounds⟩ := Choice.mk.inj h
  obtain ⟨number, rounds⟩ := first
  cases hσ hnumber
  cases hrounds
  rfl

theorem enter?_renumber (hσ : Function.Injective σ) (cursor : Cursor) (rounds : List Nat)
    (number : Option Nat) : (cursor.renumber σ).enter? rounds (number.map σ) =
      (cursor.enter? rounds number).map (renumber σ) := by
  cases number with
  | none => rfl
  | some number =>
      have hpassed : (cursor.renumber σ).passed.contains ⟨σ number, rounds⟩ =
          cursor.passed.contains ⟨number, rounds⟩ := by
        rw [Bool.eq_iff_iff, List.contains_iff_mem, List.contains_iff_mem]
        exact List.mem_map_of_injective (renumber_injective hσ) (a := ⟨number, rounds⟩)
      rw [Option.map_some, enter?, enter?, hpassed]
      split <;> rfl

end Cursor

namespace Pattern

/-! ## Patterns -/

/-- The pattern with other numbers for its choices. -/
def renumber (σ : Nat → Nat) : Pattern → Pattern
  | empty => empty
  | oneOfEach sets => oneOfEach sets
  | assert condition => assert condition
  | seq first second => seq (renumber σ first) (renumber σ second)
  | alt number left right => alt (number.map σ) (renumber σ left) (renumber σ right)
  | times count body => times count (renumber σ body)
  | upTo number greedy most body => upTo (number.map σ) greedy most (renumber σ body)
  | star number greedy body => star (number.map σ) greedy (renumber σ body)
  | plus number greedy body => plus (number.map σ) greedy (renumber σ body)
  | group name body => group name (renumber σ body)

theorem holds_renumber (condition : Assertion) (cursor : Cursor) :
    condition.holds (cursor.renumber σ) = condition.holds cursor := by
  cases condition <;> rfl

theorem ends_renumber (hσ : Function.Injective σ) (pattern : Pattern) :
    Carries (Cursor.renumber σ) pattern (pattern.renumber σ) := by
  have hshifts := Cursor.shifts_renumber σ
  have hchoice (number : Option Nat) :
      CarriesChoice (Cursor.renumber σ) number (number.map σ) :=
    fun rounds cursor => cursor.enter?_renumber hσ rounds number
  induction pattern with
  | empty => exact .empty
  | oneOfEach sets => exact .oneOfEach (Cursor.takeEach?_renumber sets)
  | assert condition => exact .assert (holds_renumber condition)
  | seq _ _ ihFirst ihSecond => exact ihFirst.seq hshifts ihSecond
  | alt number _ _ ihLeft ihRight => exact .alt (hchoice number) ihLeft ihRight
  | times count _ ih => exact ih.times hshifts count
  | upTo number greedy most _ ih => exact ih.upTo hshifts (hchoice number) greedy most
  | star number greedy _ ih => exact ih.star hshifts (hchoice number) greedy
  | plus number greedy _ ih => exact ih.plus hshifts (hchoice number) greedy
  | group name _ ih => exact ih.group fun _ _ => rfl

/-- Where choices have other numbers, the same places are reached from a place with no choices
passed. -/
theorem settle_ends_renumber (hσ : Function.Injective σ) (pattern : Pattern) (rounds : List Nat)
    {cursor : Cursor} (h : cursor.passed = []) :
    ((pattern.renumber σ).ends rounds cursor).map Cursor.settle =
      (pattern.ends rounds cursor).map Cursor.settle := by
  have hends := ends_renumber hσ pattern rounds cursor
  rw [Cursor.renumber_of_passed h] at hends
  rw [hends, List.map_map]
  rfl

/-! ## Numbering from a higher number on -/

theorem joinChars_renumber (patterns : List Pattern) :
    joinChars (patterns.map (renumber σ)) = (joinChars patterns).map (renumber σ) := by
  induction patterns with
  | nil => rfl
  | cons pattern patterns ih =>
      rw [List.map_cons]
      cases pattern with
      | oneOfEach sets =>
          rw [renumber, joinChars, joinChars, ih]
          cases joinChars patterns with
          | nil => rfl
          | cons other others => cases other <;> rfl
      | _ =>
          rw [renumber, joinChars, joinChars, ih]
          · rfl
          · exact nofun
          · exact nofun

theorem concat_renumber (patterns : List Pattern) :
    concat (patterns.map (renumber σ)) = (concat patterns).renumber σ := by
  rw [concat, concat, joinChars_renumber]
  cases joinChars patterns with
  | nil => rfl
  | cons pattern rest =>
      rw [List.map_cons]
      dsimp only
      rw [List.foldl_map]
      exact List.foldl_hom (renumber σ) fun _ _ => rfl

section Shifting

variable {α β γ δ : Type} {count : Nat}

/-- From a number that is higher by `count`, the second action does what the first one does, and it
yields what becomes of the result of the first one. -/
def Shifted (count : Nat) (become : α → β) (first : StateM Nat α) (second : StateM Nat β) : Prop :=
  ∀ next, second.run (next + count) = (become (first.run next).1, (first.run next).2 + count)

theorem Shifted.pure {become : α → β} {a : α} {b : β} (h : become a = b) :
    Shifted count become (Pure.pure a) (Pure.pure b) := by
  intro next
  rw [← h]
  rfl

theorem Shifted.bind {become : α → β} {become' : γ → δ} {x : StateM Nat α} {y : StateM Nat β}
    {f : α → StateM Nat γ} {g : β → StateM Nat δ} (h : Shifted count become x y)
    (hf : ∀ a, Shifted count become' (f a) (g (become a))) :
    Shifted count become' (x >>= f) (y >>= g) := by
  intro next
  have hx := h next
  rw [StateT.run_bind, StateT.run_bind, hx]
  exact hf _ _

abbrev higher (count : Nat) (number : Nat) : Nat := number + count

theorem higher_injective (count : Nat) : Function.Injective (higher count) :=
  fun _ _ h => Nat.add_right_cancel h

theorem shifted_newNumber (numbered : Bool) : Shifted count (Option.map (higher count))
    (newNumber numbered) (newNumber numbered) := by
  intro next
  cases numbered with
  | false => rfl
  | true =>
      have hsucc : next + count + 1 = next + 1 + count := Nat.add_right_comm next count 1
      exact congrArg (Prod.mk (some (next + count))) hsucc

/-- The round of a repetition, numbered from a higher number on. -/
abbrev ShiftedRound (count : Nat) (round : StateM Nat Pattern) : Prop :=
  Shifted count (renumber (higher count)) round round

abbrev ShiftedParts (count : Nat) (parts : StateM Nat (List Pattern)) : Prop :=
  Shifted count (List.map (renumber (higher count))) parts parts

theorem shifted_exactly {rounds : Nat} {round : StateM Nat Pattern} (h : ShiftedRound count round) :
    ShiftedParts count (exactly rounds round) := by
  match rounds with
  | 0 => exact .pure rfl
  | 1 => exact h.bind fun _ => .pure rfl
  | rounds + 2 => exact h.bind fun _ => .pure rfl

theorem loopOf_renumber (number : Option Nat) (greedy mayTakeNothing : Bool) (round : Pattern) :
    (loopOf number greedy mayTakeNothing round).renumber σ =
      loopOf (number.map σ) greedy mayTakeNothing (round.renumber σ) := by
  have hloop : (round.renumber σ).isLoop greedy = round.isLoop greedy := by
    cases round <;> rfl
  rw [loopOf, loopOf, hloop]
  split <;> rfl

theorem shifted_repetition {bounds : Bounds} {numbered greedy mayTakeNothing : Bool}
    {round : StateM Nat Pattern} (h : ShiftedRound count round) :
    ShiftedParts count (repetition bounds numbered greedy mayTakeNothing round) := by
  rw [repetition]
  split
  · refine (shifted_newNumber numbered).bind fun number => ?_
    split
    · exact (shifted_newNumber numbered).bind fun _ => h.bind fun _ => .pure rfl
    · exact h.bind fun _ => .pure rfl
  · refine (shifted_newNumber numbered).bind fun number => h.bind fun round => ?_
    refine (shifted_exactly h).bind fun must => .pure ?_
    rw [List.map_append, List.map_singleton, loopOf_renumber]
  · refine (shifted_exactly h).bind fun must => ?_
    split
    · exact .pure rfl
    · exact (shifted_newNumber numbered).bind fun number => h.bind fun round =>
        .pure List.map_append

theorem shifted_numberFrom (form : Form) : ∀ numbered : Bool,
    ShiftedParts count (form.numberFrom numbered) := by
  induction form with
  | empty => exact fun _ => .pure rfl
  | set chars => exact fun _ => .pure rfl
  | assert condition => exact fun _ => .pure rfl
  | seq first rest ihFirst ihRest =>
      exact fun numbered => (ihFirst numbered).bind fun _ => (ihRest numbered).bind fun _ =>
        .pure List.map_append
  | alt left right ihLeft ihRight =>
      intro numbered
      refine (shifted_newNumber numbered).bind fun number => (ihLeft numbered).bind fun first => ?_
      refine (ihRight numbered).bind fun second => .pure ?_
      rw [List.map_singleton, renumber, concat_renumber, concat_renumber]
  | repeated bounds greedy body ih =>
      intro numbered
      refine shifted_repetition ?_
      rw [map_eq_pure_bind]
      exact (ih _).bind fun parts => .pure (concat_renumber parts).symm
  | group name body ih =>
      intro numbered
      cases name with
      | none => exact ih numbered
      | some name =>
          refine (ih numbered).bind fun parts => .pure ?_
          rw [List.map_singleton, renumber, concat_renumber]

/-- Numbered from some number on, a form has the choices of its own pattern with higher numbers. -/
theorem concat_numberFrom (form : Form) (next : Nat) :
    concat ((form.numberFrom false).run next).1 = form.pattern.renumber (higher next) := by
  have hshifted := @shifted_numberFrom next form false 0
  rw [Nat.zero_add] at hshifted
  rw [hshifted, concat_renumber]
  rfl

end Shifting

end Pattern

end QubitScript
