import Mathlib.Data.List.Basic
import QubitScript.Proofs.Pattern.Language

/-!
# Searches along a map of places

A map can take the places of one text to places of another one. When it takes each step of a search
to a step of another search, the second search finds what the map makes of the places that the first
one finds, in the same order. This is shown here for each form of a pattern; what is left for a
particular map are its characters, its conditions and its choices.
-/

namespace QubitScript

variable {f : Cursor → Cursor} {shift : Nat}

/-- A map of places that moves all of them on equally far and leaves no less of the text after
them. -/
structure Cursor.Shifts (shift : Nat) (f : Cursor → Cursor) : Prop where
  offset : ∀ cursor, (f cursor).offset = shift + cursor.offset
  length_le : ∀ cursor, cursor.rest.length ≤ (f cursor).rest.length

namespace Pattern

/-! ## Searches -/

/-- Passing a choice does not move. -/
theorem place_of_enter? {cursor entered : Cursor} {rounds : List Nat} {number : Option Nat}
    (h : cursor.enter? rounds number = some entered) :
    entered.rest = cursor.rest ∧ entered.offset = cursor.offset := by
  have hmoves : Moves [] [] cursor entered := moves_of_enter? h
  have hoffset : entered.forget.offset = cursor.forget.offset := congrArg Cursor.offset hmoves.place
  exact ⟨hmoves.text.symm, hoffset⟩

/-- A search that goes from place to place finds the same places when each step does. -/
theorem foldl_map_places {step step' : List Cursor → Cursor → List Cursor}
    (h : ∀ found cursor, step' (found.map f) (f cursor) = (step found cursor).map f)
    (cursors found : List Cursor) :
    (cursors.map f).foldl step' (found.map f) = (cursors.foldl step found).map f := by
  rw [List.foldl_map]
  exact List.foldl_hom (List.map f) h

section Searches

variable (hf : Cursor.Shifts shift f)
include hf

theorem any_offset_map (found : List Cursor) (cursor : Cursor) :
    (found.map f).any (·.offset == (f cursor).offset) = found.any (·.offset == cursor.offset) := by
  rw [List.any_map]
  refine congrArg (List.any found) (funext fun stop => ?_)
  rw [Bool.eq_iff_iff, Function.comp_apply, beq_iff_eq, beq_iff_eq, hf.offset, hf.offset]
  exact Nat.add_left_cancel_iff

theorem record_map (found : List Cursor) (cursor : Cursor) :
    record (found.map f) (f cursor) = (record found cursor).map f := by
  rw [record, record, any_offset_map hf]
  split <;> rfl

theorem distinct_map (cursors : List Cursor) :
    distinct (cursors.map f) = (distinct cursors).map f := by
  rw [distinct, distinct, List.map_reverse]
  exact congrArg List.reverse (foldl_map_places (record_map hf) cursors [])

end Searches

section Rounds

variable {enter? enter?' : Nat → Cursor → Option Cursor} {body body' : Nat → Cursor → List Cursor}

theorem timesFrom_map (hf : Cursor.Shifts shift f)
    (hbody : ∀ round cursor, body' round (f cursor) = (body round cursor).map f) {count : Nat} :
    ∀ cursors : List Cursor,
      timesFrom body' count (cursors.map f) = (timesFrom body count cursors).map f := by
  induction count with
  | zero => exact fun _ => rfl
  | succ count ih =>
      intro cursors
      rw [timesFrom, timesFrom, List.flatMap_map, ← ih, ← distinct_map hf, List.map_flatMap]
      simp only [hbody]

namespace Descent

/-- The search at the images of its places. -/
def carry (shift : Nat) (f : Cursor → Cursor) (descent : Descent) : Descent :=
  ⟨descent.seen.map fun (rounds, offset) => (rounds, shift + offset), descent.found.map f⟩

/-- The search comes to an offset with so many rounds left. -/
def visit (descent : Descent) (most offset : Nat) : Descent :=
  { descent with seen := (most, offset) :: descent.seen }

/-- The search stops at a place. -/
def stop (descent : Descent) (cursor : Cursor) : Descent :=
  { descent with found := record descent.found cursor }

/-- The search goes on through the next round. -/
def onward (enter? : Nat → Cursor → Option Cursor) (greedy : Bool)
    (body : Nat → Cursor → List Cursor) (most : Nat) (cursor : Cursor) (descent : Descent) :
    Descent :=
  (body most cursor).foldl
    (fun descent cursor => upToFrom enter? greedy body most cursor descent) descent

theorem stop_carry (hf : Cursor.Shifts shift f) (descent : Descent) (cursor : Cursor) :
    (descent.carry shift f).stop (f cursor) = (descent.stop cursor).carry shift f := by
  rw [stop, stop, carry, record_map hf]
  rfl

theorem contains_carry (descent : Descent) (most offset : Nat) :
    (descent.carry shift f).seen.contains (most, shift + offset) =
      descent.seen.contains (most, offset) := by
  have hinjective : Function.Injective fun entry : Nat × Nat => (entry.1, shift + entry.2) := by
    intro first second h
    obtain ⟨hrounds, hoffset⟩ := Prod.mk.inj h
    exact Prod.ext hrounds (Nat.add_left_cancel hoffset)
  rw [Bool.eq_iff_iff, List.contains_iff_mem, List.contains_iff_mem]
  exact List.mem_map_of_injective hinjective (a := (most, offset))

end Descent

theorem upToFrom_succ (greedy : Bool) (most : Nat) (cursor : Cursor) (descent : Descent) :
    upToFrom enter? greedy body (most + 1) cursor descent =
      if descent.seen.contains (most, cursor.offset) then descent
      else match enter? most cursor with
        | none => descent.visit most cursor.offset
        | some entered =>
          if greedy then
            ((descent.visit most cursor.offset).onward enter? greedy body most entered).stop entered
          else ((descent.visit most cursor.offset).stop entered).onward enter? greedy body most
            entered :=
  rfl

theorem upToFrom_carry {greedy : Bool} (hf : Cursor.Shifts shift f)
    (henter : ∀ round cursor, enter?' round (f cursor) = (enter? round cursor).map f)
    (hbody : ∀ round cursor, body' round (f cursor) = (body round cursor).map f) {most : Nat} :
    ∀ (cursor : Cursor) (descent : Descent),
      upToFrom enter?' greedy body' most (f cursor) (descent.carry shift f) =
        (upToFrom enter? greedy body most cursor descent).carry shift f := by
  induction most with
  | zero => exact fun cursor descent => descent.stop_carry hf cursor
  | succ most ih =>
      intro cursor descent
      rw [upToFrom_succ, upToFrom_succ, henter, hf.offset, Descent.contains_carry]
      have hvisit : (descent.carry shift f).visit most (shift + cursor.offset) =
          (descent.visit most cursor.offset).carry shift f := rfl
      rw [hvisit]
      split
      next hseen => rfl
      next hseen =>
        cases enter? most cursor with
        | none => rfl
        | some entered =>
            have honward (descent : Descent) :
                (descent.carry shift f).onward enter?' greedy body' most (f entered) =
                  (descent.onward enter? greedy body most entered).carry shift f := by
              rw [Descent.onward, hbody, List.foldl_map]
              exact List.foldl_hom (Descent.carry shift f) fun descent cursor => ih cursor descent
            dsimp only [Option.map_some]
            split
            · rw [honward, Descent.stop_carry hf]
            · rw [Descent.stop_carry hf, honward]

end Rounds

section Loops

variable {enter? enter?' : Cursor → Option Cursor} {body body' : Cursor → List Cursor}

/-- The rounds of a loop that move on from a place. -/
def loopOnward (enter? : Cursor → Option Cursor) (greedy : Bool) (body : Cursor → List Cursor)
    (fuel : Nat) (cursor : Cursor) (found : List Cursor) : List Cursor :=
  ((body cursor).filter (cursor.offset < ·.offset)).foldl
    (fun found stop => loopFrom enter? greedy body fuel stop found) found

theorem loopFrom_succ (greedy : Bool) (fuel : Nat) (cursor : Cursor) (found : List Cursor) :
    loopFrom enter? greedy body (fuel + 1) cursor found =
      if found.any (·.offset == cursor.offset) then found
      else match enter? cursor with
        | none => found
        | some entered =>
          if greedy then entered :: loopOnward enter? greedy body fuel entered found
          else loopOnward enter? greedy body fuel entered (entered :: found) :=
  rfl

theorem loopFrom_map {greedy : Bool} (hf : Cursor.Shifts shift f)
    (henter : ∀ cursor, enter?' (f cursor) = (enter? cursor).map f)
    (hbody : ∀ cursor, body' (f cursor) = (body cursor).map f) {fuel : Nat} :
    ∀ (found : List Cursor) (cursor : Cursor),
      loopFrom enter?' greedy body' fuel (f cursor) (found.map f) =
        (loopFrom enter? greedy body fuel cursor found).map f := by
  induction fuel with
  | zero =>
      intro found cursor
      rw [loopFrom, loopFrom, henter]
      cases enter? cursor with
      | none => rfl
      | some entered => exact record_map hf found entered
  | succ fuel ih =>
      intro found cursor
      rw [loopFrom_succ, loopFrom_succ, henter, any_offset_map hf]
      split
      next => rfl
      next =>
        cases enter? cursor with
        | none => rfl
        | some entered =>
            have hlater (stop : Cursor) :
                decide ((f entered).offset < (f stop).offset) =
                  decide (entered.offset < stop.offset) := by
              rw [hf.offset, hf.offset]
              exact decide_eq_decide.mpr Nat.add_lt_add_iff_left
            have honward (found : List Cursor) :
                loopOnward enter?' greedy body' fuel (f entered) (found.map f) =
                  (loopOnward enter? greedy body fuel entered found).map f := by
              rw [loopOnward, hbody, List.filter_map, Function.comp_def]
              simp only [hlater]
              exact foldl_map_places ih _ found
            dsimp only [Option.map_some]
            split
            · rw [honward, List.map_cons]
            · rw [← List.map_cons, honward]

end Loops

section Fuel

variable {body : Pattern} {number : Option Nat} {rounds : List Nat} {greedy : Bool}
  {cursor : Cursor}
  {found : List Cursor}

/-- Once the fuel is the number of characters left, more of it changes nothing. -/
theorem loopFrom_more {fuel : Nat} : ∀ {cursor : Cursor} {found : List Cursor},
    cursor.rest.length ≤ fuel →
    loopFrom (·.enter? rounds number) greedy (body.ends rounds) (fuel + 1) cursor found =
      loopFrom (·.enter? rounds number) greedy (body.ends rounds) fuel cursor found := by
  induction fuel with
  | zero =>
      intro cursor found hfuel
      rw [loopFrom_succ, loopFrom]
      cases hentered : cursor.enter? rounds number with
      | none => exact ite_self _
      | some entered =>
          obtain ⟨hrest, hoffset⟩ := place_of_enter? hentered
          -- No round moves on from the end of the text.
          have honward (found : List Cursor) :
              loopOnward (·.enter? rounds number) greedy (body.ends rounds) 0 entered found =
                found := by
            have hnone : (body.ends rounds entered).filter (entered.offset < ·.offset) = [] := by
              refine List.filter_eq_nil_iff.mpr fun stop hstop hlater => ?_
              have hless := length_lt_of_mem_ends hstop (of_decide_eq_true hlater)
              rw [hrest] at hless
              omega
            rw [loopOnward, hnone]
            rfl
          dsimp only
          rw [honward, honward, ite_self, Option.elim_some, record, hoffset]
  | succ fuel ih =>
      intro cursor found hfuel
      rw [loopFrom_succ, loopFrom_succ]
      split
      next => rfl
      next =>
        cases hentered : cursor.enter? rounds number with
        | none => rfl
        | some entered =>
            obtain ⟨hrest, -⟩ := place_of_enter? hentered
            have honward (found : List Cursor) :
                loopOnward (·.enter? rounds number) greedy (body.ends rounds) (fuel + 1) entered
                  found =
                  loopOnward (·.enter? rounds number) greedy (body.ends rounds) fuel entered
                    found := by
              refine List.foldl_ext _ _ _ fun found stop hstop => ih ?_
              obtain ⟨hend, hlater⟩ := List.mem_filter.mp hstop
              have hless := length_lt_of_mem_ends hend (of_decide_eq_true hlater)
              rw [hrest] at hless
              omega
            dsimp only
            rw [honward, honward]

theorem loopFrom_of_le {fuel : Nat} (hfuel : cursor.rest.length ≤ fuel) :
    loopFrom (·.enter? rounds number) greedy (body.ends rounds) fuel cursor found =
      loopFrom (·.enter? rounds number) greedy (body.ends rounds) cursor.rest.length cursor
        found := by
  induction hfuel with
  | refl => rfl
  | step hfuel ih => exact (loopFrom_more hfuel).trans ih

end Fuel

/-! ## Patterns -/

/-- The places that the second pattern leads to are those that the map makes of the places that the
first one leads to. -/
def Carries (f : Cursor → Cursor) (pattern image : Pattern) : Prop :=
  ∀ rounds cursor, image.ends rounds (f cursor) = (pattern.ends rounds cursor).map f

/-- A choice is open at the image of a place if it is open at the place. -/
def CarriesChoice (f : Cursor → Cursor) (number image : Option Nat) : Prop :=
  ∀ rounds cursor, (f cursor).enter? rounds image = (cursor.enter? rounds number).map f

namespace Carries

variable {first first' second second' body body' : Pattern} {number number' : Option Nat}

theorem empty : Carries f .empty .empty := fun _ _ => rfl

theorem assert {condition : Assertion}
    (h : ∀ cursor, condition.holds (f cursor) = condition.holds cursor) :
    Carries f (.assert condition) (.assert condition) := by
  intro rounds cursor
  rw [ends, ends, h]
  split <;> rfl

theorem oneOfEach {sets : List Text.CharSet}
    (h : ∀ cursor, (f cursor).takeEach? sets = (cursor.takeEach? sets).map f) :
    Carries f (.oneOfEach sets) (.oneOfEach sets) := by
  intro rounds cursor
  rw [ends, ends, h]
  cases cursor.takeEach? sets <;> rfl

theorem seq (hf : Cursor.Shifts shift f) (hfirst : Carries f first first')
    (hsecond : Carries f second second') : Carries f (.seq first second) (.seq first' second') := by
  intro rounds cursor
  rw [ends, ends, hfirst, ← distinct_map hf, List.flatMap_map, List.map_flatMap]
  simp only [hsecond rounds _]

theorem alt (hnumber : CarriesChoice f number number') (hfirst : Carries f first first')
    (hsecond : Carries f second second') :
    Carries f (.alt number first second) (.alt number' first' second') := by
  intro rounds cursor
  rw [ends, ends, hnumber]
  cases cursor.enter? rounds number with
  | none => rfl
  | some entered =>
      dsimp only [Option.map_some]
      rw [hfirst, hsecond, List.map_append]

theorem times (hf : Cursor.Shifts shift f) (hbody : Carries f body body') (count : Nat) :
    Carries f (.times count body) (.times count body') := by
  intro rounds cursor
  exact timesFrom_map hf (fun round cursor => hbody (round :: rounds) cursor) [cursor]

theorem upTo (hf : Cursor.Shifts shift f) (hnumber : CarriesChoice f number number')
    (hbody : Carries f body body') (greedy : Bool) (most : Nat) :
    Carries f (.upTo number greedy most body) (.upTo number' greedy most body') := by
  intro rounds cursor
  rw [ends, ends, List.map_reverse]
  exact congrArg (fun descent : Descent => descent.found.reverse) (upToFrom_carry hf
    (fun round cursor => hnumber (round :: rounds) cursor)
    (fun round cursor => hbody (round :: rounds) cursor) cursor ⟨[], []⟩)

section Loops

variable (hf : Cursor.Shifts shift f) (hnumber : CarriesChoice f number number')
  (hbody : Carries f body body')
include hf hnumber hbody

/-- The second search may go on for longer, for there may be more text after the image of a
place. -/
theorem loopFrom (greedy : Bool) (rounds : List Nat) (found : List Cursor) (cursor : Cursor) :
    Pattern.loopFrom (·.enter? rounds number') greedy (body'.ends rounds) (f cursor).rest.length
        (f cursor) (found.map f) =
      (Pattern.loopFrom (·.enter? rounds number) greedy (body.ends rounds) cursor.rest.length cursor
        found).map f := by
  rw [loopFrom_map hf (hnumber rounds) (hbody rounds), loopFrom_of_le (hf.length_le cursor)]

theorem star (greedy : Bool) :
    Carries f (.star number greedy body) (.star number' greedy body') := by
  intro rounds cursor
  rw [ends, ends, List.map_reverse]
  exact congrArg List.reverse (hbody.loopFrom hf hnumber greedy rounds [] cursor)

theorem plus (greedy : Bool) :
    Carries f (.plus number greedy body) (.plus number' greedy body') := by
  intro rounds cursor
  rw [ends, ends, List.map_reverse, hbody]
  exact congrArg List.reverse
    (foldl_map_places (hbody.loopFrom hf hnumber greedy rounds) _ [])

end Loops

theorem group {name : String}
    (hpass : ∀ start stop, (f start).pass name (f stop) = f (start.pass name stop))
    (hbody : Carries f body body') : Carries f (.group name body) (.group name body') := by
  intro rounds cursor
  rw [ends, ends, hbody, List.map_map, List.map_map]
  exact List.map_congr_left fun stop _ => hpass cursor stop

end Carries

end Pattern

end QubitScript
