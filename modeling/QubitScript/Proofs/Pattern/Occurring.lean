import QubitScript.Proofs.Pattern.Carrying
import QubitScript.Proofs.Pattern.Preferred
import QubitScript.Proofs.Pattern.Searching

/-!
# Occurrences

A search through a text finds a pattern exactly where the text holds a piece that the pattern takes.
This is shown for patterns of characters, sequences, choices and greedy loops whose choices have no
numbers. A loop searches depth first and passes over places that it has found before; the places
found so far are closed under further rounds, so nothing is missed.
-/

namespace QubitScript

open QubitScript.Text

/-! ## Places counted from an origin -/

/-- The place so many characters after the origin, whatever is kept of the way to it. -/
structure Cursor.At (origin : Cursor) (count : Nat) (cursor : Cursor) : Prop where
  within : count ≤ origin.rest.length
  place : cursor.forget = (origin.skip count).forget

namespace Cursor.At

variable {origin cursor other : Cursor} {m n : Nat} {taken after : List Char} {names : List String}

theorem refl (origin : Cursor) : origin.At 0 origin := ⟨Nat.zero_le _, rfl⟩

theorem rest (h : origin.At n cursor) : cursor.rest = origin.rest.drop n := by
  rw [← rest_skip]
  show cursor.forget.rest = (origin.skip n).forget.rest
  rw [h.place]

/-- At the end of a piece the rest of the text is what came after the piece. -/
theorem rest_after (h : origin.At n cursor) (hrest : cursor.rest = taken ++ after)
    (hother : origin.At (n + taken.length) other) : other.rest = after := by
  rw [hother.rest, ← List.drop_drop, ← h.rest, hrest, List.drop_left]

theorem offset (h : origin.At n cursor) : cursor.offset = (origin.skip n).offset := by
  show cursor.forget.offset = (origin.skip n).forget.offset
  rw [h.place]

theorem skip (h : origin.At n cursor) (hrest : cursor.rest = taken ++ after)
    (hplace : other.forget = (cursor.skip taken.length).forget) :
    origin.At (n + taken.length) other := by
  have hwithin := h.within
  constructor
  · have hlength := congrArg List.length (h.rest.symm.trans hrest)
    rw [List.length_drop, List.length_append] at hlength
    omega
  · rw [hplace, forget_skip, h.place, ← forget_skip, skip_add]

theorem moves (h : origin.At n cursor) (hmoves : Pattern.Moves names taken cursor other) :
    origin.At (n + taken.length) other :=
  h.skip hmoves.text hmoves.place

theorem offset_lt (h : origin.At n cursor) (h' : origin.At m other) (hlt : n < m) :
    cursor.offset < other.offset := by
  obtain ⟨k, rfl⟩ := Nat.exists_eq_add_of_lt hlt
  have hwithin := h'.within
  rw [h.offset, h'.offset, Nat.add_assoc, ← skip_add]
  refine offset_lt_skip (Nat.succ_pos k) fun hempty => ?_
  rw [rest_skip, List.drop_eq_nil_iff] at hempty
  omega

/-- Places are told apart by the number of bytes before them. -/
theorem unique (h : origin.At m cursor) (h' : origin.At n other)
    (hoffset : cursor.offset = other.offset) : m = n := by
  rcases Nat.lt_trichotomy m n with hlt | heq | hgt
  · exact absurd hoffset (Nat.ne_of_lt (h.offset_lt h' hlt))
  · exact heq
  · exact absurd hoffset.symm (Nat.ne_of_lt (h'.offset_lt h hgt))

end Cursor.At

namespace Pattern

/-- Characters, sequences, choices and greedy loops, without numbers. -/
def isRegular : Pattern → Bool
  | empty | oneOfEach _ => true
  | seq first second => first.isRegular && second.isRegular
  | alt none left right => left.isRegular && right.isRegular
  | star none true body | plus none true body => body.isRegular
  | _ => false

/-- From every place of a text, a pattern finds the end of every piece that it takes there. -/
def Finds (pattern : Pattern) (rounds : List Nat) : Prop :=
  ∀ ⦃origin cursor : Cursor⦄ ⦃n : Nat⦄ ⦃taken after : List Char⦄, origin.At n cursor →
    pattern.Takes taken → cursor.rest = taken ++ after →
    ∃ stop ∈ pattern.ends rounds cursor, origin.At (n + taken.length) stop

/-! ## Lists of places -/

theorem exists_mem_record (found : List Cursor) (cursor : Cursor) :
    ∃ stop ∈ record found cursor, stop.offset = cursor.offset := by
  rw [record]
  split
  next hany =>
    obtain ⟨stop, hstop, heq⟩ := List.any_eq_true.mp hany
    exact ⟨stop, hstop, beq_iff_eq.mp heq⟩
  next => exact ⟨cursor, .head found, rfl⟩

theorem exists_mem_distinct {cursors : List Cursor} {cursor : Cursor} (h : cursor ∈ cursors) :
    ∃ stop ∈ distinct cursors, stop.offset = cursor.offset := by
  obtain ⟨before, after, rfl⟩ := List.append_of_mem h
  rw [distinct, List.foldl_append, List.foldl_cons]
  obtain ⟨stop, hstop, hoffset⟩ := exists_mem_record (before.foldl record []) cursor
  refine ⟨stop, List.mem_reverse.mpr ?_, hoffset⟩
  exact (suffix_foldl suffix_record after _).subset hstop

/-! ## Greedy loops -/

section Loops

variable {body : Pattern} {origin cursor : Cursor} {rounds : List Nat} {n : Nat}
  {found : List Cursor}

/-- Every further round from a place that has been found leads to one that has been found. -/
def Closed (body : Pattern) (origin : Cursor) (found : List Cursor) : Prop :=
  ∀ cursor ∈ found, ∃ n, origin.At n cursor ∧
    ∀ {taken after}, body.Takes taken → taken ≠ [] → cursor.rest = taken ++ after →
      ∃ stop ∈ found, origin.At (n + taken.length) stop

theorem Closed.nil : Closed body origin [] :=
  fun _ hcursor => absurd hcursor List.not_mem_nil

/-- What a step of a search does: the places are closed as before, and one more place is among
them. -/
structure Adds (body : Pattern) (origin cursor : Cursor) (found after : List Cursor) : Prop where
  closed : Closed body origin after
  kept : found ⊆ after
  added : ∃ stop ∈ after, stop.offset = cursor.offset

theorem adds_foldl {f : List Cursor → Cursor → List Cursor} : ∀ {stops found : List Cursor},
    (∀ stop ∈ stops, ∀ {found}, Closed body origin found →
      Adds body origin stop found (f found stop)) →
    Closed body origin found →
    Closed body origin (stops.foldl f found) ∧ found ⊆ stops.foldl f found ∧
      ∀ stop ∈ stops, ∃ place ∈ stops.foldl f found, place.offset = stop.offset := by
  intro stops
  induction stops with
  | nil => exact fun _ hclosed => ⟨hclosed, List.Subset.refl _, nofun⟩
  | cons stop stops ih =>
      intro found step hclosed
      have hstep := step stop (.head stops) hclosed
      obtain ⟨hafter, hkept, hadded⟩ :=
        ih (fun stop hstop => step stop (.tail _ hstop)) hstep.closed
      refine ⟨hafter, List.Subset.trans hstep.kept hkept, fun other hother => ?_⟩
      rcases List.mem_cons.mp hother with rfl | hother
      · obtain ⟨place, hplace, hoffset⟩ := hstep.added
        exact ⟨place, hkept hplace, hoffset⟩
      · exact hadded other hother

theorem Closed.at_of_offset {place : Cursor} (hclosed : Closed body origin found)
    (hplace : place ∈ found) (hcursor : origin.At n cursor)
    (hoffset : place.offset = cursor.offset) :
    origin.At n place := by
  obtain ⟨m, hm, -⟩ := hclosed place hplace
  exact hm.unique hcursor hoffset ▸ hm

/-- A place may be added once the places that a round from it leads to are there. -/
theorem Closed.cons (hclosed : Closed body origin found) (hcursor : origin.At n cursor)
    (hrounds : ∀ {taken after}, body.Takes taken → taken ≠ [] → cursor.rest = taken ++ after →
      ∃ stop ∈ found, origin.At (n + taken.length) stop) :
    Closed body origin (cursor :: found) := by
  intro place hplace
  rcases List.mem_cons.mp hplace with rfl | hplace
  · refine ⟨n, hcursor, fun htakes hne hrest => ?_⟩
    obtain ⟨stop, hstop, hat⟩ := hrounds htakes hne hrest
    exact ⟨stop, .tail _ hstop, hat⟩
  · obtain ⟨m, hm, hnext⟩ := hclosed place hplace
    refine ⟨m, hm, fun htakes hne hrest => ?_⟩
    obtain ⟨stop, hstop, hat⟩ := hnext htakes hne hrest
    exact ⟨stop, .tail _ hstop, hat⟩

theorem adds_self (hclosed : Closed body origin (cursor :: found)) :
    Adds body origin cursor found (cursor :: found) :=
  ⟨hclosed, List.subset_cons_self cursor found, cursor, .head found, rfl⟩

theorem adds_of_any (hclosed : Closed body origin found)
    (hany : found.any (·.offset == cursor.offset) = true) :
    Adds body origin cursor found found := by
  obtain ⟨stop, hstop, heq⟩ := List.any_eq_true.mp hany
  exact ⟨hclosed, List.Subset.refl found, stop, hstop, beq_iff_eq.mp heq⟩

theorem adds_loopFrom (hbody : body.Finds rounds) {fuel : Nat} :
    ∀ {cursor : Cursor} {n : Nat} {found : List Cursor}, origin.At n cursor →
    cursor.rest.length ≤ fuel → Closed body origin found →
    Adds body origin cursor found
      (loopFrom (·.enter? rounds none) true (body.ends rounds) fuel cursor found) := by
  induction fuel with
  | zero =>
      intro cursor n found hcursor hfuel hclosed
      have hempty : cursor.rest = [] := List.length_eq_zero_iff.mp (Nat.le_zero.mp hfuel)
      show Adds body origin cursor found (record found cursor)
      rw [record]
      split
      next hany => exact adds_of_any hclosed hany
      next =>
        refine adds_self (hclosed.cons hcursor fun _ hne hrest => ?_)
        exact absurd (List.append_eq_nil_iff.mp (hrest.symm.trans hempty)).1 hne
  | succ fuel ih =>
      intro cursor n found hcursor hfuel hclosed
      rw [loopFrom_succ]
      split
      next hany => exact adds_of_any hclosed hany
      next =>
        -- A round that takes something leaves less text, so the fuel lasts for the rounds after it.
        have hloops : ∀ stop ∈ (body.ends rounds cursor).filter (cursor.offset < ·.offset),
            ∀ {found}, Closed body origin found → Adds body origin stop found
              (loopFrom (·.enter? rounds none) true (body.ends rounds) fuel stop found) := by
          intro stop hstop found hclosed
          obtain ⟨hend, hlater⟩ := List.mem_filter.mp hstop
          obtain ⟨taken, -, hmoves⟩ := reaches_of_mem_ends hend
          have hless := length_lt_of_mem_ends hend (of_decide_eq_true hlater)
          exact ih (hcursor.moves hmoves) (by omega) hclosed
        obtain ⟨hafter, hkept, hadded⟩ := adds_foldl hloops hclosed
        have hwhole := hafter.cons hcursor fun {taken after} htakes hne hrest => ?_
        · exact ⟨hwhole, List.Subset.trans hkept (List.subset_cons_self _ _), cursor, .head _, rfl⟩
        · obtain ⟨stop, hend, hat⟩ := hbody hcursor htakes hrest
          have hlater : cursor.offset < stop.offset :=
            hcursor.offset_lt hat (Nat.lt_add_of_pos_right (List.length_pos_of_ne_nil hne))
          obtain ⟨place, hplace, hoffset⟩ :=
            hadded stop (List.mem_filter.mpr ⟨hend, by simpa using hlater⟩)
          exact ⟨place, hplace, hafter.at_of_offset hplace hat hoffset⟩

/-- From a place in closed places, any number of rounds leads to one of them. -/
theorem Closed.exists_of_star {greedy : Bool} {number : Option Nat} {taken : List Char}
    (hclosed : Closed body origin found) (htakes : (star number greedy body).Takes taken) :
    ∀ {cursor : Cursor} {n : Nat} {after : List Char}, cursor ∈ found → origin.At n cursor →
      cursor.rest = taken ++ after → ∃ stop ∈ found, origin.At (n + taken.length) stop := by
  refine htakes.star_induction (P := fun taken => ∀ {cursor : Cursor} {n : Nat}
    {after : List Char}, cursor ∈ found → origin.At n cursor → cursor.rest = taken ++ after →
      ∃ stop ∈ found, origin.At (n + taken.length) stop) ?_ ?_
  · intro cursor n after hcursor hat _
    exact ⟨cursor, hcursor, hat⟩
  · intro before others hbefore ih cursor n after hcursor hat hrest
    rw [List.append_assoc] at hrest
    by_cases hempty : before = []
    · subst hempty
      exact ih hcursor hat hrest
    · obtain ⟨m, hm, hround⟩ := hclosed cursor hcursor
      obtain rfl : m = n := hm.unique hat rfl
      obtain ⟨middle, hmiddle, hmat⟩ := hround hbefore hempty hrest
      obtain ⟨stop, hstop, hsat⟩ := ih hmiddle hmat (hat.rest_after hrest hmat)
      exact ⟨stop, hstop, by rwa [List.length_append, ← Nat.add_assoc]⟩

theorem Finds.star (hbody : body.Finds rounds) : (star none true body).Finds rounds := by
  intro origin cursor n taken after hcursor htakes hrest
  have hadds := adds_loopFrom hbody hcursor (Nat.le_refl _) .nil
  obtain ⟨start, hstart, hoffset⟩ := hadds.added
  have hat := hadds.closed.at_of_offset hstart hcursor hoffset
  obtain ⟨stop, hstop, hsat⟩ := hadds.closed.exists_of_star htakes hstart hat
    (hat.rest.trans (hcursor.rest.symm.trans hrest))
  exact ⟨stop, List.mem_reverse.mpr hstop, hsat⟩

theorem Finds.plus (hbody : body.Finds rounds) : (plus none true body).Finds rounds := by
  intro origin cursor n taken after hcursor htakes hrest
  cases htakes with
  | @plus _ _ _ before others hbefore hothers =>
      rw [List.append_assoc] at hrest
      obtain ⟨middle, hmiddle, hmat⟩ := hbody hcursor hbefore hrest
      have hloops : ∀ stop ∈ body.ends rounds cursor, ∀ {found}, Closed body origin found →
          Adds body origin stop found (loopFrom (·.enter? rounds none) true (body.ends rounds)
            stop.rest.length stop found) := by
        intro stop hstop found hclosed
        obtain ⟨taken, -, hmoves⟩ := reaches_of_mem_ends hstop
        exact adds_loopFrom hbody (hcursor.moves hmoves) (Nat.le_refl _) hclosed
      obtain ⟨hclosed, -, hadded⟩ := adds_foldl hloops .nil
      obtain ⟨start, hstart, hoffset⟩ := hadded middle hmiddle
      have hat := hclosed.at_of_offset hstart hmat hoffset
      obtain ⟨stop, hstop, hsat⟩ :=
        hclosed.exists_of_star hothers hstart hat (hcursor.rest_after hrest hat)
      refine ⟨stop, List.mem_reverse.mpr hstop, ?_⟩
      rwa [List.length_append, ← Nat.add_assoc]

end Loops

/-! ## Whole patterns -/

theorem takeEach?_of_takes {sets : List CharSet} {taken : List Char}
    (htaken : List.Forall₂ (fun set c => set.contains c = true) sets taken) :
    ∀ {cursor : Cursor} {after : List Char}, cursor.rest = taken ++ after →
      cursor.takeEach? sets = some (cursor.skip taken.length) := by
  induction htaken with
  | nil => exact fun _ => rfl
  | @cons set c sets taken hc _ ih =>
      intro cursor after hrest
      have hnext : cursor.next.rest = taken ++ after := by
        rw [Cursor.rest_next, hrest]
        rfl
      rw [Cursor.takeEach?, hrest, if_pos (by simpa using hc), ih hnext]
      rfl

theorem Finds.seq {first second : Pattern} {rounds : List Nat} (hfirst : first.Finds rounds)
    (hsecond : second.Finds rounds) : (first.seq second).Finds rounds := by
  intro origin cursor n taken after hcursor htakes hrest
  cases htakes with
  | @seq _ _ before others hbefore hothers =>
      rw [List.append_assoc] at hrest
      obtain ⟨middle, hmiddle, hmat⟩ := hfirst hcursor hbefore hrest
      obtain ⟨stop, hstop, hsat⟩ := hsecond hmat hothers (hcursor.rest_after hrest hmat)
      -- Of the places with one offset the first is kept, and it is the same place.
      obtain ⟨kept, hkept, hoffset⟩ :=
        exists_mem_distinct (List.mem_flatMap.mpr ⟨middle, hmiddle, hstop⟩)
      obtain ⟨way, -, hmoves⟩ : (first.seq second).Reaches cursor kept := reaches_of_mem_ends hkept
      have hkat := hcursor.moves hmoves
      refine ⟨kept, hkept, ?_⟩
      rw [List.length_append, ← Nat.add_assoc]
      exact hkat.unique hsat hoffset ▸ hkat

theorem Finds.alt {left right : Pattern} {rounds : List Nat} (hleft : left.Finds rounds)
    (hright : right.Finds rounds) : (Pattern.alt none left right).Finds rounds := by
  intro origin cursor n taken after hcursor htakes hrest
  cases htakes with
  | left htakes =>
      obtain ⟨stop, hstop, hat⟩ := hleft hcursor htakes hrest
      exact ⟨stop, List.mem_append_left _ hstop, hat⟩
  | right htakes =>
      obtain ⟨stop, hstop, hat⟩ := hright hcursor htakes hrest
      exact ⟨stop, List.mem_append_right _ hstop, hat⟩

theorem finds_of_isRegular {pattern : Pattern} (hregular : pattern.isRegular = true)
    (rounds : List Nat) : pattern.Finds rounds := by
  induction pattern with
  | empty =>
      intro origin cursor n taken after hcursor htakes _
      cases htakes
      exact ⟨cursor, List.mem_singleton_self cursor, hcursor⟩
  | oneOfEach sets =>
      intro origin cursor n taken after hcursor htakes hrest
      cases htakes with
      | oneOfEach htaken =>
          refine ⟨cursor.skip taken.length, ?_, hcursor.skip hrest rfl⟩
          rw [ends, takeEach?_of_takes htaken hrest]
          exact List.mem_singleton_self _
  | seq first second ihFirst ihSecond =>
      obtain ⟨hfirst, hsecond⟩ := Bool.and_eq_true_iff.mp hregular
      exact (ihFirst hfirst).seq (ihSecond hsecond)
  | alt number left right ihLeft ihRight =>
      cases number with
      | none =>
          obtain ⟨hleft, hright⟩ := Bool.and_eq_true_iff.mp hregular
          exact (ihLeft hleft).alt (ihRight hright)
      | some number => cases hregular
  | star number greedy body ih =>
      cases number with
      | some number => cases hregular
      | none =>
          cases greedy with
          | false => cases hregular
          | true => exact (ih hregular).star
  | plus number greedy body ih =>
      cases number with
      | some number => cases hregular
      | none =>
          cases greedy with
          | false => cases hregular
          | true => exact (ih hregular).plus
  | _ => cases hregular

/-! ## Searches -/

section Searches

variable {pattern : Pattern} {cursor : Cursor}

/-- A pattern matches at a place if it takes some of what comes next there. -/
theorem isSome_matchAt? (hregular : pattern.isRegular = true) :
    (pattern.matchAt? cursor).isSome ↔
      ∃ taken after, cursor.rest = taken ++ after ∧ pattern.Takes taken := by
  rw [matchAt?, List.isSome_head?]
  constructor
  · intro h
    obtain ⟨stop, hstop⟩ := List.exists_mem_of_ne_nil _ h
    obtain ⟨taken, htakes, hmoves⟩ := reaches_of_mem_ends hstop
    exact ⟨taken, stop.rest, hmoves.text, htakes⟩
  · rintro ⟨taken, after, hrest, htakes⟩
    obtain ⟨stop, hstop, -⟩ := finds_of_isRegular hregular [] (.refl cursor) htakes hrest
    exact List.ne_nil_of_mem hstop

/-- A pattern occurs in a text if the text holds a piece that the pattern takes. -/
theorem occursIn_iff (hregular : pattern.isRegular = true) {names : List String} {text : String} :
    (pattern.regex names).occursIn text = true ↔
      ∃ before taken after, text.toList = before ++ taken ++ after ∧ pattern.Takes taken := by
  have hsome : (pattern.regex names).occursIn text = true ↔
      ∃ k ≤ text.toList.length, (pattern.matchAt? ((Cursor.start text.toList).skip k)).isSome := by
    rw [Regex.occursIn, regex, Option.isSome_map, Option.isSome_iff_ne_none, ne_eq, search?,
      searchFrom?_eq_none]
    simp only [not_forall, ← ne_eq, ← Option.isSome_iff_ne_none, exists_prop]
    rfl
  rw [hsome]
  constructor
  · rintro ⟨k, _, h⟩
    obtain ⟨taken, after, hrest, htakes⟩ := (isSome_matchAt? hregular).mp h
    refine ⟨text.toList.take k, taken, after, ?_, htakes⟩
    rw [Cursor.rest_skip] at hrest
    rw [List.append_assoc, ← hrest]
    exact (List.take_append_drop k text.toList).symm
  · rintro ⟨before, taken, after, htext, htakes⟩
    refine ⟨before.length, ?_, (isSome_matchAt? hregular).mpr ⟨taken, after, ?_, htakes⟩⟩
    · rw [htext, List.length_append, List.length_append]
      omega
    · rw [Cursor.rest_skip]
      show text.toList.drop before.length = _
      rw [htext, List.append_assoc, List.drop_left]

end Searches

end Pattern

end QubitScript
