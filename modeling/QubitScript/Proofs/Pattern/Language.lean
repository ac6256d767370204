import Mathlib.Data.List.Forall2
import QubitScript.Proofs.Pattern.Places

/-!
# The texts that patterns take

The matches of a pattern are places in a text. Between the cursor and such a place lies a text that
the pattern takes, and only groups of the pattern are passed on the way to it. Assertions take no
text, so they are left out of account here.
-/

namespace QubitScript

open QubitScript.Text

namespace Pattern

/-- The texts that a pattern takes, wherever its assertions may hold. -/
inductive Takes : Pattern → List Char → Prop
  | empty : Takes .empty []
  | oneOfEach {sets : List CharSet} {taken : List Char} :
      List.Forall₂ (fun set c => set.contains c = true) sets taken →
      Takes (.oneOfEach sets) taken
  | assert {condition : Assertion} : Takes (.assert condition) []
  | seq {first second : Pattern} {before after : List Char} :
      Takes first before → Takes second after → Takes (.seq first second) (before ++ after)
  | left {number : Option Nat} {left right : Pattern} {taken : List Char} :
      Takes left taken → Takes (.alt number left right) taken
  | right {number : Option Nat} {left right : Pattern} {taken : List Char} :
      Takes right taken → Takes (.alt number left right) taken
  | timesDone {body : Pattern} : Takes (.times 0 body) []
  | timesRound {count : Nat} {body : Pattern} {before after : List Char} :
      Takes body before → Takes (.times count body) after →
      Takes (.times (count + 1) body) (before ++ after)
  | upToDone {number : Option Nat} {greedy : Bool} {most : Nat} {body : Pattern} :
      Takes (.upTo number greedy most body) []
  | upToRound {number : Option Nat} {greedy : Bool} {most : Nat} {body : Pattern}
      {before after : List Char} :
      Takes body before → Takes (.upTo number greedy most body) after →
      Takes (.upTo number greedy (most + 1) body) (before ++ after)
  | starDone {number : Option Nat} {greedy : Bool} {body : Pattern} :
      Takes (.star number greedy body) []
  | starRound {number : Option Nat} {greedy : Bool} {body : Pattern} {before after : List Char} :
      Takes body before → Takes (.star number greedy body) after →
      Takes (.star number greedy body) (before ++ after)
  | plus {number : Option Nat} {greedy : Bool} {body : Pattern} {before after : List Char} :
      Takes body before → Takes (.star number greedy body) after →
      Takes (.plus number greedy body) (before ++ after)
  | group {name : String} {body : Pattern} {taken : List Char} :
      Takes body taken → Takes (.group name body) taken

theorem Takes.eq_singleton {set : CharSet} {taken : List Char}
    (h : (Pattern.oneOfEach [set]).Takes taken) : ∃ c, taken = [c] ∧ set.contains c = true := by
  cases h with
  | oneOfEach h =>
      obtain ⟨c, rest, hc, hrest, rfl⟩ := List.forall₂_cons_left_iff.mp h
      cases List.forall₂_nil_left_iff.mp hrest
      exact ⟨c, rfl, hc⟩

/-- What holds after no round, and after one more round if it held before, holds of whatever a loop
takes. -/
theorem Takes.star_induction {number : Option Nat} {greedy : Bool} {body : Pattern}
    {P : List Char → Prop} (done : P [])
    (round : ∀ before after, body.Takes before → P after → P (before ++ after))
    {taken : List Char} (h : (star number greedy body).Takes taken) : P taken := by
  generalize hpattern : star number greedy body = pattern at h
  induction h with
  | starDone => exact done
  | starRound hbefore _ _ ih =>
      cases hpattern
      exact round _ _ hbefore (ih rfl)
  | _ => cases hpattern

theorem Takes.forall_contains {number : Option Nat} {greedy : Bool} {set : CharSet}
    {taken : List Char} (h : (Pattern.star number greedy (.oneOfEach [set])).Takes taken) :
    ∀ c ∈ taken, set.contains c = true := by
  refine h.star_induction (P := fun taken => ∀ c ∈ taken, set.contains c = true) nofun ?_
  intro before after hbefore hafter c hc
  obtain ⟨d, rfl, hd⟩ := hbefore.eq_singleton
  rcases List.mem_cons.mp hc with rfl | hc
  · exact hd
  · exact hafter c hc

section Texts

variable {first second body : Pattern} {number : Option Nat} {greedy : Bool} {text : List Char}

theorem takes_seq : (seq first second).Takes text ↔
    ∃ before after, first.Takes before ∧ second.Takes after ∧ text = before ++ after := by
  constructor
  · intro h
    cases h with
    | seq hbefore hafter => exact ⟨_, _, hbefore, hafter, rfl⟩
  · rintro ⟨before, after, hbefore, hafter, rfl⟩
    exact .seq hbefore hafter

theorem takes_alt :
    (alt number first second).Takes text ↔ first.Takes text ∨ second.Takes text := by
  constructor
  · intro h
    cases h with
    | left h => exact .inl h
    | right h => exact .inr h
  · rintro (h | h)
    · exact .left h
    · exact .right h

/-- A loop takes the texts of its rounds, one after another. -/
theorem takes_star : (star number greedy body).Takes text ↔
    ∃ pieces : List (List Char), (∀ piece ∈ pieces, body.Takes piece) ∧ text = pieces.flatten := by
  constructor
  · refine fun h => h.star_induction (P := fun text => ∃ pieces : List (List Char),
      (∀ piece ∈ pieces, body.Takes piece) ∧ text = pieces.flatten) ⟨[], nofun, rfl⟩ ?_
    rintro before _ hbefore ⟨pieces, hpieces, rfl⟩
    exact ⟨before :: pieces, List.forall_mem_cons.mpr ⟨hbefore, hpieces⟩, rfl⟩
  · rintro ⟨pieces, hpieces, rfl⟩
    induction pieces with
    | nil => exact .starDone
    | cons piece pieces ih =>
        obtain ⟨hpiece, hothers⟩ := List.forall_mem_cons.mp hpieces
        exact .starRound hpiece (ih hothers)

theorem takes_plus : (plus number greedy body).Takes text ↔
    ∃ pieces : List (List Char), pieces ≠ [] ∧ (∀ piece ∈ pieces, body.Takes piece) ∧
      text = pieces.flatten := by
  constructor
  · intro h
    cases h with
    | plus hbefore hafter =>
        obtain ⟨pieces, hpieces, rfl⟩ := takes_star.mp hafter
        exact ⟨_ :: pieces, nofun, List.forall_mem_cons.mpr ⟨hbefore, hpieces⟩, rfl⟩
  · rintro ⟨pieces, hne, hpieces, rfl⟩
    cases pieces with
    | nil => exact absurd rfl hne
    | cons piece pieces =>
        obtain ⟨hpiece, hothers⟩ := List.forall_mem_cons.mp hpieces
        exact .plus hpiece (takes_star.mpr ⟨pieces, hothers, rfl⟩)

variable {set : CharSet}

theorem takes_char {c : Char} (hc : set.contains c = true) : (oneOfEach [set]).Takes [c] :=
  .oneOfEach (.cons hc .nil)

theorem takes_star_set : (star number greedy (oneOfEach [set])).Takes text ↔
    ∀ c ∈ text, set.contains c = true := by
  refine ⟨Takes.forall_contains, fun h => ?_⟩
  induction text with
  | nil => exact .starDone
  | cons c text ih =>
      obtain ⟨hc, hothers⟩ := List.forall_mem_cons.mp h
      exact .starRound (takes_char hc) (ih hothers)

theorem takes_plus_set : (plus number greedy (oneOfEach [set])).Takes text ↔
    text ≠ [] ∧ ∀ c ∈ text, set.contains c = true := by
  constructor
  · intro h
    cases h with
    | plus hbefore hafter =>
        obtain ⟨c, rfl, hc⟩ := hbefore.eq_singleton
        exact ⟨nofun, List.forall_mem_cons.mpr ⟨hc, hafter.forall_contains⟩⟩
  · rintro ⟨hne, h⟩
    cases text with
    | nil => exact absurd rfl hne
    | cons c text =>
        obtain ⟨hc, hothers⟩ := List.forall_mem_cons.mp h
        exact .plus (takes_char hc) (takes_star_set.mpr hothers)

end Texts

/-- The names of the groups in a pattern. -/
def names : Pattern → List String
  | empty | oneOfEach _ | assert _ => []
  | seq first second => first.names ++ second.names
  | alt _ left right => left.names ++ right.names
  | times _ body | upTo _ _ _ body | star _ _ body | plus _ _ body => body.names
  | group name body => name :: body.names

/-- The way from a cursor to a later place leads over the text `taken`, past groups with the given
names only. -/
structure Moves (names : List String) (taken : List Char) (cursor stop : Cursor) : Prop where
  place : stop.forget = (cursor.skip taken.length).forget
  text : cursor.rest = taken ++ stop.rest
  groups : ∀ capture ∈ stop.groups, capture ∈ cursor.groups ∨ capture.name ∈ names

/-- The way to a place is one of the pattern. -/
def Reaches (pattern : Pattern) (cursor stop : Cursor) : Prop :=
  ∃ taken, pattern.Takes taken ∧ Moves pattern.names taken cursor stop

namespace Moves

variable {names others : List String} {before after : List Char} {cursor middle stop : Cursor}

theorem refl : Moves names [] cursor cursor := ⟨rfl, rfl, fun _ h => .inl h⟩

theorem trans (first : Moves names before cursor middle) (second : Moves names after middle stop) :
    Moves names (before ++ after) cursor stop := by
  refine ⟨?_, ?_, fun capture hcapture => ?_⟩
  · rw [second.place, Cursor.forget_skip, first.place, ← Cursor.forget_skip, Cursor.skip_add,
      List.length_append]
  · rw [first.text, second.text, List.append_assoc]
  · rcases second.groups capture hcapture with h | h
    · exact first.groups capture h
    · exact .inr h

theorem mono (h : Moves names before cursor stop) (hsub : names ⊆ others) :
    Moves others before cursor stop :=
  ⟨h.place, h.text, fun capture hcapture =>
    (h.groups capture hcapture).imp_right fun hname => hsub hname⟩

end Moves

/-! ## The parts of a search -/

theorem moves_of_enter? {names : List String} {cursor entered : Cursor} {rounds : List Nat}
    {number : Option Nat} (h : cursor.enter? rounds number = some entered) :
    Moves names [] cursor entered := by
  cases number with
  | none =>
      cases h
      exact .refl
  | some number =>
      rw [Cursor.enter?] at h
      split at h
      · cases h
      · cases h
        exact ⟨rfl, rfl, fun _ hcapture => .inl hcapture⟩

theorem moves_of_takeEach? {sets : List CharSet} : ∀ {cursor stop : Cursor},
    cursor.takeEach? sets = some stop →
    ∃ taken, List.Forall₂ (fun set c => set.contains c = true) sets taken ∧
      Moves [] taken cursor stop := by
  induction sets with
  | nil =>
      intro cursor stop h
      cases h
      exact ⟨[], .nil, .refl⟩
  | cons set sets ih =>
      intro cursor stop h
      rw [Cursor.takeEach?] at h
      split at h
      next hhead =>
        match hrest : cursor.rest with
        | [] => simp [hrest] at hhead
        | c :: rest =>
            obtain ⟨taken, htaken, hmoves⟩ := ih h
            rw [hrest] at hhead
            refine ⟨c :: taken, .cons hhead htaken, hmoves.place, ?_, fun capture hcapture => ?_⟩
            · have := hmoves.text
              simp only [Cursor.next, hrest] at this
              rw [hrest, this, List.cons_append]
            · have := hmoves.groups capture hcapture
              simpa only [Cursor.next, hrest] using this
      next => cases h

theorem mem_record {found : List Cursor} {cursor stop : Cursor} (h : stop ∈ record found cursor) :
    stop ∈ found ∨ stop = cursor := by
  rw [record] at h
  split at h
  · exact .inl h
  · rcases List.mem_cons.mp h with h | h
    · exact .inr h
    · exact .inl h

/-- A place that a fold has come to was there before, or one of its steps has come to it. -/
theorem mem_of_mem_foldl {α β γ : Type} (view : β → List γ) {f : β → α → β} {P : α → Prop} {c : γ}
    {xs : List α} : ∀ {b : β}, c ∈ view (xs.foldl f b) →
    (∀ b, ∀ x ∈ xs, c ∈ view (f b x) → c ∈ view b ∨ P x) → c ∈ view b ∨ ∃ x ∈ xs, P x := by
  induction xs with
  | nil => exact fun h _ => .inl h
  | cons x xs ih =>
      intro b h step
      rcases ih h fun b y hy => step b y (.tail x hy) with h | ⟨y, hy, hP⟩
      · rcases step b x (.head xs) h with h | hP
        · exact .inl h
        · exact .inr ⟨x, .head xs, hP⟩
      · exact .inr ⟨y, .tail x hy, hP⟩

theorem mem_distinct {cursors : List Cursor} {stop : Cursor} (h : stop ∈ distinct cursors) :
    stop ∈ cursors := by
  rw [distinct, List.mem_reverse] at h
  rcases mem_of_mem_foldl id h fun _ _ _ => mem_record with h | h
  · cases h
  · obtain ⟨cursor, hcursor, rfl⟩ := h
    exact hcursor

section Rounds

variable {body : Pattern} {number : Option Nat} {greedy : Bool} {cursor stop : Cursor}

/-- A way of one pattern and a way of another one after it are a way of a pattern that takes what
they take. -/
theorem Reaches.append {first second whole : Pattern} {middle : Cursor}
    (hfirst : first.Reaches cursor middle) (hsecond : second.Reaches middle stop)
    (takes : ∀ {before after}, first.Takes before → second.Takes after →
      whole.Takes (before ++ after))
    (hnames : first.names ⊆ whole.names) (hothers : second.names ⊆ whole.names) :
    whole.Reaches cursor stop := by
  obtain ⟨before, hbefore, hmoves⟩ := hfirst
  obtain ⟨after, hafter, hmoves'⟩ := hsecond
  exact ⟨before ++ after, takes hbefore hafter, (hmoves.mono hnames).trans (hmoves'.mono hothers)⟩

theorem Reaches.of_entered {pattern : Pattern} {entered : Cursor} {rounds : List Nat}
    (h : cursor.enter? rounds number = some entered) (hreaches : pattern.Reaches entered stop) :
    pattern.Reaches cursor stop := by
  obtain ⟨taken, htaken, hmoves⟩ := hreaches
  exact ⟨taken, htaken, (moves_of_enter? h).trans hmoves⟩

theorem reaches_of_timesFrom {rounds : Nat → Cursor → List Cursor}
    (hrounds : ∀ round cursor stop, stop ∈ rounds round cursor → body.Reaches cursor stop)
    {count : Nat} : ∀ {cursors : List Cursor}, stop ∈ timesFrom rounds count cursors →
    ∃ cursor ∈ cursors, (times count body).Reaches cursor stop := by
  induction count with
  | zero => exact fun h => ⟨stop, h, [], .timesDone, .refl⟩
  | succ count ih =>
      intro cursors h
      obtain ⟨middle, hmiddle, hothers⟩ := ih h
      obtain ⟨cursor, hcursor, hround⟩ := List.mem_flatMap.mp (mem_distinct hmiddle)
      exact ⟨cursor, hcursor, (hrounds _ _ _ hround).append hothers .timesRound
        (List.Subset.refl _) (List.Subset.refl _)⟩

theorem reaches_of_upToFrom {outer : List Nat} {rounds : Nat → Cursor → List Cursor}
    (hrounds : ∀ round cursor stop, stop ∈ rounds round cursor → body.Reaches cursor stop)
    {most : Nat} : ∀ {cursor : Cursor} {descent : Descent},
    stop ∈ (upToFrom (fun round cursor => cursor.enter? (round :: outer) number) greedy rounds most
      cursor descent).found →
    stop ∈ descent.found ∨ (upTo number greedy most body).Reaches cursor stop := by
  induction most with
  | zero =>
      intro cursor descent h
      rcases mem_record h with h | rfl
      · exact .inl h
      · exact .inr ⟨[], .upToDone, .refl⟩
  | succ most ih =>
      intro cursor descent h
      rw [upToFrom] at h
      split at h
      · exact .inl h
      · split at h
        · exact .inl h
        next entered hentered =>
            -- The loop may stop here or go on, in one order or the other.
            have honward : ∀ descent : Descent,
                stop ∈ ((rounds most entered).foldl (fun descent cursor => upToFrom
                  (fun round cursor => cursor.enter? (round :: outer) number) greedy rounds most
                  cursor descent) descent).found →
                stop ∈ descent.found ∨
                  (upTo number greedy (most + 1) body).Reaches cursor stop := by
              intro descent h
              rcases mem_of_mem_foldl Descent.found h fun _ _ _ => ih with h | h
              · exact .inl h
              · obtain ⟨middle, hmiddle, hothers⟩ := h
                exact .inr (.of_entered hentered ((hrounds _ _ _ hmiddle).append hothers .upToRound
                  (List.Subset.refl _) (List.Subset.refl _)))
            have hhere : stop = entered →
                (upTo number greedy (most + 1) body).Reaches cursor stop := by
              rintro rfl
              exact .of_entered hentered ⟨[], .upToDone, .refl⟩
            split at h
            · rcases mem_record h with h | h
              · exact honward { descent with seen := (most, cursor.offset) :: descent.seen } h
              · exact .inr (hhere h)
            · rcases honward _ h with h | h
              · exact (mem_record h).imp_right hhere
              · exact .inr h

theorem reaches_of_loopFrom {outer : List Nat} {rounds : Cursor → List Cursor}
    (hrounds : ∀ cursor stop, stop ∈ rounds cursor → body.Reaches cursor stop) {fuel : Nat} :
    ∀ {cursor : Cursor} {found : List Cursor},
    stop ∈ loopFrom (·.enter? outer number) greedy rounds fuel cursor found →
    stop ∈ found ∨ (star number greedy body).Reaches cursor stop := by
  induction fuel with
  | zero =>
      intro cursor found h
      rw [loopFrom] at h
      cases hentered : cursor.enter? outer number with
      | none =>
          rw [hentered] at h
          exact .inl h
      | some entered =>
          rw [hentered] at h
          rcases mem_record h with h | rfl
          · exact .inl h
          · exact .inr (.of_entered hentered ⟨[], .starDone, .refl⟩)
  | succ fuel ih =>
      intro cursor found h
      rw [loopFrom] at h
      split at h
      · exact .inl h
      · split at h
        · exact .inl h
        next entered hentered =>
            -- A loop either takes a round more or stops here. A greedy one tries the round first.
            have honward : ∀ found : List Cursor,
                stop ∈ ((rounds entered).filter (entered.offset < ·.offset)).foldl
                  (fun found stop => loopFrom (·.enter? outer number) greedy rounds fuel stop found)
                  found →
                stop ∈ found ∨ (star number greedy body).Reaches cursor stop := by
              intro found h
              rcases mem_of_mem_foldl id h fun _ _ _ => ih with h | h
              · exact .inl h
              · obtain ⟨middle, hmiddle, hothers⟩ := h
                have hround := hrounds _ _ (List.mem_filter.mp hmiddle).1
                exact .inr (.of_entered hentered (hround.append hothers .starRound
                  (List.Subset.refl _) (List.Subset.refl _)))
            have hhere : stop = entered → (star number greedy body).Reaches cursor stop := by
              rintro rfl
              exact .of_entered hentered ⟨[], .starDone, .refl⟩
            split at h
            · rcases List.mem_cons.mp h with h | h
              · exact .inr (hhere h)
              · exact honward _ h
            · rcases honward _ h with h | h
              · exact (List.mem_cons.mp h).symm.imp_right hhere
              · exact .inr h

end Rounds

/-! ## Matches -/

/-- Every match of a pattern is reached on a way of the pattern. -/
theorem reaches_of_mem_ends {pattern : Pattern} : ∀ {rounds : List Nat} {cursor stop : Cursor},
    stop ∈ pattern.ends rounds cursor → pattern.Reaches cursor stop := by
  induction pattern with
  | empty =>
      intro rounds cursor stop h
      cases List.mem_singleton.mp h
      exact ⟨[], .empty, .refl⟩
  | oneOfEach sets =>
      intro rounds cursor stop h
      obtain ⟨taken, htaken, hmoves⟩ := moves_of_takeEach? (Option.mem_toList.mp h)
      exact ⟨taken, .oneOfEach htaken, hmoves⟩
  | assert condition =>
      intro rounds cursor stop h
      rw [ends] at h
      split at h
      · cases List.mem_singleton.mp h
        exact ⟨[], .assert, .refl⟩
      · cases h
  | seq first second ihFirst ihSecond =>
      intro rounds cursor stop h
      rw [ends] at h
      obtain ⟨middle, hmiddle, hstop⟩ := List.mem_flatMap.mp (mem_distinct h)
      exact (ihFirst hmiddle).append (ihSecond hstop) .seq (List.subset_append_left ..)
        (List.subset_append_right ..)
  | alt number left right ihLeft ihRight =>
      intro rounds cursor stop h
      rw [ends] at h
      split at h
      · cases h
      next entered hentered =>
          refine .of_entered hentered ?_
          rcases List.mem_append.mp h with h | h
          · obtain ⟨taken, htaken, hmoves⟩ := ihLeft h
            exact ⟨taken, .left htaken, hmoves.mono (List.subset_append_left ..)⟩
          · obtain ⟨taken, htaken, hmoves⟩ := ihRight h
            exact ⟨taken, .right htaken, hmoves.mono (List.subset_append_right ..)⟩
  | times count body ih =>
      intro rounds cursor stop h
      rw [ends] at h
      obtain ⟨start, hstart, hreaches⟩ := reaches_of_timesFrom (fun _ _ _ => ih) h
      cases List.mem_singleton.mp hstart
      exact hreaches
  | upTo number greedy most body ih =>
      intro rounds cursor stop h
      rw [ends, List.mem_reverse] at h
      rcases reaches_of_upToFrom (fun _ _ _ => ih) h with h | h
      · cases h
      · exact h
  | star number greedy body ih =>
      intro rounds cursor stop h
      rw [ends, List.mem_reverse] at h
      rcases reaches_of_loopFrom (fun _ _ => ih) h with h | h
      · cases h
      · exact h
  | plus number greedy body ih =>
      intro rounds cursor stop h
      rw [ends, List.mem_reverse] at h
      rcases mem_of_mem_foldl id h fun _ _ _ => reaches_of_loopFrom fun _ _ => ih with h | h
      · cases h
      · obtain ⟨middle, hmiddle, hothers⟩ := h
        exact (ih hmiddle).append hothers .plus (List.Subset.refl _) (List.Subset.refl _)
  | group name body ih =>
      intro rounds cursor stop h
      rw [ends] at h
      obtain ⟨inner, hinner, rfl⟩ := List.mem_map.mp h
      obtain ⟨taken, htaken, hmoves⟩ := ih hinner
      -- The group is passed last, after the groups within it.
      refine ⟨taken, .group htaken, hmoves.place, hmoves.text, fun passed hpassed => ?_⟩
      rcases List.mem_cons.mp hpassed with rfl | hpassed
      · exact .inr (.head _)
      · exact (hmoves.groups passed hpassed).imp_right (.tail name)

/-- A match that ends further on leaves less of the text. -/
theorem length_lt_of_mem_ends {pattern : Pattern} {rounds : List Nat} {cursor stop : Cursor}
    (hend : stop ∈ pattern.ends rounds cursor) (hlater : cursor.offset < stop.offset) :
    stop.rest.length < cursor.rest.length := by
  obtain ⟨taken, -, hmoves⟩ := reaches_of_mem_ends hend
  have hne : taken ≠ [] := by
    rintro rfl
    have hsame : stop.forget.offset = cursor.forget.offset := congrArg Cursor.offset hmoves.place
    exact Nat.ne_of_gt hlater hsame
  rw [hmoves.text, List.length_append]
  exact Nat.lt_add_of_pos_left (List.length_pos_of_ne_nil hne)

end Pattern

end QubitScript
