import QubitScript.Pattern.Compiled
import QubitScript.Proofs.Pattern.Language

/-!
# Searches for the first match

A pattern is tried at one place after another. So a search finds a match at the place where it
begins just when the pattern matches there.
-/

namespace QubitScript

variable {pattern : Pattern} {names : List String} {text : List Char} {place : Nat}

theorem Cursor.length_rest_start_skip (text : List Char) (place : Nat) :
    ((start text).skip place).rest.length = text.length - place := by
  rw [rest_skip, List.length_drop, start]

namespace Pattern

variable {cursor start stop : Cursor} {count : Nat}

/-- A search goes on from place to place as long as the pattern does not match. -/
theorem searchFrom?_eq_some : pattern.searchFrom? count cursor = some (start, stop) ↔
    ∃ k ≤ count, start = cursor.skip k ∧ pattern.matchAt? start = some stop ∧
      ∀ j < k, pattern.matchAt? (cursor.skip j) = none := by
  induction count generalizing cursor with
  | zero =>
      rw [searchFrom?, Option.map_eq_some_iff]
      constructor
      · rintro ⟨_, h, ⟨⟩⟩
        exact ⟨0, Nat.le_refl 0, rfl, h, nofun⟩
      · rintro ⟨k, hk, hstart, h, -⟩
        cases Nat.le_zero.mp hk
        subst hstart
        exact ⟨stop, h, rfl⟩
  | succ count ih =>
      rw [searchFrom?]
      cases hhere : pattern.matchAt? cursor with
      | some found =>
          constructor
          · rintro ⟨⟩
            exact ⟨0, Nat.zero_le _, rfl, hhere, nofun⟩
          · rintro ⟨k, -, hstart, h, hnone⟩
            cases k with
            | zero =>
                subst hstart
                cases hhere.symm.trans h
                rfl
            | succ k => cases hhere.symm.trans (hnone 0 (Nat.succ_pos k))
      | none =>
          dsimp only
          rw [ih]
          constructor
          · rintro ⟨k, hk, hstart, h, hnone⟩
            refine ⟨k + 1, Nat.succ_le_succ hk, hstart, h, fun j hj => ?_⟩
            cases j with
            | zero => exact hhere
            | succ j => exact hnone j (Nat.lt_of_succ_lt_succ hj)
          · rintro ⟨k, hk, hstart, h, hnone⟩
            cases k with
            | zero =>
                subst hstart
                cases hhere.symm.trans h
            | succ k =>
                exact ⟨k, Nat.le_of_succ_le_succ hk, hstart, h, fun j hj =>
                  hnone (j + 1) (Nat.succ_lt_succ hj)⟩

theorem searchFrom?_eq_none : pattern.searchFrom? count cursor = none ↔
    ∀ k ≤ count, pattern.matchAt? (cursor.skip k) = none := by
  induction count generalizing cursor with
  | zero =>
      rw [searchFrom?, Option.map_eq_none_iff]
      constructor
      · intro h k hk
        cases Nat.le_zero.mp hk
        exact h
      · exact fun h => h 0 (Nat.le_refl 0)
  | succ count ih =>
      rw [searchFrom?]
      cases hhere : pattern.matchAt? cursor with
      | some found =>
          refine ⟨nofun, fun h => ?_⟩
          cases hhere.symm.trans (h 0 (Nat.zero_le _))
      | none =>
          dsimp only
          rw [ih]
          constructor
          · intro h k hk
            cases k with
            | zero => exact hhere
            | succ k => exact h k (Nat.le_of_succ_le_succ hk)
          · exact fun h k hk => h (k + 1) (Nat.succ_le_succ hk)

/-- Where a search finds a match, and what the match takes. -/
theorem span_of_search? (hplace : place ≤ text.length)
    (h : pattern.search? ((Cursor.start text).skip place) = some (start, stop)) :
    place ≤ (start.found text stop).whole.start ∧
      (start.found text stop).whole.start ≤ (start.found text stop).whole.stop ∧
      (start.found text stop).whole.stop ≤ text.length := by
  obtain ⟨k, hk, hstart, hmatch, -⟩ := searchFrom?_eq_some.mp h
  obtain ⟨taken, -, hmoves⟩ := reaches_of_mem_ends (List.mem_of_head? hmatch)
  rw [Cursor.length_rest_start_skip] at hk
  have hleft : start.rest.length = text.length - (place + k) := by
    rw [hstart, Cursor.skip_add, Cursor.length_rest_start_skip]
  have hlength := congrArg List.length hmoves.text
  rw [List.length_append] at hlength
  simp only [Cursor.found, Span.ofLeft]
  omega

end Pattern

/-! ## Compiled patterns -/

namespace Regex

theorem matchAt?_eq_some {regex : Regex} {found : Found} :
    regex.matchAt? text place = some found ↔
      regex.search? text place = some found ∧ found.whole.start = place := by
  rw [matchAt?, Option.filter_eq_some_iff, beq_iff_eq]

end Regex

namespace Pattern

theorem regex_matchAt? (hplace : place ≤ text.length) :
    (pattern.regex names).matchAt? text place =
      (pattern.matchAt? ((Cursor.start text).skip place)).map
        (((Cursor.start text).skip place).found text) := by
  refine Option.ext fun found => ?_
  rw [Regex.matchAt?_eq_some, Option.map_eq_some_iff]
  have hlength : ((Cursor.start text).skip place).rest.length = text.length - place :=
    Cursor.length_rest_start_skip text place
  have hsearch : (pattern.regex names).search? text place = some found ↔
      ∃ start stop, pattern.search? ((Cursor.start text).skip place) = some (start, stop) ∧
        start.found text stop = found := by
    simp only [regex, Option.map_eq_some_iff, Prod.exists]
  rw [hsearch]
  constructor
  · rintro ⟨⟨start, stop, h, rfl⟩, hwhole⟩
    obtain ⟨k, hk, rfl, hmatch, -⟩ := searchFrom?_eq_some.mp h
    rw [hlength] at hk
    have hstart : text.length - (((Cursor.start text).skip place).skip k).rest.length = place :=
      hwhole
    rw [Cursor.skip_add, Cursor.length_rest_start_skip] at hstart
    obtain rfl : k = 0 := by omega
    exact ⟨stop, hmatch, rfl⟩
  · rintro ⟨stop, hmatch, rfl⟩
    refine ⟨⟨_, stop, searchFrom?_eq_some.mpr ⟨0, Nat.zero_le _, rfl, hmatch, nofun⟩, rfl⟩, ?_⟩
    simp only [Cursor.found, Span.ofLeft, hlength]
    omega

end Pattern

end QubitScript
