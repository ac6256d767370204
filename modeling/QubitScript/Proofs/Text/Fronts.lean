import Mathlib.Data.List.TakeWhile

/-!
# The front of a text

The characters at the front of a text that satisfy a condition, up to the first one that does not.
They are the same in a longer text once there is such a character.
-/

namespace QubitScript

variable {p : Char → Bool} {text after : List Char}

theorem takeWhile_append_of_head (h : ∀ c ∈ after.head?, p c = false) :
    (text ++ after).takeWhile p = text.takeWhile p := by
  induction text with
  | nil =>
      cases after with
      | nil => rfl
      | cons c after => exact List.takeWhile_cons_of_neg (by simp [h c rfl])
  | cons c text ih => rw [List.cons_append, List.takeWhile_cons, List.takeWhile_cons, ih]

theorem dropWhile_append_of_head (h : ∀ c ∈ after.head?, p c = false) :
    (text ++ after).dropWhile p = text.dropWhile p ++ after := by
  induction text with
  | nil =>
      cases after with
      | nil => rfl
      | cons c after => exact List.dropWhile_cons_of_neg (by simp [h c rfl])
  | cons c text ih =>
      rw [List.cons_append, List.dropWhile_cons, List.dropWhile_cons, ih]
      split <;> rfl

theorem takeWhile_append_of_dropWhile (h : text.dropWhile p ≠ []) :
    (text ++ after).takeWhile p = text.takeWhile p := by
  induction text with
  | nil => exact absurd rfl h
  | cons c text ih =>
      rw [List.dropWhile_cons] at h
      rw [List.cons_append, List.takeWhile_cons, List.takeWhile_cons]
      split
      next hc =>
        rw [if_pos hc] at h
        rw [ih h]
      next => rfl

theorem dropWhile_append_of_dropWhile (h : text.dropWhile p ≠ []) :
    (text ++ after).dropWhile p = text.dropWhile p ++ after := by
  rw [List.dropWhile_append, if_neg (by rwa [List.isEmpty_iff])]

theorem count_dropWhile {c : Char} (h : p c = false) :
    (text.dropWhile p).count c = text.count c := by
  induction text with
  | nil => rfl
  | cons d text ih =>
      rw [List.dropWhile_cons]
      split
      next hd =>
        have hne : d ≠ c := by
          rintro rfl
          rw [h] at hd
          cases hd
        rw [ih, List.count_cons_of_ne hne]
      next => rfl

end QubitScript
