import QubitScript.Pattern.Basic

/-!
# Places in a text

Where the characters between a cursor and a later place lead. Bytes are counted beside the
characters, so the place after some characters is never within one of them.
-/

namespace QubitScript

/-- The number of bytes that characters are written with. -/
def byteLength : List Char → Nat
  | [] => 0
  | c :: text => c.utf8Size + byteLength text

theorem byteLength_cons (c : Char) (text : List Char) :
    byteLength (c :: text) = c.utf8Size + byteLength text := rfl

namespace Cursor

theorem skip_add (cursor : Cursor) (m n : Nat) : (cursor.skip m).skip n = cursor.skip (m + n) := by
  induction m generalizing cursor with
  | zero => rw [Nat.zero_add, skip]
  | succ m ih => rw [Nat.succ_add, skip, skip, ih]

theorem rest_next (cursor : Cursor) : cursor.next.rest = cursor.rest.tail := by
  rw [next]
  split
  next hrest => rw [hrest, List.tail_nil]
  next hrest => rw [hrest, List.tail_cons]

theorem rest_skip (cursor : Cursor) (count : Nat) :
    (cursor.skip count).rest = cursor.rest.drop count := by
  induction count generalizing cursor with
  | zero => rfl
  | succ count ih => rw [skip, ih, rest_next, List.drop_tail]

theorem rest_skip_append {cursor : Cursor} {taken after : List Char}
    (h : cursor.rest = taken ++ after) : (cursor.skip taken.length).rest = after := by
  rw [rest_skip, h, List.drop_left]

theorem rest_skip_one {cursor : Cursor} {c : Char} {after : List Char}
    (h : cursor.rest = c :: after) : (cursor.skip 1).rest = after := by
  rw [rest_skip, h]
  rfl

theorem offset_le_skip (cursor : Cursor) (count : Nat) :
    cursor.offset ≤ (cursor.skip count).offset := by
  induction count generalizing cursor with
  | zero => exact Nat.le_refl _
  | succ count ih =>
      refine Nat.le_trans ?_ (ih cursor.next)
      rw [next]
      split
      · exact Nat.le_refl _
      · exact Nat.le_add_right _ _

theorem offset_lt_skip {cursor : Cursor} {count : Nat} (hcount : 0 < count)
    (hrest : cursor.rest ≠ []) : cursor.offset < (cursor.skip count).offset := by
  match count, hcount with
  | count + 1, _ =>
      refine Nat.lt_of_lt_of_le ?_ (offset_le_skip cursor.next count)
      rw [next]
      split
      next hempty => exact absurd hempty hrest
      next c _ _ => exact Nat.lt_add_of_pos_right c.utf8Size_pos

theorem offset_skip {cursor : Cursor} {taken after : List Char}
    (h : cursor.rest = taken ++ after) :
    (cursor.skip taken.length).offset = cursor.offset + byteLength taken := by
  induction taken generalizing cursor with
  | nil => rfl
  | cons c taken ih =>
      have hnext : cursor.next.rest = taken ++ after := by
        rw [rest_next, h]
        rfl
      rw [List.length_cons, skip, ih hnext, byteLength_cons, next, h]
      simp only [List.cons_append]
      omega

/-- Before a later place stands the last character on the way to it. -/
theorem before_skip {cursor : Cursor} {taken after : List Char} (h : cursor.rest = taken ++ after) :
    (cursor.skip taken.length).before = taken.getLast?.or cursor.before := by
  induction taken generalizing cursor with
  | nil => rfl
  | cons c taken ih =>
      have hnext : cursor.next.rest = taken ++ after := by
        rw [rest_next, h]
        rfl
      have hbefore : cursor.next.before = some c := by
        rw [next, h]
        rfl
      rw [List.length_cons, skip, ih hnext, hbefore, List.getLast?_cons]
      cases taken.getLast? <;> rfl

/-! ## The way to a place -/

theorem forget_next (cursor : Cursor) : cursor.next.forget = cursor.forget.next := by
  obtain ⟨before, offset, rest, groups, passed⟩ := cursor
  cases rest <;> rfl

theorem forget_skip (cursor : Cursor) (count : Nat) :
    (cursor.skip count).forget = cursor.forget.skip count := by
  induction count generalizing cursor with
  | zero => rfl
  | succ count ih => rw [skip, skip, ih, forget_next]

end Cursor

end QubitScript
