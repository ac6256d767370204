import QubitScript.Number.Power

/-!
# Sets of characters

A set of characters is kept as the ranges of its code points, in ascending order and with a gap
between neighbours, so that two sets with the same code points are the same value. The lemmas
`contains_union`, `contains_compl` and their like say which characters an operation leaves in a set.
-/

namespace QubitScript.Text

/-- Whether the ranges lie at `least` or above, in ascending order, each with a gap before the
next. -/
def ascending : (least : Nat) → List (Nat × Nat) → Bool
  | _, [] => true
  | least, (first, last) :: rest =>
    decide (least ≤ first) && decide (first ≤ last) && ascending (last + 2) rest

theorem ascending_cons {least first last : Nat} {rest : List (Nat × Nat)} :
    ascending least ((first, last) :: rest) = true ↔
      least ≤ first ∧ first ≤ last ∧ ascending (last + 2) rest = true := by
  simp [ascending, and_assoc]

theorem ascending_mono {low high : Nat} {ranges : List (Nat × Nat)} (hle : low ≤ high)
    (h : ascending high ranges = true) : ascending low ranges = true := by
  cases ranges with
  | nil => rfl
  | cons range rest =>
    obtain ⟨first, last⟩ := range
    rw [ascending_cons] at h ⊢
    exact ⟨Nat.le_trans hle h.1, h.2⟩

/-- A set of characters, given by inclusive ranges of code points. -/
structure CharSet where
  ranges : List (Nat × Nat)
  ordered : ascending 0 ranges = true
deriving DecidableEq, Repr

/-- Whether ranges in ascending order have a code point in common with the range from `first` to
`last`. -/
def meets (first last : Nat) : List (Nat × Nat) → Bool
  | [] => false
  | (low, high) :: rest =>
    decide (low ≤ last) && (decide (first ≤ high) || meets first last rest)

theorem meets_eq_false_of_lt {least code : Nat} {ranges : List (Nat × Nat)}
    (h : ascending least ranges = true) (hlt : code < least) : meets code code ranges = false := by
  cases ranges with
  | nil => rfl
  | cons range rest =>
    obtain ⟨low, high⟩ := range
    rw [ascending_cons] at h
    have hlow : ¬ low ≤ code := by omega
    simp [meets, hlow]

theorem meets_cons {least low high code : Nat} {rest : List (Nat × Nat)}
    (h : ascending least ((low, high) :: rest) = true) :
    meets code code ((low, high) :: rest) =
      (decide (low ≤ code ∧ code ≤ high) || meets code code rest) := by
  rw [ascending_cons] at h
  by_cases hlow : low ≤ code
  · simp [meets, hlow]
  · simp [meets, hlow, meets_eq_false_of_lt h.2.2 (by omega : code < high + 2)]

/-! ## Adding a range -/

/-- Adds a range, which takes in the ranges that it touches. -/
def insertRange (first last : Nat) : List (Nat × Nat) → List (Nat × Nat)
  | [] => [(first, last)]
  | (low, high) :: rest =>
    if last + 1 < low then (first, last) :: (low, high) :: rest
    else if high + 1 < first then (low, high) :: insertRange first last rest
    else insertRange (min first low) (max last high) rest

theorem ascending_insertRange {least first last : Nat} {ranges : List (Nat × Nat)}
    (h : ascending least ranges = true) (hleast : least ≤ first) (hle : first ≤ last) :
    ascending least (insertRange first last ranges) = true := by
  induction ranges generalizing least first last with
  | nil => simp [insertRange, ascending, hleast, hle]
  | cons range rest ih =>
    obtain ⟨low, high⟩ := range
    rw [ascending_cons] at h
    rw [insertRange]
    split
    · rw [ascending_cons, ascending_cons]
      exact ⟨hleast, hle, by omega, h.2⟩
    · split
      · rw [ascending_cons]
        exact ⟨h.1, h.2.1, ih h.2.2 (by omega) hle⟩
      · exact ih (ascending_mono (by omega) h.2.2) (by omega) (by omega)

theorem meets_insertRange {least first last code : Nat} {ranges : List (Nat × Nat)}
    (h : ascending least ranges = true) (hleast : least ≤ first) (hle : first ≤ last) :
    meets code code (insertRange first last ranges) =
      (decide (first ≤ code ∧ code ≤ last) || meets code code ranges) := by
  induction ranges generalizing least first last with
  | nil => simp [insertRange, meets]
  | cons range rest ih =>
    obtain ⟨low, high⟩ := range
    have hcons := ascending_cons.mp h
    rw [insertRange]
    split
    · refine meets_cons (ascending_cons.mpr ⟨hleast, hle, ?_⟩)
      exact ascending_cons.mpr ⟨by omega, hcons.2⟩
    · split
      · have hrest := ascending_insertRange hcons.2.2 (by omega : high + 2 ≤ first) hle
        rw [meets_cons (ascending_cons.mpr ⟨hcons.1, hcons.2.1, hrest⟩),
          ih hcons.2.2 (by omega) hle, meets_cons h, Bool.or_left_comm]
      · rw [ih (ascending_mono (by omega) hcons.2.2) (Nat.le_refl _) (by omega), meets_cons h,
          ← Bool.or_assoc, ← Bool.decide_or]
        congr 1
        rw [decide_eq_decide]
        omega

/-! ## The ranges between -/

/-- The last code point. -/
def lastCode : Nat := 0x10FFFF

theorem toNat_le_lastCode (c : Char) : c.toNat ≤ lastCode := by
  have h : c.toNat.isValidChar := c.valid
  rw [Nat.isValidChar] at h
  rw [lastCode]
  omega

/-- The ranges of code points from `start` on that the given ones leave out. -/
def gapsFrom (start : Nat) : List (Nat × Nat) → List (Nat × Nat)
  | [] => if start ≤ lastCode then [(start, lastCode)] else []
  | (first, last) :: rest =>
    if start < first then (start, first - 1) :: gapsFrom (last + 1) rest
    else gapsFrom (last + 1) rest

theorem ascending_gapsFrom {start : Nat} {ranges : List (Nat × Nat)}
    (h : ascending start ranges = true) : ascending start (gapsFrom start ranges) = true := by
  induction ranges generalizing start with
  | nil =>
    rw [gapsFrom]
    split
    · simpa [ascending] using by assumption
    · rfl
  | cons range rest ih =>
    obtain ⟨first, last⟩ := range
    rw [ascending_cons] at h
    have hrest := ih (ascending_mono (Nat.le_succ (last + 1)) h.2.2)
    rw [gapsFrom]
    split
    · rw [ascending_cons]
      exact ⟨Nat.le_refl _, by omega, ascending_mono (by omega) hrest⟩
    · exact ascending_mono (by omega) hrest

theorem meets_gapsFrom {start code : Nat} {ranges : List (Nat × Nat)}
    (h : ascending start ranges = true) (hcode : code ≤ lastCode) :
    meets code code (gapsFrom start ranges) =
      (decide (start ≤ code) && !meets code code ranges) := by
  induction ranges generalizing start with
  | nil =>
    rw [gapsFrom]
    split <;> simp [meets] <;> omega
  | cons range rest ih =>
    obtain ⟨first, last⟩ := range
    have hcons := ascending_cons.mp h
    have htail := ascending_mono (Nat.le_succ (last + 1)) hcons.2.2
    have hgaps := ascending_gapsFrom htail
    rw [gapsFrom]
    split
    · have hfirst : ascending start ((start, first - 1) :: gapsFrom (last + 1) rest) = true :=
        ascending_cons.mpr ⟨Nat.le_refl _, by omega, ascending_mono (by omega) hgaps⟩
      rw [meets_cons hfirst, ih htail, meets_cons h]
      grind [meets_eq_false_of_lt]
    · rw [ih htail, meets_cons h]
      grind [meets_eq_false_of_lt]

namespace CharSet

def contains (set : CharSet) (c : Char) : Bool := meets c.toNat c.toNat set.ranges

def empty : CharSet := ⟨[], rfl⟩

/-- Adds the characters with code points from `first` to `last`. -/
def addRange (set : CharSet) (first last : Nat) : CharSet :=
  if h : first ≤ last then
    ⟨insertRange first last set.ranges, ascending_insertRange set.ordered (Nat.zero_le _) h⟩
  else set

theorem contains_addRange (set : CharSet) (first last : Nat) (c : Char) :
    (set.addRange first last).contains c =
      (decide (first ≤ c.toNat ∧ c.toNat ≤ last) || set.contains c) := by
  rw [addRange]
  split
  · exact meets_insertRange set.ordered (Nat.zero_le _) ‹_›
  · have : ¬ (first ≤ c.toNat ∧ c.toNat ≤ last) := by omega
    simp [this]

/-- The characters from the first to the last. -/
def range (first last : Char) : CharSet := empty.addRange first.toNat last.toNat

def single (c : Char) : CharSet := range c c

/-- The character of a set that has exactly one. -/
def single? (set : CharSet) : Option Char :=
  match set.ranges with
  | [(first, last)] => if first = last then some (Char.ofNat first) else none
  | _ => none

/-- The characters of either set. -/
def union (left right : CharSet) : CharSet :=
  let add (set : CharSet) (range : Nat × Nat) : CharSet := set.addRange range.1 range.2
  if left.ranges.length ≤ right.ranges.length then left.ranges.foldl add right
  else right.ranges.foldl add left

theorem contains_foldl_addRange {least : Nat} {ranges : List (Nat × Nat)}
    (h : ascending least ranges = true) (set : CharSet) (c : Char) :
    (ranges.foldl (fun set range => set.addRange range.1 range.2) set).contains c =
      (set.contains c || meets c.toNat c.toNat ranges) := by
  induction ranges generalizing least set with
  | nil => simp [meets]
  | cons range rest ih =>
    obtain ⟨first, last⟩ := range
    rw [List.foldl_cons, ih (ascending_cons.mp h).2.2, contains_addRange, meets_cons h]
    simp [Bool.or_comm, Bool.or_left_comm, Bool.or_assoc]

theorem contains_union (left right : CharSet) (c : Char) :
    (left.union right).contains c = (left.contains c || right.contains c) := by
  unfold union
  dsimp only
  split
  · rw [contains_foldl_addRange left.ordered, Bool.or_comm]
    rfl
  · exact contains_foldl_addRange right.ordered left c

/-- All other characters. -/
def compl (set : CharSet) : CharSet := ⟨gapsFrom 0 set.ranges, ascending_gapsFrom set.ordered⟩

theorem contains_compl (set : CharSet) (c : Char) : set.compl.contains c = !set.contains c := by
  have := meets_gapsFrom set.ordered (toNat_le_lastCode c)
  simpa [contains, compl] using this

/-- The characters of both sets. -/
def inter (left right : CharSet) : CharSet := (left.compl.union right.compl).compl

theorem contains_inter (left right : CharSet) (c : Char) :
    (left.inter right).contains c = (left.contains c && right.contains c) := by
  simp [inter, contains_compl, contains_union]

/-- The characters of the first set that the second one lacks. -/
def diff (left right : CharSet) : CharSet := left.inter right.compl

theorem contains_diff (left right : CharSet) (c : Char) :
    (left.diff right).contains c = (left.contains c && !right.contains c) := by
  simp [diff, contains_inter, contains_compl]

/-- The characters of exactly one of the sets. -/
def symmDiff (left right : CharSet) : CharSet := (left.diff right).union (right.diff left)

end CharSet

end QubitScript.Text
