import QubitScript.Proofs.Line.Splitting

/-!
# Arguments and calls of them

What a call is split into can be put together again: the arguments have no comma outside of
parentheses and no blanks at their ends, so the call that is made of them is split into the same
arguments.
-/

namespace QubitScript

open QubitScript.Text

/-! ## Trimmed texts -/

namespace Text

theorem trim_trim (text : List Char) : trim (trim text) = trim text := by
  have hfront : (trim text).dropWhile isBlank = trim text := by
    have hdropped : (text.dropWhile isBlank).dropWhile isBlank = text.dropWhile isBlank :=
      List.dropWhile_idempotent _ _
    have hprefix : trim text <+: text.dropWhile isBlank := List.rdropWhile_prefix _ _
    cases htrim : trim text with
    | nil => rfl
    | cons c rest =>
        rw [htrim] at hprefix
        obtain ⟨more, hmore⟩ := hprefix
        rw [← hmore] at hdropped
        exact List.dropWhile_cons_of_neg (List.dropWhile_eq_self_iff.mp hdropped (Nat.succ_pos _))
  rw [trim_eq (trim text), hfront, trim_eq, List.rdropWhile_idempotent]

end Text

namespace Whole

variable {text : List Char}

theorem dropWhile_isBlank (h : Whole text) : Whole (text.dropWhile isBlank) := by
  induction h with
  | nil => exact .nil
  | @char c rest hc hcomma hrest ih =>
      rw [List.dropWhile_cons]
      split
      · exact ih
      · exact .char hc hcomma hrest
  | nested hinner hrest _ =>
      rw [List.dropWhile_cons_of_neg (by decide)]
      exact .nested hinner hrest

/-- A blank at the end of a piece is in no parentheses. -/
theorem of_append_blank {blank : Char} (h : Whole text) (hblank : isBlank blank = true) :
    ∀ {front : List Char}, text = front ++ [blank] → Whole front := by
  induction h with
  | nil => exact fun h => absurd (congrArg List.length h) (by simp)
  | char hc hcomma _ ih =>
      intro front h
      cases front with
      | nil => exact .nil
      | cons d front =>
          obtain ⟨rfl, hrest⟩ := List.cons.inj h
          exact .char hc hcomma (ih hrest)
  | @nested inner rest hinner _ ih =>
      intro front h
      rcases List.eq_nil_or_concat' rest with rfl | ⟨others, last, rfl⟩
      · have hlast := congrArg List.getLast? h
        rw [← List.cons_append, List.getLast?_concat, List.getLast?_concat] at hlast
        cases hlast
        exact absurd hblank (by decide)
      · have hparts : '(' :: (inner ++ ')' :: (others ++ [last])) =
            '(' :: (inner ++ ')' :: others) ++ [last] := by simp
        obtain ⟨rfl, hlast⟩ := List.append_inj' (hparts.symm.trans h) rfl
        cases hlast
        exact .nested hinner (ih rfl)

theorem trim (h : Whole text) : Whole (trim text) := by
  rw [trim_eq]
  have hdropped := h.dropWhile_isBlank
  generalize text.dropWhile isBlank = dropped at hdropped
  induction dropped using List.reverseRecOn with
  | nil => exact .nil
  | append_singleton front last ih =>
      rw [List.rdropWhile_concat]
      split
      next hblank => exact ih (hdropped.of_append_blank hblank rfl)
      next => exact hdropped

theorem enclosed_append (h : Whole text) {rest : List Char} (hrest : Enclosed rest) :
    Enclosed (text ++ rest) := by
  induction h with
  | nil => exact hrest
  | char hc _ _ ih => exact .char hc ih
  | nested hinner _ ih =>
      rw [List.cons_append, List.append_assoc, List.cons_append]
      exact .nested hinner ih

end Whole

theorem Parted.whole {text : List Char} {pieces : List (List Char)} (h : Parted text pieces) :
    ∀ piece ∈ pieces, Whole piece := by
  induction h with
  | last hwhole => exact List.forall_mem_singleton.mpr hwhole
  | more hwhole _ ih => exact List.forall_mem_cons.mpr ⟨hwhole, ih⟩

theorem Parted.enclosed {text : List Char} {pieces : List (List Char)} (h : Parted text pieces) :
    Enclosed text := by
  induction h with
  | last hwhole =>
      have henclosed := hwhole.enclosed_append .nil
      rwa [List.append_nil] at henclosed
  | more hwhole _ ih => exact hwhole.enclosed_append (.char plain_comma ih)

theorem Parted.trim_ne_nil {text : List Char} {pieces : List (List Char)} (h : Parted text pieces)
    (hpieces : ∀ piece ∈ pieces, trim piece ≠ []) : trim text ≠ [] := by
  cases h with
  | last => exact hpieces _ List.mem_cons_self
  | more =>
      intro hblank
      exact absurd (trim_eq_nil.mp hblank ',' (by simp)) (by decide)

/-! ## Arguments -/

/-- A text that a call can have for an argument. -/
structure IsArgument (text : List Char) : Prop where
  whole : Whole text
  trimmed : trim text = text
  nonempty : text ≠ []

variable {arguments : List (List Char)}

theorem isArgument_of_splitArguments {inner : List Char} (hinner : Enclosed inner)
    (h : Call.splitArguments inner = .ok arguments) : ∀ text ∈ arguments, IsArgument text := by
  obtain ⟨pieces, hpieces⟩ := parted_of_enclosed hinner
  by_cases hblank : trim inner = []
  · rw [Call.splitArguments_blank hblank] at h
    cases h
    nofun
  · rw [Call.splitArguments_parted hpieces hblank] at h
    split at h
    · cases h
    next hempty =>
        cases h
        intro text htext
        obtain ⟨piece, hpiece, rfl⟩ := List.mem_map.mp htext
        exact ⟨(hpieces.whole piece hpiece).trim, trim_trim piece,
          fun hnone => hempty ⟨piece, hpiece, hnone⟩⟩

theorem parted_intercalate (h : ∀ text ∈ arguments, Whole text) (hne : arguments ≠ []) :
    Parted ([','].intercalate arguments) arguments := by
  induction arguments with
  | nil => exact absurd rfl hne
  | cons text arguments ih =>
      obtain ⟨htext, hothers⟩ := List.forall_mem_cons.mp h
      cases arguments with
      | nil =>
          rw [List.intercalate_singleton]
          exact .last htext
      | cons other others =>
          rw [List.intercalate_cons_of_ne_nil (List.cons_ne_nil _ _), List.append_assoc]
          exact .more htext (ih hothers (List.cons_ne_nil _ _))

theorem enclosed_intercalate (h : ∀ text ∈ arguments, IsArgument text) :
    Enclosed ([','].intercalate arguments) := by
  by_cases hne : arguments = []
  · rw [hne]
    exact .nil
  · exact (parted_intercalate (fun text htext => (h text htext).whole) hne).enclosed

/-- Arguments between commas are split into the same arguments. -/
theorem splitArguments_intercalate (h : ∀ text ∈ arguments, IsArgument text) :
    Call.splitArguments ([','].intercalate arguments) = .ok arguments := by
  by_cases hne : arguments = []
  · rw [hne]
    exact Call.splitArguments_blank rfl
  · have hparted := parted_intercalate (fun text htext => (h text htext).whole) hne
    have hfilled : ∀ text ∈ arguments, trim text ≠ [] := by
      intro text htext
      rw [(h text htext).trimmed]
      exact (h text htext).nonempty
    have hnone : ¬ ∃ text ∈ arguments, trim text = [] := fun ⟨text, htext, hblank⟩ =>
      hfilled text htext hblank
    have hsame : arguments.map trim = arguments.map id :=
      List.map_congr_left fun text htext => (h text htext).trimmed
    rw [Call.splitArguments_parted hparted (hparted.trim_ne_nil hfilled), if_neg hnone, hsame,
      List.map_id]

/-! ## Calls put together -/

section Assembled

variable {name : String} {arguments : List String}

theorem callText_assemble (hne : name.toList ≠ []) (hname : ∀ c ∈ name.toList, isWord c = true)
    (harguments : ∀ argument ∈ arguments, IsArgument argument.toList) :
    CallText (Call.assemble name arguments).toList name.toList
      ([','].intercalate (arguments.map String.toList)) where
  text := by
    have htext := Call.toList_assemble name.toList (arguments.map String.toList)
    simpa [List.map_map, Function.comp_def] using htext
  nonempty := hne
  word := hname
  enclosed := enclosed_intercalate (List.forall_mem_map.mpr harguments)

/-- A call that is put together from a name and arguments is split into these. -/
theorem splitCall_assemble (hne : name.toList ≠ []) (hname : ∀ c ∈ name.toList, isWord c = true)
    (harguments : ∀ argument ∈ arguments, IsArgument argument.toList) :
    splitCall (Call.assemble name arguments) = .ok (name, arguments) := by
  have hsplit := (callText_assemble hne hname harguments).split
  rw [splitArguments_intercalate (List.forall_mem_map.mpr harguments)] at hsplit
  refine splitCall_eq_ok.mpr ⟨_, _, hsplit, String.ofList_toList, ?_⟩
  simp [List.map_map, Function.comp_def]

end Assembled

/-- The arguments that a call token is split into. -/
theorem isArgument_of_callText {text inner front : List Char} {pieces : List (List Char)}
    (hcall : CallText text front inner) {name : List Char}
    (hsplit : Call.split text = .ok (name, pieces)) : ∀ piece ∈ pieces, IsArgument piece := by
  obtain ⟨_, hpieces, ⟨⟩⟩ := map_eq_ok.mp (hcall.split.symm.trans hsplit)
  exact isArgument_of_splitArguments hcall.enclosed hpieces

end QubitScript
