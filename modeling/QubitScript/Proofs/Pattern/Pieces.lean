import QubitScript.Pattern.Reading

/-!
# Reading piece by piece

The reader takes a piece off the text at every step and changes the groups that are open. So a text
is read by steps one after the other, and fuel for every step is enough.
-/

namespace QubitScript.Pattern

/-- So many pieces are taken off a text, and the open groups change with each of them. -/
inductive Reads : Nat → Groups → List Char → Groups → List Char → Prop
  | done {groups : Groups} {text : List Char} : Reads 0 groups text groups text
  | piece {count : Nat} {groups between after : Groups} {text middle rest : List Char} :
      readPiece? groups text = some (between, middle) → Reads count between middle after rest →
      Reads (count + 1) groups text after rest

section Reads

variable {count more fuel : Nat} {groups between after : Groups} {text middle rest : List Char}
  {written : Written}

theorem Reads.append (first : Reads count groups text between middle)
    (second : Reads more between middle after rest) :
    Reads (count + more) groups text after rest := by
  induction first with
  | done => rwa [Nat.zero_add]
  | piece hpiece _ ih =>
      rw [Nat.succ_add]
      exact .piece hpiece (ih second)

/-- What is read as a piece, and what it does. -/
theorem readPiece?_eq_some : readPiece? groups text = some (after, rest) ↔
    ∃ current piece, groups.head? = some current ∧ piece? current.flags text = some (piece, rest) ∧
      piece.act groups = some after := by
  simp only [readPiece?, bind, Option.bind_eq_some_iff, Prod.exists, pure, Option.some.injEq,
    Prod.mk.injEq]
  constructor
  · rintro ⟨current, hcurrent, piece, _, hpiece, _, hact, rfl, rfl⟩
    exact ⟨current, piece, hcurrent, hpiece, hact⟩
  · rintro ⟨current, piece, hcurrent, hpiece, hact⟩
    exact ⟨current, hcurrent, piece, rest, hpiece, after, hact, rfl, rfl⟩

theorem readPiece?_nil : readPiece? groups [] = none := by
  rw [Option.eq_none_iff_forall_ne_some]
  rintro ⟨after, rest⟩ h
  obtain ⟨_, _, -, hpiece, -⟩ := readPiece?_eq_some.mp h
  cases hpiece

theorem readGroups?_nil : readGroups? fuel groups [] = some written ↔
    ∃ group, groups = [group] ∧ group.content = written := by
  match groups with
  | [] => simp [readGroups?]
  | [current] => simp [readGroups?]
  | _ :: _ :: _ => simp [readGroups?]

theorem readGroups?_zero (groups : Groups) (c : Char) (rest : List Char) :
    readGroups? 0 groups (c :: rest) = none := by
  match groups with
  | [] => rfl
  | [_] => rfl
  | _ :: _ :: _ => rfl

theorem readGroups?_cons (fuel : Nat) (groups : Groups) (c : Char) (rest : List Char) :
    readGroups? (fuel + 1) groups (c :: rest) =
      (readPiece? groups (c :: rest)).bind fun (groups, rest) => readGroups? fuel groups rest := by
  match groups with
  | [] => rfl
  | [_] => rfl
  | _ :: _ :: _ => rfl

/-- A text is read step by step, in no more steps than the fuel lasts for. -/
theorem readGroups?_eq_some : ∀ {groups : Groups} {text : List Char},
    readGroups? fuel groups text = some written ↔ ∃ count current,
      count ≤ fuel ∧ Reads count groups text [current] [] ∧ current.content = written := by
  -- At the end of the text the fuel does not matter.
  have atEnd {fuel : Nat} {groups : Groups} : readGroups? fuel groups [] = some written ↔
      ∃ count current, count ≤ fuel ∧ Reads count groups [] [current] [] ∧
        current.content = written := by
    rw [readGroups?_nil]
    constructor
    · rintro ⟨current, rfl, hcontent⟩
      exact ⟨0, current, Nat.zero_le _, .done, hcontent⟩
    · rintro ⟨count, current, -, hreads, hcontent⟩
      cases hreads with
      | done => exact ⟨current, rfl, hcontent⟩
      | piece hpiece _ =>
          rw [readPiece?_nil] at hpiece
          cases hpiece
  induction fuel with
  | zero =>
      intro groups text
      cases text with
      | nil => exact atEnd
      | cons c text =>
          rw [readGroups?_zero]
          refine ⟨nofun, ?_⟩
          rintro ⟨count, current, hcount, hreads, -⟩
          cases hreads with
          | piece _ _ => cases hcount
  | succ fuel ih =>
      intro groups text
      cases text with
      | nil => exact atEnd
      | cons c text =>
          rw [readGroups?_cons, Option.bind_eq_some_iff]
          constructor
          · rintro ⟨⟨between, middle⟩, hpiece, h⟩
            obtain ⟨count, current, hcount, hreads, hcontent⟩ := ih.mp h
            exact ⟨count + 1, current, Nat.succ_le_succ hcount, .piece hpiece hreads, hcontent⟩
          · rintro ⟨count, current, hcount, hreads, hcontent⟩
            cases hreads with
            | piece hpiece hreads =>
                exact ⟨_, hpiece, ih.mpr ⟨_, current, Nat.le_of_succ_le_succ hcount, hreads,
                  hcontent⟩⟩

end Reads

/-- A pattern text begins with one open group, which holds the whole pattern in the end. -/
theorem read?_eq_some {dialect : Dialect} {text : String} {written : Written} :
    Written.read? dialect text = some written ↔ written.isAccepted = true ∧ ∃ count current,
      count ≤ text.toList.length ∧
      Reads count [.new .enclosing dialect.flags] text.toList [current] [] ∧
      current.content = written := by
  rw [Written.read?, Option.filter_eq_some_iff, readGroups?_eq_some, and_comm]

end QubitScript.Pattern
