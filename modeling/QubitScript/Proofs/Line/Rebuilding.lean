import QubitScript.Proofs.Expr.Rereading
import QubitScript.Proofs.Line.Splitting

/-!
# Rebuilding calls

A call is split at its commas and put together again from the trimmed pieces. The splitter knows
nothing of literals, so the blanks beside such a comma are lost even where it is part of a literal,
and two such commas side by side leave an empty piece between them. Nothing else is changed.
-/

namespace QubitScript

open QubitScript.Expr QubitScript.Text

/-- A blank or a comma. Neither survives beside a comma that a call is cut at. -/
def isLost (c : Char) : Bool := isBlank c || c == ','

/-- The commas of a literal that is in the outer parentheses of a call, and in no inner ones, have
neither blanks nor other commas beside them. -/
def KeepsLiterals (text : List Char) : Prop :=
  ∀ before after, text = before ++ ',' :: after → before.count '(' = before.count ')' + 1 →
    InQuotes before →
    (∀ c ∈ before.getLast?, isLost c = false) ∧ ∀ c ∈ after.head?, isLost c = false

/-- The same of a text that comes after others in the outer parentheses of a call. -/
def KeepsAfter (before text : List Char) : Prop :=
  ∀ front after, text = front ++ ',' :: after → Balanced front → InQuotes (before ++ front) →
    (∀ c ∈ (before ++ front).getLast?, isLost c = false) ∧ ∀ c ∈ after.head?, isLost c = false

variable {text name inner before piece rest : List Char} {pieces : List (List Char)}

/-! ## Commas of a call -/

theorem keepsAfter_last (h : Whole piece) : KeepsAfter before (piece ++ [')']) := by
  intro front after htext hbalanced
  rcases place_in_append htext with ⟨more, hpiece⟩ | ⟨rest, -, hrest⟩
  · exact absurd hbalanced (h.not_balanced hpiece)
  · have hmem : ',' ∈ [')'] := by simp [hrest]
    exact absurd hmem (by decide)

/-- The first comma that cuts a text is the one after its first piece. -/
theorem keepsAfter_more (h : Whole piece) :
    KeepsAfter before (piece ++ ',' :: rest) ↔
      (InQuotes (before ++ piece) → (∀ c ∈ (before ++ piece).getLast?, isLost c = false) ∧
        ∀ c ∈ rest.head?, isLost c = false) ∧
      KeepsAfter (before ++ piece ++ [',']) rest := by
  have hbefore : ∀ front, before ++ (piece ++ ',' :: front) =
      before ++ piece ++ [','] ++ front := by
    simp
  constructor
  · intro keeps
    refine ⟨keeps piece rest rfl h.balanced, fun front after hrest hbalanced hquotes => ?_⟩
    rw [← hbefore] at hquotes ⊢
    refine keeps _ after ?_ ((balanced_comma h).mpr hbalanced) hquotes
    rw [hrest, List.append_assoc, List.cons_append]
  · rintro ⟨first, others⟩ front after htext hbalanced hquotes
    rcases place_in_append htext with ⟨more, hpiece⟩ | ⟨more, rfl, hmore⟩
    · exact absurd hbalanced (h.not_balanced hpiece)
    · cases more with
      | nil =>
          obtain ⟨-, rfl⟩ := List.cons.inj hmore
          rw [List.append_nil] at hquotes ⊢
          exact first hquotes
      | cons c more =>
          obtain ⟨rfl, hrest⟩ := List.cons.inj hmore
          rw [hbefore] at hquotes ⊢
          exact others more after hrest ((balanced_comma h).mp hbalanced) hquotes

/-- The commas that cut a call are those of the text in its parentheses. -/
theorem keepsLiterals_iff (h : CallText text name inner) :
    KeepsLiterals text ↔ KeepsAfter (name ++ ['(']) (inner ++ [')']) := by
  have hname : ∀ c, c = '(' ∨ c = ')' ∨ c = ',' → c ∉ name := by
    rintro c (rfl | rfl | rfl) <;> exact h.not_mem_name (by decide)
  have hdepth : ∀ front, (name ++ ['('] ++ front).count '(' =
      (name ++ ['('] ++ front).count ')' + 1 ↔ Balanced front := by
    intro front
    rw [List.append_assoc, List.singleton_append, List.count_append, List.count_append,
      List.count_cons_self, List.count_cons_of_ne (by decide), Balanced,
      List.count_eq_zero.mpr (hname '(' (.inl rfl)),
      List.count_eq_zero.mpr (hname ')' (.inr (.inl rfl)))]
    omega
  have htext : text = name ++ ['('] ++ (inner ++ [')']) := by
    rw [h.text, List.append_assoc]
    rfl
  constructor
  · intro keeps front after hinner hbalanced
    refine keeps _ after ?_ ((hdepth front).mpr hbalanced)
    rw [htext, hinner, List.append_assoc _ front]
  · intro keeps before after hcomma hcount hquotes
    rw [htext] at hcomma
    rcases place_in_append hcomma with ⟨more, hmore⟩ | ⟨front, rfl, hfront⟩
    · -- The comma would stand in the name.
      have hmem : ',' ∈ name ++ ['('] := by simp [hmore]
      rcases List.mem_append.mp hmem with hmem | hmem
      · exact absurd hmem (hname ',' (.inr (.inr rfl)))
      · exact absurd hmem (by decide)
    · exact keeps front after hfront ((hdepth front).mp hcount) hquotes

/-! ## Pieces and their blanks -/

theorem inQuotes_append_cons {c : Char} (hc : c ≠ '"') (front : List Char) :
    InQuotes (front ++ c :: piece) ↔ InQuotes (front ++ piece) := by
  rw [InQuotes, InQuotes, List.count_append, List.count_append, List.count_cons_of_ne hc]

/-- A piece between two separators loses the blanks at its ends. -/
theorem loses_trim (front after : List Char) {c d : Char} {opening closing : Expr.Token}
    (hc : IsSeparator c opening) (hd : IsSeparator d closing) (hpiece : trim piece ≠ [])
    (hline : '\n' ∉ piece) :
    Loses ((InQuotes front ∧ ∃ e ∈ piece.head?, isBlank e = true) ∨
        InQuotes (front ++ c :: piece) ∧ ∃ e ∈ piece.getLast?, isBlank e = true)
      (front ++ c :: (piece ++ d :: after)) (front ++ c :: (trim piece ++ d :: after)) := by
  have hbefore : ∀ e ∈ blanksBefore piece, LineBlank e := fun e he =>
    ⟨isBlank_of_mem_blanksBefore he, fun h => hline (h ▸ mem_of_mem_blanksBefore he)⟩
  have hafter : ∀ e ∈ blanksAfter piece, LineBlank e := fun e he =>
    ⟨isBlank_of_mem_blanksAfter he, fun h => hline (h ▸ mem_of_mem_blanksAfter he)⟩
  have first := loses_blanksAfter front hbefore hc
    (trim piece ++ (blanksAfter piece ++ d :: after))
  have second := loses_blanksBefore hd after (front ++ c :: trim piece) hafter
  have hwhole : blanksBefore piece ++ (trim piece ++ (blanksAfter piece ++ d :: after)) =
      piece ++ d :: after := by
    conv => rhs; rw [← trim_between piece]
    simp only [List.append_assoc]
  have hquotes : InQuotes (front ++ c :: trim piece) ↔ InQuotes (front ++ c :: piece) := by
    rw [inQuotes_append_cons hc.1, inQuotes_append_cons hc.1, InQuotes, InQuotes,
      List.count_append, List.count_append, count_trim (by decide)]
  simp only [List.append_assoc, List.cons_append] at second
  rw [hwhole] at first
  refine (first.trans second).congr ?_
  rw [blanksBefore_ne_nil, blanksAfter_ne_nil hpiece, hquotes]

theorem isLost_eq_false {c : Char} : isLost c = false ↔ isBlank c = false ∧ c ≠ ',' := by
  rw [isLost, Bool.or_eq_false_iff, beq_eq_false_iff_ne]

/-- When no piece is empty, commas that cut the text lose blanks and nothing else. -/
theorem keepsAfter_comma (before : List Char) (hwhole : Whole piece) (hpiece : trim piece ≠ [])
    (hrest : Parted rest pieces) (hpieces : ∀ p ∈ pieces, trim p ≠ []) :
    KeepsAfter before (piece ++ ',' :: (rest ++ [')'])) ↔
      (InQuotes (before ++ piece) → (¬ ∃ c ∈ piece.getLast?, isBlank c = true) ∧
        ¬ ∃ c ∈ rest.head?, isBlank c = true) ∧
      KeepsAfter (before ++ piece ++ [',']) (rest ++ [')']) := by
  obtain ⟨last, hlast⟩ := Option.ne_none_iff_exists'.mp
    (List.getLast?_eq_none_iff.not.mpr (ne_nil_of_trim hpiece))
  obtain ⟨first, hfirst, hcomma⟩ := hrest.exists_head hpieces
  have hcomma' := hwhole.getLast?_ne_comma last hlast
  rw [keepsAfter_more hwhole, List.getLast?_append, List.head?_append, hlast, hfirst]
  simp [isLost_eq_false, hcomma, hcomma']

/-- What a text in the outer parentheses of a call loses when it is put together again. -/
theorem loses_pieces (h : Parted text pieces) : ∀ (front : List Char) {c : Char}
    {opening : Expr.Token}, IsSeparator c opening → (∀ p ∈ pieces, trim p ≠ []) → '\n' ∉ text →
    Loses ((InQuotes front ∧ ∃ e ∈ text.head?, isBlank e = true) ∨
        ¬ KeepsAfter (front ++ [c]) (text ++ [')']) ∨
        InQuotes (front ++ c :: text) ∧ ∃ e ∈ text.getLast?, isBlank e = true)
      (front ++ c :: (text ++ [')']))
      (front ++ c :: ([','].intercalate (pieces.map trim) ++ [')'])) := by
  induction h with
  | last hwhole =>
      intro front c opening hc hpieces hline
      have piece := loses_trim front [] hc isSeparator_closeParen (hpieces _ (.head _)) hline
      rw [List.map_singleton, List.intercalate_singleton]
      refine piece.congr ?_
      simp only [keepsAfter_last hwhole, not_true_eq_false, false_or]
  | @more piece rest pieces hwhole hrest ih =>
      intro front c opening hc hpieces hline
      obtain ⟨hpiece, hothers⟩ := List.forall_mem_cons.mp hpieces
      simp only [List.mem_append, List.mem_cons, not_or] at hline
      obtain ⟨hline, -, hline'⟩ := hline
      have others := ih (front ++ c :: piece) isSeparator_comma hothers hline'
      have first := loses_trim front ([','].intercalate (pieces.map trim) ++ [')']) hc
        isSeparator_comma hpiece hline
      have hnonempty : pieces.map trim ≠ [] := by
        cases hrest <;> nofun
      have hrestne : rest ≠ [] := by
        obtain ⟨e, he, -⟩ := hrest.exists_head hothers
        rintro rfl
        cases he
      rw [List.map_cons, List.intercalate_cons_of_ne_nil hnonempty]
      simp only [List.append_assoc, List.cons_append, List.nil_append] at others first ⊢
      refine (others.trans first).congr ?_
      have hfront : front ++ [c] ++ piece = front ++ c :: piece := by simp
      have hfront' : front ++ c :: piece ++ [','] = front ++ c :: (piece ++ [',']) := by simp
      have keeps := keepsAfter_comma (front ++ [c]) hwhole hpiece hrest hothers
      rw [hfront, hfront'] at keeps
      rw [keeps, List.head?_append_of_ne_nil _ (ne_nil_of_trim hpiece),
        List.getLast?_append_of_ne_nil _ (List.cons_ne_nil _ _),
        List.getLast?_cons_of_ne_nil hrestne]
      -- Only the ends of the pieces beside the comma and the literal around it matter now.
      generalize InQuotes (front ++ c :: piece) = within
      generalize (∃ e ∈ piece.getLast?, isBlank e = true) = blankBefore
      generalize (∃ e ∈ rest.head?, isBlank e = true) = blankAfter
      generalize KeepsAfter _ _ = keepsRest
      generalize (InQuotes front ∧ _) = atFront
      generalize (InQuotes _ ∧ _) = atBack
      grind

/-! ## Empty pieces -/

theorem inQuotes_append_blanks {front : List Char} (h : trim piece = []) :
    InQuotes (front ++ piece) ↔ InQuotes front := by
  rw [InQuotes, InQuotes, List.count_append, ← count_trim (by decide) piece, h]
  rfl

theorem lineBlank_of_trim (h : trim piece = []) (hline : '\n' ∉ piece) :
    ∀ c ∈ piece, LineBlank c :=
  fun c hc => ⟨trim_eq_nil.mp h c hc, fun heq => hline (heq ▸ hc)⟩

/-- With nothing but blanks after a comma, what comes next is lost. -/
theorem exists_isLost (front : List Char) (h : trim piece = []) :
    ∃ c ∈ (front ++ [','] ++ piece).getLast?, isLost c = true := by
  rw [List.getLast?_append]
  cases hlast : piece.getLast? with
  | none => exact ⟨',', by simp, by decide⟩
  | some c =>
      refine ⟨c, rfl, ?_⟩
      rw [isLost, trim_eq_nil.mp h c (List.mem_of_getLast? hlast), Bool.true_or]

/-- If an expression has an empty piece, a literal has been cut there. -/
theorem not_keepsAfter (h : Parted text pieces) {line : Nat} {expr : Expr} :
    ∀ {front : List Char} {c : Char} {opening : Expr.Token}, IsSeparator c opening →
    opening = .openParen ∧ ¬ InQuotes front ∧ trim text ≠ [] ∨ opening = .comma ∧ c = ',' →
    '\n' ∉ front ++ c :: (text ++ [')']) →
    Expr.read (String.ofList (front ++ c :: (text ++ [')']))) line = .ok expr →
    (∃ p ∈ pieces, trim p = []) → ¬ KeepsAfter (front ++ [c]) (text ++ [')']) := by
  induction h with
  | @last piece _ =>
      intro front c opening hc hopening hline hread hempty
      have hpiece : trim piece = [] := by simpa using hempty
      have hblanks := lineBlank_of_trim hpiece fun h => hline (by simp [h])
      have hclosed : ¬ InQuotes front := by
        have hall := not_inQuotes_of_read hline hread
        rwa [inQuotes_append_cons hc.1, ← List.append_assoc, inQuotes_append_cons (by decide),
          List.append_nil, inQuotes_append_blanks hpiece] at hall
      have adjacent := adjacent_of_read hc isSeparator_closeParen hblanks hline hread hclosed
      rcases hopening with ⟨-, -, htext⟩ | ⟨rfl, -⟩
      · exact absurd hpiece htext
      · cases adjacent.2 rfl
  | @more piece rest pieces hwhole _ ih =>
      intro front c opening hc hopening hline hread hempty
      have htext : front ++ c :: (piece ++ ',' :: rest ++ [')']) =
          front ++ c :: (piece ++ ',' :: (rest ++ [')'])) := by simp
      have hrest : front ++ c :: (piece ++ ',' :: (rest ++ [')'])) =
          front ++ c :: piece ++ ',' :: (rest ++ [')']) := by simp
      rw [htext] at hline hread
      rw [List.append_assoc, List.cons_append, keepsAfter_more hwhole]
      rintro ⟨keepsFirst, keepsRest⟩
      rw [List.exists_mem_cons_iff] at hempty
      rcases hempty with hpiece | hothers
      · -- Within a literal its blanks are cut off, and elsewhere two separators are adjacent.
        by_cases hquotes : InQuotes front
        · rcases hopening with ⟨-, hclosed, -⟩ | ⟨-, rfl⟩
          · exact hclosed hquotes
          · have hwithin : InQuotes (front ++ [','] ++ piece) := by
              rwa [inQuotes_append_blanks hpiece, inQuotes_append_cons hc.1, List.append_nil]
            obtain ⟨e, he, hlost⟩ := exists_isLost front hpiece
            rw [(keepsFirst hwithin).1 e he] at hlost
            cases hlost
        · have hblanks := lineBlank_of_trim hpiece fun h => hline (by simp [h])
          have adjacent := adjacent_of_read hc isSeparator_comma hblanks hline hread hquotes
          rcases hopening with ⟨rfl, -⟩ | ⟨rfl, -⟩ <;> cases adjacent.1 rfl
      · rw [hrest] at hline hread
        refine ih isSeparator_comma (.inr ⟨rfl, rfl⟩) hline hread hothers ?_
        rwa [List.append_assoc front, List.singleton_append] at keepsRest

/-! ## Whole calls -/

namespace CallText

theorem not_inQuotes_name (h : CallText text name inner) : ¬ InQuotes name := by
  rw [InQuotes, List.count_eq_zero.mpr (h.not_mem_name (by decide))]
  decide

theorem not_mem_newline_call (h : CallText text name inner) (hpiece : '\n' ∉ piece) :
    '\n' ∉ name ++ '(' :: (piece ++ [')']) := by
  simp [h.not_mem_name (show isWord '\n' = false by decide), hpiece]

theorem not_mem_newline_text (h : CallText text name inner) : '\n' ∉ text := by
  rw [h.text]
  exact h.not_mem_newline_call h.not_mem_newline

/-- A call without arguments loses the blanks in its parentheses and keeps all literals, as there
are none. -/
theorem loses_blanks (h : CallText text name inner) (hinner : trim inner = []) :
    Loses (¬ KeepsLiterals text) text (name ++ '(' :: ([','].intercalate [] ++ [')'])) := by
  have hblanks := lineBlank_of_trim hinner h.not_mem_newline
  have hkeeps : KeepsLiterals text := by
    rw [keepsLiterals_iff h]
    intro front after hcomma
    have hmem : ',' ∈ inner ++ [')'] := by simp [hcomma]
    rcases List.mem_append.mp hmem with hmem | hmem
    · exact absurd (hblanks _ hmem).1 (by decide)
    · exact absurd hmem (by decide)
  have := loses_blanksAfter name hblanks isSeparator_openParen [')']
  rw [← h.text] at this
  refine this.congr ?_
  simp [h.not_inQuotes_name, hkeeps]

/-- A call whose pieces are all arguments loses literals where these are cut and a piece of them
ends in blanks. -/
theorem loses_arguments (h : CallText text name inner) (hpieces : Parted inner pieces)
    (hnonempty : ∀ p ∈ pieces, trim p ≠ []) (hclosed : ¬ InQuotes text) :
    Loses (¬ KeepsLiterals text) text
      (name ++ '(' :: ([','].intercalate (pieces.map trim) ++ [')'])) := by
  have hinner : ¬ InQuotes (name ++ '(' :: inner) := by
    rw [h.text, inQuotes_append_cons (by decide), ← List.append_assoc,
      inQuotes_append_cons (by decide), List.append_nil] at hclosed
    rwa [inQuotes_append_cons (by decide)]
  have := loses_pieces hpieces name isSeparator_openParen hnonempty h.not_mem_newline
  rw [← h.text] at this
  refine this.congr ?_
  rw [keepsLiterals_iff h]
  simp only [h.not_inQuotes_name, hinner, false_and, false_or, or_false]

end CallText

/-- The call that is put together from what a text is split into has this value. -/
def RebuiltValue (text : String) (line : Nat) (bindings : Bindings) (v : Value) : Prop :=
  ∃ name arguments expr, splitCall text = .ok (name, arguments) ∧
    Expr.read (Call.assemble name arguments) line = .ok expr ∧ expr.value bindings = .ok v

section Value

variable {source : String} {line line' : Nat} {expr : Expr} {bindings : Bindings} {v : Value}
  {arguments : List (List Char)}

/-- What can be split keeps its value when it loses nothing by it. -/
theorem rebuiltValue_of_loses (h : CallText source.toList name inner)
    (hsplit : Call.split source.toList = .ok (name, arguments))
    (hloses : Loses (¬ KeepsLiterals source.toList) source.toList
      (name ++ '(' :: ([','].intercalate arguments ++ [')'])))
    (harguments : '\n' ∉ [','].intercalate arguments)
    (hread : Expr.read source line = .ok expr) (hvalue : expr.value bindings = .ok v) :
    RebuiltValue source line' bindings v ↔ KeepsLiterals source.toList := by
  rw [← String.ofList_toList (s := source)] at hread
  obtain ⟨expr', v', hread', hvalue', hsame⟩ := value_of_loses line' hloses
    h.not_mem_newline_text (h.not_mem_newline_call harguments) hread hvalue
  rw [← Call.toList_assemble, String.ofList_toList] at hread'
  rw [Classical.not_not] at hsame
  have hsource := splitCall_eq_ok.mpr ⟨name, arguments, hsplit, rfl, rfl⟩
  constructor
  · rintro ⟨_, _, expr'', hsource', hread'', hvalue''⟩
    cases hsource.symm.trans hsource'
    cases hread'.symm.trans hread''
    exact hsame.mp (Except.ok.inj (hvalue'.symm.trans hvalue''))
  · intro keeps
    rw [hsame.mpr keeps] at hvalue'
    exact ⟨_, _, expr', hsource, hread', hvalue'⟩

/-- The call that is put together from the name and the arguments has the value of the call as it
stands exactly when the literals are kept. -/
theorem rebuiltValue_iff (h : CallText source.toList name inner)
    (hread : Expr.read source line = .ok expr) (hvalue : expr.value bindings = .ok v) :
    RebuiltValue source line' bindings v ↔ KeepsLiterals source.toList := by
  have hsplit := h.split
  by_cases hinner : trim inner = []
  · rw [Call.splitArguments_blank hinner] at hsplit
    exact rebuiltValue_of_loses h hsplit (h.loses_blanks hinner) nofun hread hvalue
  obtain ⟨pieces, hpieces⟩ := parted_of_enclosed h.enclosed
  rw [Call.splitArguments_parted hpieces hinner] at hsplit
  have hread' := hread
  rw [← String.ofList_toList (s := source)] at hread'
  by_cases hempty : ∃ p ∈ pieces, trim p = []
  · -- The splitter rejects the call, which the engine accepts only if a literal has been cut.
    rw [if_pos hempty] at hsplit
    have hline := h.not_mem_newline_text
    rw [h.text] at hread' hline
    have hlost := not_keepsAfter hpieces isSeparator_openParen
      (.inl ⟨rfl, h.not_inQuotes_name, hinner⟩) hline hread' hempty
    rw [← keepsLiterals_iff h] at hlost
    refine ⟨?_, fun keeps => absurd keeps hlost⟩
    rintro ⟨_, _, _, hsource, -⟩
    obtain ⟨_, _, hsplit', -⟩ := splitCall_eq_ok.mp hsource
    cases hsplit.symm.trans hsplit'
  · rw [if_neg hempty] at hsplit
    have hloses := h.loses_arguments hpieces (fun p hp htrim => hempty ⟨p, hp, htrim⟩)
      (not_inQuotes_of_read h.not_mem_newline_text hread')
    exact rebuiltValue_of_loses h hsplit hloses (h.not_mem_newline_trim hpieces) hread hvalue

end Value

end QubitScript
