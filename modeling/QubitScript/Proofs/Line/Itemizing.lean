import QubitScript.Line.Command
import QubitScript.Proofs.Running

/-!
# What items stand for

Handles are issued in one pass over the tokens of a line, and the table only grows. So every handle
in the items of the line is known to the table at the end, and gives back the text that it was
issued for.
-/

namespace QubitScript

/-! ## Tables that grow -/

namespace HandleTable

/-- The table `larger` was made from this one by recording more texts. -/
def GrowsTo (table larger : HandleTable) : Prop := table.texts <+: larger.texts

theorem GrowsTo.refl (table : HandleTable) : table.GrowsTo table := List.prefix_rfl

theorem GrowsTo.trans {first second third : HandleTable} (h : first.GrowsTo second)
    (h' : second.GrowsTo third) : first.GrowsTo third :=
  List.IsPrefix.trans h h'

theorem growsTo_allocate (table : HandleTable) (text : String) :
    table.GrowsTo (table.allocate text).2 :=
  List.prefix_append _ _

theorem growsTo_allocateAll (texts : List String) :
    ∀ table : HandleTable, table.GrowsTo (table.allocateAll texts).2 := by
  induction texts with
  | nil => exact GrowsTo.refl
  | cons text texts ih =>
      intro table
      exact (growsTo_allocate table text).trans (ih _)

theorem resolve_eq_ok {table : HandleTable} {handle : Handle} {text : String} :
    table.resolve handle = .ok text ↔ table.texts[handle.index]? = some text := by
  unfold resolve get?
  cases table.texts[handle.index]? <;> simp

theorem resolve_of_growsTo {table larger : HandleTable} (h : table.GrowsTo larger)
    {handle : Handle} {text : String} (known : table.resolve handle = .ok text) :
    larger.resolve handle = .ok text := by
  rw [resolve_eq_ok] at known ⊢
  obtain ⟨more, hmore⟩ := h
  obtain ⟨bound, -⟩ := List.getElem?_eq_some_iff.mp known
  rw [← hmore, List.getElem?_append_left bound, known]

theorem resolve_allocate (table : HandleTable) (text : String) :
    (table.allocate text).2.resolve (table.allocate text).1 = .ok text := by
  rw [resolve_eq_ok]
  simp [allocate, size]

/-- The handles of several texts give these texts back, in order. -/
theorem resolve_allocateAll (texts : List String) : ∀ table : HandleTable,
    (table.allocateAll texts).1.mapM (table.allocateAll texts).2.resolve = .ok texts := by
  induction texts with
  | nil => exact fun _ => rfl
  | cons text texts ih =>
      intro table
      -- The first handle is read in a table that the other texts have been added to.
      have first := resolve_of_growsTo (growsTo_allocateAll texts (table.allocate text).2)
        (resolve_allocate table text)
      simp only [allocateAll, List.mapM_cons]
      rw [first, ih]
      rfl

end HandleTable

namespace LineCall

theorem texts_of_growsTo {table larger : HandleTable} (h : table.GrowsTo larger) {call : LineCall}
    {arguments : List String} (known : call.texts table = .ok arguments) :
    call.texts larger = .ok arguments := by
  unfold texts at *
  rw [mapM_eq_ok] at known ⊢
  exact known.imp fun _ _ => HandleTable.resolve_of_growsTo h

end LineCall

/-! ## Tokens and their items -/

namespace Token

/-- The token stands for an item; the others are dropped. -/
def isKept (token : Token) : Bool :=
  !(token.kind == Kind.annotation || token.kind == Kind.separator)

def isCall (token : Token) : Bool := token.kind == Kind.call

/-- The token is a name, an operator, a literal or a number. -/
def isTerm (token : Token) : Bool :=
  token.kind == Kind.name || token.kind == Kind.operator || token.kind == Kind.literal ||
    token.kind == Kind.number

/-- What an item says of the token that it was made from, when its handles are read in a table. -/
inductive Gives (table : HandleTable) (token : Token) : Item → Prop
  | call {text name : String} {arguments : List String} {handles : List Handle} :
      token.isCall → token.value = some text → splitCall text = .ok (name, arguments) →
      LineCall.texts ⟨name, handles⟩ table = .ok arguments →
      Gives table token (.call ⟨name, handles⟩)
  | term {text : String} {item : Item} :
      token.isTerm → token.value = some text → item.source table = .ok text →
      item.call? = none → Gives table token item

theorem Gives.of_growsTo {table larger : HandleTable} (h : table.GrowsTo larger) {token : Token}
    {item : Item} (gives : token.Gives table item) : token.Gives larger item := by
  cases gives with
  | call kind value split texts => exact .call kind value split (LineCall.texts_of_growsTo h texts)
  | term kind value source plain =>
      refine .term kind value ?_ plain
      cases item with
      | operator text => exact source
      | name text => exact source
      | value handle => exact HandleTable.resolve_of_growsTo h source
      | call lineCall => cases plain

theorem requireValue_eq_ok {token : Token} {text : String} :
    token.requireValue = .ok text ↔ token.value = some text := by
  unfold requireValue
  cases token.value <;> simp

end Token

namespace ItemizedLine

/-- Item for item, the line holds what the tokens say. -/
def Renders (line : ItemizedLine) (tokens : List Token) : Prop :=
  List.Forall₂ (Token.Gives line.handles) (tokens.filter Token.isKept) line.items

/-- A line that renders some tokens renders one more, once that token's item has been added with a
table that has grown. -/
theorem Renders.snoc {line : ItemizedLine} {tokens : List Token} (renders : line.Renders tokens)
    {token : Token} {item : Item} {handles : HandleTable} (kept : token.isKept)
    (grows : line.handles.GrowsTo handles) (gives : token.Gives handles item) :
    Renders ⟨line.items ++ [item], handles⟩ (tokens ++ [token]) := by
  unfold Renders at *
  rw [List.filter_append, List.filter_singleton, kept]
  exact List.rel_append (renders.imp fun _ _ => Token.Gives.of_growsTo grows)
    (.cons gives .nil)

theorem Renders.skip {line : ItemizedLine} {tokens : List Token} (renders : line.Renders tokens)
    {token : Token} (dropped : token.isKept = false) : line.Renders (tokens ++ [token]) := by
  unfold Renders at *
  rwa [List.filter_append, List.filter_singleton, dropped, cond_false, List.append_nil]

/-- All that adding a token can do: nothing for the kinds that are dropped, and an item at the end
for the others. -/
theorem add_cases {line line' : ItemizedLine} {token : Token} (added : line.add token = .ok line') :
    (token.isKept = false ∧ line' = line) ∨
    (∃ text name arguments, token.isKept ∧ token.isCall ∧ token.value = some text ∧
      splitCall text = .ok (name, arguments) ∧
      line' = ⟨line.items ++ [.call ⟨name, (line.handles.allocateAll arguments).1⟩],
        (line.handles.allocateAll arguments).2⟩) ∨
    (∃ text, token.isKept ∧ token.isTerm ∧ token.value = some text ∧
      (line' = ⟨line.items ++ [.value (line.handles.allocate text).1],
          (line.handles.allocate text).2⟩ ∨
        line' = ⟨line.items ++ [.name text], line.handles⟩ ∨
        line' = ⟨line.items ++ [.operator text], line.handles⟩)) := by
  unfold add at added
  split at added
  · rename_i dropped
    cases added
    exact .inl ⟨by simpa [Token.isKept, imp_iff_not_or] using dropped, rfl⟩
  rename_i kept
  replace kept : token.isKept = true := by simpa [Token.isKept, not_or] using kept
  split at added
  · rename_i isCall
    obtain ⟨text, value, added⟩ := bind_eq_ok.mp added
    obtain ⟨⟨name, arguments⟩, split, added⟩ := bind_eq_ok.mp added
    exact .inr (.inl ⟨text, name, arguments, kept, by simpa [Token.isCall] using isCall,
      Token.requireValue_eq_ok.mp value, split, (pure_eq_ok.mp added).symm⟩)
  split at added
  · rename_i kind
    obtain ⟨text, value, added⟩ := bind_eq_ok.mp added
    refine .inr (.inr ⟨text, kept, ?_, Token.requireValue_eq_ok.mp value,
      .inl (pure_eq_ok.mp added).symm⟩)
    rcases kind with kind | kind <;> simp [Token.isTerm, kind]
  split at added
  · rename_i kind
    obtain ⟨text, value, added⟩ := bind_eq_ok.mp added
    exact .inr (.inr ⟨text, kept, by simp [Token.isTerm, kind], Token.requireValue_eq_ok.mp value,
      .inr (.inl (pure_eq_ok.mp added).symm)⟩)
  split at added
  · rename_i kind
    obtain ⟨text, value, added⟩ := bind_eq_ok.mp added
    exact .inr (.inr ⟨text, kept, by simp [Token.isTerm, kind], Token.requireValue_eq_ok.mp value,
      .inr (.inr (pure_eq_ok.mp added).symm)⟩)
  · cases added

theorem renders_add {line line' : ItemizedLine} {tokens : List Token} {token : Token}
    (renders : line.Renders tokens) (added : line.add token = .ok line') :
    line'.Renders (tokens ++ [token]) := by
  rcases add_cases added with ⟨dropped, rfl⟩ |
    ⟨text, name, arguments, kept, isCall, value, split, rfl⟩ |
    ⟨text, kept, isTerm, value, rfl | rfl | rfl⟩
  · exact renders.skip dropped
  · exact renders.snoc kept (HandleTable.growsTo_allocateAll arguments _)
      (.call isCall value split (HandleTable.resolve_allocateAll arguments _))
  · exact renders.snoc kept (HandleTable.growsTo_allocate _ text)
      (.term isTerm value (HandleTable.resolve_allocate _ text) rfl)
  · exact renders.snoc kept (HandleTable.GrowsTo.refl _) (.term isTerm value rfl rfl)
  · exact renders.snoc kept (HandleTable.GrowsTo.refl _) (.term isTerm value rfl rfl)

theorem renders_foldlM (tokens : List Token) : ∀ {line line' : ItemizedLine} {before : List Token},
    line.Renders before → tokens.foldlM add line = .ok line' →
      line'.Renders (before ++ tokens) := by
  induction tokens with
  | nil =>
      intro line line' before renders added
      cases added
      rwa [List.append_nil]
  | cons token tokens ih =>
      intro line line' before renders added
      rw [List.foldlM_cons] at added
      obtain ⟨next, first, added⟩ := bind_eq_ok.mp added
      rw [← List.singleton_append, ← List.append_assoc]
      exact ih (renders_add renders first) added

theorem renders_empty : empty.Renders [] := List.Forall₂.nil

/-- The items of a line say what its tokens say. -/
theorem renders_ofTokens {tokens : List Token} {line : ItemizedLine}
    (h : ofTokens tokens = .ok line) : line.Renders tokens :=
  renders_foldlM tokens renders_empty h

end ItemizedLine

end QubitScript
