/-!
# Handles

While a line is interpreted, handles stand in for its literals and for the arguments of its calls. A
table that belongs to the line gives the texts back.
-/

namespace QubitScript

/-- A reference to a text recorded in a table. -/
structure Handle where
  index : Nat
deriving DecidableEq, Repr

def Handle.write (handle : Handle) : String := "handle #" ++ toString handle.index

/-- The texts behind the handles of one line, in the order in which the handles were issued. -/
structure HandleTable where
  texts : List String
deriving DecidableEq, Repr

namespace HandleTable

def empty : HandleTable := ⟨[]⟩

def size (table : HandleTable) : Nat := table.texts.length

/-- Records a text under a handle of its own. -/
def allocate (table : HandleTable) (text : String) : Handle × HandleTable :=
  (⟨table.size⟩, ⟨table.texts ++ [text]⟩)

/-- Records texts in order. -/
def allocateAll (table : HandleTable) : List String → List Handle × HandleTable
  | [] => ([], table)
  | text :: texts =>
    let (handle, table) := table.allocate text
    let (handles, table) := table.allocateAll texts
    (handle :: handles, table)

def get? (table : HandleTable) (handle : Handle) : Option String := table.texts[handle.index]?

end HandleTable

end QubitScript
