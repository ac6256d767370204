import QubitScript.Line.Item

/-!
# Chains of operators

The items of a line as an index-linked tree, item `i` being node `i`. Every operator has the item
before it as its left child and the next operator as its right child; the last operator has the item
after it instead. The tree groups nothing: a walk in order from the first operator gives the line
back.

```text
  a + b * c        +
                  / \
                 a   *
                    / \
                   b   c
```
-/

namespace QubitScript

structure ChainNode where
  left : Option Nat
  item : Item
  right : Option Nat
deriving DecidableEq, Repr

structure Chain where
  nodes : List ChainNode
deriving DecidableEq, Repr

namespace Chain

/-- Links the items of a line, `index` items of which come before `rest` and the last of them is an
operator or not, as `afterOperator` says. -/
def link (index : Nat) (afterOperator : Bool) : (rest : List Item) → List ChainNode
  | [] => []
  | item :: rest =>
    let node : ChainNode :=
      if item.isOperator then
        { left := if 0 < index ∧ !afterOperator then some (index - 1) else none
          item
          right :=
            match rest.findIdx? Item.isOperator with
            | some distance => some (index + 1 + distance)
            | none => if rest.isEmpty then none else some (index + 1) }
      else { left := none, item, right := none }
    node :: link (index + 1) item.isOperator rest

def build (items : List Item) : Chain := ⟨link 0 false items⟩

/-- The indices of the operators, in order. -/
def operators (chain : Chain) : List Nat :=
  (chain.nodes.zipIdx.filter fun (node, _) => node.item.isOperator).map (·.2)

/-- Where a walk begins: at the first operator, or at the first item when there is none. -/
def root? (chain : Chain) : Option Nat :=
  match chain.operators with
  | operator :: _ => some operator
  | [] => if chain.nodes.isEmpty then none else some 0

/-- Walks in order over the tree below a node. The fuel is the number of nodes. -/
def walk (chain : Chain) : (fuel : Nat) → (node : Option Nat) → List Nat
  | 0, _ => []
  | _, none => []
  | fuel + 1, some index =>
    match chain.nodes[index]? with
    | none => []
    | some node => walk chain fuel node.left ++ index :: walk chain fuel node.right

/-- The indices of the nodes that a walk from the root visits, in order. -/
def traverse (chain : Chain) : List Nat := chain.walk chain.nodes.length chain.root?

/-- The first node that a walk leaves out. -/
def firstMissed (chain : Chain) (visited : List Nat) : Nat :=
  ((List.range chain.nodes.length).find? fun index => !visited.contains index).getD 0

/-- The line as a text: the texts of the items in the order of the walk, with single spaces between
them. Fails when the walk leaves an item out. -/
def resolve (chain : Chain) (handles : HandleTable) : Except LineError String := do
  let order := chain.traverse
  if order.length ≠ chain.nodes.length then throw (.detachedItem (chain.firstMissed order))
  let texts ← (order.filterMap (chain.nodes[·]?)).mapM fun node => node.item.source handles
  return " ".intercalate texts

end Chain

end QubitScript
