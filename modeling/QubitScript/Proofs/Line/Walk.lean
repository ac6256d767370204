import Mathlib.Data.List.Perm.Subperm
import Mathlib.Data.Nat.Find
import QubitScript.Line.Chain
import QubitScript.Proofs.Running

/-!
# Walks over a chain

A link of a chain leads to the item before an operator, to the next operator, or from the last one
to the item after it. So a walk goes upwards and leaves out no item but those that no operator is
next to. A walk that visits as many nodes as there are items gives the whole line back.
-/

namespace QubitScript.Chain

/-! ## Operators of a line -/

/-- Item `i` of the line is an operator. -/
def OperatorAt (items : List Item) (i : Nat) : Prop := items[i]?.any Item.isOperator = true

instance (items : List Item) : DecidablePred (OperatorAt items) :=
  fun _ => inferInstanceAs (Decidable (_ = true))

/-- `j` is the place of the next operator after place `i`. -/
structure NextOperator (items : List Item) (i j : Nat) : Prop where
  after : i < j
  operator : OperatorAt items j
  next : ∀ k, i < k → k < j → ¬ OperatorAt items k

/-- `j` is the place right after place `i`, and there are no operators from it on. -/
structure AfterLast (items : List Item) (i j : Nat) : Prop where
  after : j = i + 1
  bound : j < items.length
  last : ∀ k, i < k → ¬ OperatorAt items k

theorem OperatorAt.lt {items : List Item} {i : Nat} (h : OperatorAt items i) :
    i < items.length := by
  by_contra hi
  rw [OperatorAt, List.getElem?_eq_none (by omega)] at h
  cases h

theorem operatorAt_iff {items : List Item} {i : Nat} {item : Item} (h : items[i]? = some item) :
    OperatorAt items i ↔ item.isOperator = true := by
  rw [OperatorAt, h, Option.any_some]

theorem operatorAt_append {before rest : List Item} {k : Nat} :
    OperatorAt (before ++ rest) (before.length + k) ↔ OperatorAt rest k := by
  rw [OperatorAt, OperatorAt, List.getElem?_append_right (by omega), Nat.add_sub_cancel_left]

theorem findIdx?_eq_some {items : List Item} {i : Nat} :
    items.findIdx? Item.isOperator = some i ↔
      OperatorAt items i ∧ ∀ k < i, ¬ OperatorAt items k := by
  rw [List.findIdx?_eq_some_iff_getElem]
  constructor
  · rintro ⟨hi, hoperator, hbefore⟩
    refine ⟨(operatorAt_iff (List.getElem?_eq_getElem hi)).mpr hoperator, fun k hk => ?_⟩
    rw [operatorAt_iff (List.getElem?_eq_getElem (by omega))]
    exact hbefore k hk
  · rintro ⟨hoperator, hbefore⟩
    refine ⟨hoperator.lt, ?_, fun k hk => ?_⟩
    · exact (operatorAt_iff (List.getElem?_eq_getElem hoperator.lt)).mp hoperator
    · have := hoperator.lt
      exact mt (operatorAt_iff (List.getElem?_eq_getElem (by omega))).mpr (hbefore k hk)

theorem findIdx?_eq_none {items : List Item} :
    items.findIdx? Item.isOperator = none ↔ ∀ k, ¬ OperatorAt items k := by
  rw [List.findIdx?_eq_none_iff]
  constructor
  · intro h k hk
    have hitem := (operatorAt_iff (List.getElem?_eq_getElem hk.lt)).mp hk
    rw [h _ (List.getElem_mem _)] at hitem
    cases hitem
  · intro h item hitem
    obtain ⟨k, hk, rfl⟩ := List.mem_iff_getElem.mp hitem
    exact Bool.not_eq_true _ ▸ mt (operatorAt_iff (List.getElem?_eq_getElem hk)).mpr (h k)

/-! ## Links -/

/-- What node `i` of a chain links to. A node that is no operator has no links. -/
structure Linked (items : List Item) (i : Nat) (node : ChainNode) : Prop where
  item : items[i]? = some node.item
  left : ∀ j, node.left = some j ↔ OperatorAt items i ∧ j + 1 = i ∧ ¬ OperatorAt items j
  right : ∀ j, node.right = some j ↔
    OperatorAt items i ∧ (NextOperator items i j ∨ AfterLast items i j)

/-- The left child of an operator that comes after the items `before`. -/
theorem left_of_operator {before rest : List Item} {j : Nat} :
    (if 0 < before.length ∧ !before.getLast?.any Item.isOperator then some (before.length - 1)
      else none) = some j ↔ j + 1 = before.length ∧ ¬ OperatorAt (before ++ rest) j := by
  rcases before.eq_nil_or_concat' with rfl | ⟨front, last, rfl⟩
  · simp
  · have hlast : OperatorAt (front ++ [last] ++ rest) front.length ↔ last.isOperator = true :=
      operatorAt_iff (by simp)
    rw [Option.ite_none_right_eq_some, List.getLast?_concat, Option.any_some, List.length_append,
      List.length_singleton, Nat.add_sub_cancel, Option.some.injEq, Nat.add_right_cancel_iff]
    constructor
    · rintro ⟨⟨-, hleaf⟩, rfl⟩
      exact ⟨rfl, mt hlast.mp (by simpa using hleaf)⟩
    · rintro ⟨rfl, hleaf⟩
      exact ⟨⟨Nat.succ_pos _, by simpa using mt hlast.mpr hleaf⟩, rfl⟩

section Right

variable {before rest : List Item} {item : Item} {j : Nat}

theorem operatorAt_after (k : Nat) :
    OperatorAt (before ++ item :: rest) (before.length + 1 + k) ↔ OperatorAt rest k := by
  have hsplit : OperatorAt (before ++ [item] ++ rest) ((before ++ [item]).length + k) ↔
      OperatorAt rest k := operatorAt_append
  rwa [List.length_append, List.length_singleton, ← List.append_cons] at hsplit

/-- The next operator is the first one among the items after. -/
theorem right_of_first {distance : Nat}
    (hfirst : rest.findIdx? Item.isOperator = some distance) :
    before.length + 1 + distance = j ↔
      NextOperator (before ++ item :: rest) before.length j ∨
        AfterLast (before ++ item :: rest) before.length j := by
  obtain ⟨hfound, hnext⟩ := findIdx?_eq_some.mp hfirst
  have hoperator : OperatorAt (before ++ item :: rest) (before.length + 1 + distance) :=
    (operatorAt_after distance).mpr hfound
  have hbetween : ∀ k, before.length < k → k < before.length + 1 + distance →
      ¬ OperatorAt (before ++ item :: rest) k := by
    intro k hk hdistance
    obtain ⟨d, rfl⟩ := Nat.exists_eq_add_of_le (show before.length + 1 ≤ k by omega)
    exact mt (operatorAt_after d).mp (hnext d (by omega))
  constructor
  · rintro rfl
    exact .inl ⟨by omega, hoperator, hbetween⟩
  · rintro (next | last)
    · rcases Nat.lt_trichotomy j (before.length + 1 + distance) with h | h | h
      · exact absurd next.operator (hbetween j next.after h)
      · exact h.symm
      · exact absurd hoperator (next.next _ (by omega) h)
    · exact absurd hoperator (last.last _ (by omega))

/-- Without another operator the item after the last one is taken, if there is one. -/
theorem right_of_none (hnone : rest.findIdx? Item.isOperator = none) :
    rest ≠ [] ∧ before.length + 1 = j ↔
      NextOperator (before ++ item :: rest) before.length j ∨
        AfterLast (before ++ item :: rest) before.length j := by
  have hleaves : ∀ k, before.length < k → ¬ OperatorAt (before ++ item :: rest) k := by
    intro k hk
    obtain ⟨d, rfl⟩ := Nat.exists_eq_add_of_le (show before.length + 1 ≤ k by omega)
    exact mt (operatorAt_after d).mp (findIdx?_eq_none.mp hnone d)
  constructor
  · rintro ⟨hrest, rfl⟩
    have hpos : 0 < rest.length := List.length_pos_iff.mpr hrest
    exact .inr ⟨rfl, by simpa using hpos, hleaves⟩
  · rintro (next | ⟨rfl, hbound, -⟩)
    · exact absurd next.operator (hleaves j next.after)
    · refine ⟨?_, rfl⟩
      rintro rfl
      simp at hbound

/-- The right child of an operator that comes before the items `rest`. -/
theorem right_of_operator :
    (match rest.findIdx? Item.isOperator with
      | some distance => some (before.length + 1 + distance)
      | none => if rest.isEmpty then none else some (before.length + 1)) = some j ↔
    NextOperator (before ++ item :: rest) before.length j ∨
      AfterLast (before ++ item :: rest) before.length j := by
  cases hfirst : rest.findIdx? Item.isOperator with
  | some distance => rw [← right_of_first hfirst, Option.some.injEq]
  | none =>
      dsimp only
      rw [← right_of_none hfirst, Option.ite_none_left_eq_some, Option.some.injEq,
        List.isEmpty_iff]

end Right

/-- The induction is over the items still to be linked, `before` being those that are. -/
theorem linked_link (rest : List Item) : ∀ (before : List Item) (k : Nat) (node : ChainNode),
    (link before.length (before.getLast?.any Item.isOperator) rest)[k]? = some node →
      Linked (before ++ rest) (before.length + k) node := by
  induction rest with
  | nil => simp [link]
  | cons item rest ih =>
      intro before k node h
      cases k with
      | succ k =>
          have next := ih (before ++ [item]) k node (by simpa [link] using h)
          rw [List.append_assoc, List.singleton_append, List.length_append] at next
          rwa [Nat.add_succ, ← Nat.succ_add]
      | zero =>
          have hitem : (before ++ item :: rest)[before.length]? = some item := by simp
          have hoperator := operatorAt_iff hitem
          simp only [link, List.getElem?_cons_zero, Option.some.injEq] at h
          subst h
          split
          next isOperator =>
            have operator := hoperator.mpr isOperator
            refine ⟨hitem, fun j => ?_, fun j => ?_⟩
            · exact left_of_operator.trans (and_iff_right operator).symm
            · exact right_of_operator.trans (and_iff_right operator).symm
          next isLeaf =>
            have hleaf : ¬ OperatorAt (before ++ item :: rest) before.length :=
              mt hoperator.mp isLeaf
            exact ⟨hitem, fun j => by simp [hleaf], fun j => by simp [hleaf]⟩

theorem linked_build {items : List Item} {i : Nat} {node : ChainNode}
    (h : (build items).nodes[i]? = some node) : Linked items i node := by
  simpa using linked_link items [] i node h

theorem map_item_link (items : List Item) : ∀ (index : Nat) (afterOperator : Bool),
    (link index afterOperator items).map ChainNode.item = items := by
  induction items with
  | nil => exact fun _ _ => rfl
  | cons item rest ih =>
      intro index afterOperator
      simp only [link, List.map_cons, ih]
      split <;> rfl

theorem map_item_build (items : List Item) : (build items).nodes.map ChainNode.item = items :=
  map_item_link items 0 false

theorem length_build (items : List Item) : (build items).nodes.length = items.length := by
  rw [← List.length_map ChainNode.item, map_item_build]

/-! ## Walks -/

@[simp]
theorem walk_none (chain : Chain) (fuel : Nat) : chain.walk fuel none = [] := by
  cases fuel <;> rfl

/-- The nodes below a node, in order. Nothing is cut off. -/
inductive InOrder (chain : Chain) : Option Nat → List Nat → Prop
  | empty : InOrder chain none []
  | node {index : Nat} {node : ChainNode} {before after : List Nat} :
      chain.nodes[index]? = some node → InOrder chain node.left before →
      InOrder chain node.right after → InOrder chain (some index) (before ++ index :: after)

section

variable {items : List Item} {i : Nat}

theorem exists_node (hi : i < items.length) :
    ∃ node, (build items).nodes[i]? = some node ∧ Linked items i node := by
  obtain ⟨node, hnode⟩ : ∃ node, (build items).nodes[i]? = some node :=
    ⟨_, List.getElem?_eq_getElem (length_build items ▸ hi)⟩
  exact ⟨node, hnode, linked_build hnode⟩

theorem Linked.left_of_leaf {node : ChainNode} (linked : Linked items i node)
    (leaf : ¬ OperatorAt items i) : node.left = none :=
  Option.eq_none_iff_forall_ne_some.mpr fun j hj => leaf ((linked.left j).mp hj).1

theorem Linked.right_of_leaf {node : ChainNode} (linked : Linked items i node)
    (leaf : ¬ OperatorAt items i) : node.right = none :=
  Option.eq_none_iff_forall_ne_some.mpr fun j hj => leaf ((linked.right j).mp hj).1

/-- Below an item that is no operator there is that item alone. -/
theorem inOrder_leaf (leaf : ¬ OperatorAt items i) (hi : i < items.length) {order : List Nat} :
    InOrder (build items) (some i) order ↔ order = [i] := by
  obtain ⟨node, hnode, linked⟩ := exists_node hi
  have hleft := linked.left_of_leaf leaf
  have hright := linked.right_of_leaf leaf
  constructor
  · rintro (_ | ⟨hnode', hbefore, hafter⟩)
    cases hnode.symm.trans hnode'
    rw [hleft] at hbefore
    rw [hright] at hafter
    cases hbefore
    cases hafter
    rfl
  · rintro rfl
    have hbefore : InOrder (build items) node.left [] := hleft ▸ .empty
    exact .node hnode hbefore (hright ▸ .empty)

theorem walk_leaf (leaf : ¬ OperatorAt items i) (hi : i < items.length) {fuel : Nat}
    (hfuel : 0 < fuel) : (build items).walk fuel (some i) = [i] := by
  obtain ⟨node, hnode, linked⟩ := exists_node hi
  obtain ⟨fuel, rfl⟩ := Nat.exists_eq_add_one.mpr hfuel
  rw [walk, hnode]
  dsimp only
  rw [linked.left_of_leaf leaf, linked.right_of_leaf leaf, walk_none]
  rfl

/-- A walk from an operator on does not run out of fuel, if there is one unit for every item from
the operator on and one more for the item before it, where that is no operator. -/
theorem inOrder_walk (fuel : Nat) : ∀ i, OperatorAt items i → items.length ≤ i + fuel →
    (∀ j, j + 1 = i → ¬ OperatorAt items j → items.length < i + fuel) →
    InOrder (build items) (some i) ((build items).walk fuel (some i)) := by
  induction fuel with
  | zero => exact fun i operator hfuel _ => absurd operator.lt (by omega)
  | succ fuel ih =>
      intro i operator hfuel hmore
      obtain ⟨node, hnode, linked⟩ := exists_node operator.lt
      have hleft : InOrder (build items) node.left ((build items).walk fuel node.left) := by
        cases hleft : node.left with
        | none => exact walk_none _ fuel ▸ .empty
        | some j =>
            obtain ⟨-, rfl, leaf⟩ := (linked.left j).mp hleft
            have hlt := operator.lt
            have hrest := hmore j rfl leaf
            exact (inOrder_leaf leaf (by omega)).mpr (walk_leaf leaf (by omega) (by omega))
      have hright : InOrder (build items) node.right ((build items).walk fuel node.right) := by
        cases hright : node.right with
        | none => exact walk_none _ fuel ▸ .empty
        | some k =>
            rcases ((linked.right k).mp hright).2 with next | ⟨rfl, hbound, hlast⟩
            · have hafter := next.after
              refine ih k next.operator (by omega) ?_
              rintro j rfl leaf
              have hne : j ≠ i := fun h => leaf (h ▸ operator)
              omega
            · have leaf := hlast (i + 1) (by omega)
              exact (inOrder_leaf leaf hbound).mpr (walk_leaf leaf hbound (by omega))
      rw [walk, hnode]
      exact .node hnode hleft hright

/-! ## What a walk visits -/

/-- A walk visits the operators, the item before each of them, and the item after the last of them.
In a line without operators it visits the first item. -/
inductive IsVisited (items : List Item) : Nat → Prop
  | operator {j : Nat} : OperatorAt items j → IsVisited items j
  | beforeOperator {j : Nat} : ¬ OperatorAt items j → OperatorAt items (j + 1) → IsVisited items j
  | afterLast {i j : Nat} : OperatorAt items i → AfterLast items i j → IsVisited items j
  | first : 0 < items.length → (∀ k, ¬ OperatorAt items k) → IsVisited items 0

theorem IsVisited.lt {j : Nat} (h : IsVisited items j) : j < items.length := by
  cases h with
  | operator operator => exact operator.lt
  | beforeOperator _ operator =>
      have := operator.lt
      omega
  | afterLast _ last => exact last.bound
  | first nonempty => exact nonempty

/-- To the left of an operator there is one item at most. -/
theorem Linked.order_left {node : ChainNode} (linked : Linked items i node) {before : List Nat}
    (h : InOrder (build items) node.left before) : before = node.left.toList := by
  cases hleft : node.left with
  | none =>
      rw [hleft] at h
      cases h
      rfl
  | some j =>
      obtain ⟨operator, rfl, leaf⟩ := (linked.left j).mp hleft
      have hlt := operator.lt
      rw [hleft] at h
      exact (inOrder_leaf leaf (by omega)).mp h

/-- An operator that is not the last item has a right child. -/
theorem exists_right {j : Nat} (hij : i < j) (hj : j < items.length) :
    ∃ k, NextOperator items i k ∨ AfterLast items i k := by
  by_cases hmore : ∃ k, i < k ∧ OperatorAt items k
  · refine ⟨Nat.find hmore, .inl ⟨(Nat.find_spec hmore).1, (Nat.find_spec hmore).2, ?_⟩⟩
    exact fun k hik hk operator => Nat.find_min hmore hk ⟨hik, operator⟩
  · exact ⟨i + 1, .inr ⟨rfl, by omega, fun k hik operator => hmore ⟨k, hik, operator⟩⟩⟩

/-- Of the items between an operator and the next one, a walk visits the last one only. -/
theorem visited_after_operator {j k : Nat} (operator : OperatorAt items i)
    (next : NextOperator items i k) :
    IsVisited items j ∧ i < j ↔
      IsVisited items j ∧ (k ≤ j ∨ (j + 1 = k ∧ ¬ OperatorAt items j)) := by
  have hik := next.after
  refine and_congr_right fun visited => ⟨fun hij => ?_, ?_⟩
  · by_cases hkj : k ≤ j
    · exact .inl hkj
    · have leaf := next.next j hij (by omega)
      refine .inr ⟨?_, leaf⟩
      cases visited with
      | operator other => exact absurd other leaf
      | beforeOperator _ other =>
          by_contra hne
          exact next.next (j + 1) (by omega) (by omega) other
      | afterLast other last =>
          have := last.after
          exact absurd next.operator (last.last k (by omega))
      | first _ hnone => exact absurd operator (hnone i)
  · rintro (hkj | ⟨rfl, leaf⟩)
    · omega
    · have hne : i ≠ j := fun h => leaf (h ▸ operator)
      omega

/-- After the last operator, a walk visits one item. -/
theorem visited_after_last {j k : Nat} (operator : OperatorAt items i)
    (last : AfterLast items i k) : IsVisited items j ∧ i < j ↔ j = k := by
  constructor
  · rintro ⟨visited, hij⟩
    cases visited with
    | operator other => exact absurd other (last.last j hij)
    | beforeOperator _ other => exact absurd other (last.last (j + 1) (by omega))
    | @afterLast other j hother hlast =>
        have hle : other ≤ i := Nat.le_of_not_lt fun h => last.last other h hother
        have hafter := hlast.after
        have hk := last.after
        omega
    | first _ hnone => exact absurd operator (hnone i)
  · rintro rfl
    have hafter := last.after
    exact ⟨.afterLast operator last, by omega⟩

/-- To the right of an operator there is what a walk visits after it, if that is so to the right of
the next operator. -/
theorem Linked.order_right {node : ChainNode} (linked : Linked items i node)
    (operator : OperatorAt items i) {after : List Nat}
    (hafter : InOrder (build items) node.right after)
    (hnext : ∀ k, node.right = some k → OperatorAt items k → after.Pairwise (· < ·) ∧
      ∀ j, j ∈ after ↔ IsVisited items j ∧ (k ≤ j ∨ (j + 1 = k ∧ ¬ OperatorAt items j))) :
    after.Pairwise (· < ·) ∧ ∀ j, j ∈ after ↔ IsVisited items j ∧ i < j := by
  cases hchild : node.right with
  | none =>
      rw [hchild] at hafter
      cases hafter
      refine ⟨.nil, fun j => iff_of_false List.not_mem_nil ?_⟩
      rintro ⟨visited, hij⟩
      obtain ⟨k, hk⟩ := exists_right hij visited.lt
      rw [(linked.right k).mpr ⟨operator, hk⟩] at hchild
      cases hchild
  | some k =>
      rcases ((linked.right k).mp hchild).2 with next | last
      · obtain ⟨hascending, hmem⟩ := hnext k hchild next.operator
        exact ⟨hascending, fun j => (hmem j).trans (visited_after_operator operator next).symm⟩
      · have leaf := last.last k (by have := last.after; omega)
        rw [hchild, inOrder_leaf leaf last.bound] at hafter
        subst hafter
        refine ⟨List.pairwise_singleton _ k, fun j => ?_⟩
        rw [List.mem_singleton, visited_after_last operator last]

/-- A walk from an operator on goes upwards, and it visits what a walk visits at all of the items
from there on and of the item before, unless that is an operator. -/
theorem InOrder.visits {start : Option Nat} {order : List Nat}
    (h : InOrder (build items) start order) : ∀ i, start = some i → OperatorAt items i →
    order.Pairwise (· < ·) ∧
      ∀ j, j ∈ order ↔ IsVisited items j ∧ (i ≤ j ∨ (j + 1 = i ∧ ¬ OperatorAt items j)) := by
  induction h with
  | empty => exact nofun
  | @node i node before after hnode hbefore hafter _ ih =>
      rintro _ ⟨⟩ operator
      have linked := linked_build hnode
      have hleft : ∀ j, j ∈ before ↔ j + 1 = i ∧ ¬ OperatorAt items j := by
        intro j
        rw [linked.order_left hbefore, Option.mem_toList, linked.left j]
        exact and_iff_right operator
      have hright := linked.order_right operator hafter ih
      refine ⟨?_, fun j => ?_⟩
      · rw [List.pairwise_append, List.pairwise_cons, linked.order_left hbefore]
        refine ⟨?_, ⟨fun j hj => ((hright.2 j).mp hj).2, hright.1⟩, fun j hj k hk => ?_⟩
        · cases node.left <;> simp
        · rw [← linked.order_left hbefore, hleft] at hj
          rcases List.mem_cons.mp hk with rfl | hk
          · omega
          · have := ((hright.2 k).mp hk).2
            omega
      · rw [List.mem_append, List.mem_cons, hleft, hright.2]
        constructor
        · rintro (⟨rfl, leaf⟩ | rfl | ⟨visited, hij⟩)
          · exact ⟨.beforeOperator leaf operator, .inr ⟨rfl, leaf⟩⟩
          · exact ⟨.operator operator, .inl (Nat.le_refl _)⟩
          · exact ⟨visited, .inl (Nat.le_of_lt hij)⟩
        · rintro ⟨visited, hij | hbefore⟩
          · rcases Nat.eq_or_lt_of_le hij with rfl | hij
            · exact .inr (.inl rfl)
            · exact .inr (.inr ⟨visited, hij⟩)
          · exact .inl hbefore

end

/-! ## Whole walks -/

theorem operators_build (items : List Item) :
    (build items).operators.head? = items.findIdx? Item.isOperator := by
  conv_rhs => rw [← map_item_build items, List.findIdx?_map, List.findIdx?_eq_fst_find?_zipIdx]
  rw [operators, List.head?_map, List.head?_filter]
  rfl

theorem root?_build (items : List Item) : (build items).root? =
    (items.findIdx? Item.isOperator).or (if items.isEmpty then none else some 0) := by
  rw [root?, ← operators_build]
  cases (build items).operators with
  | cons operator operators => rfl
  | nil =>
      have hempty : (build items).nodes.isEmpty = items.isEmpty := by
        rw [Bool.eq_iff_iff, List.isEmpty_iff_length_eq_zero, List.isEmpty_iff_length_eq_zero,
          length_build]
      simp [hempty]

/-- A walk over the tree of a line is not cut off. -/
theorem inOrder_traverse (items : List Item) :
    InOrder (build items) (build items).root? (build items).traverse := by
  rw [traverse, root?_build, length_build]
  cases hfirst : items.findIdx? Item.isOperator with
  | some r =>
      obtain ⟨operator, -⟩ := findIdx?_eq_some.mp hfirst
      refine inOrder_walk _ r operator (by omega) ?_
      rintro j rfl -
      omega
  | none =>
      cases items with
      | nil => exact .empty
      | cons item items =>
          have leaf := findIdx?_eq_none.mp hfirst 0
          have hlt : 0 < (item :: items).length := Nat.succ_pos _
          exact (inOrder_leaf leaf hlt).mpr (walk_leaf leaf hlt hlt)

/-- A walk goes upwards and visits the operators and the items next to them. -/
theorem traverse_visits (items : List Item) : (build items).traverse.Pairwise (· < ·) ∧
    ∀ j, j ∈ (build items).traverse ↔ IsVisited items j := by
  have horder := inOrder_traverse items
  rw [root?_build] at horder
  cases hfirst : items.findIdx? Item.isOperator with
  | some r =>
      obtain ⟨operator, hbefore⟩ := findIdx?_eq_some.mp hfirst
      rw [hfirst] at horder
      obtain ⟨hascending, hmem⟩ := horder.visits r rfl operator
      refine ⟨hascending, fun j => (hmem j).trans (and_iff_left_of_imp fun visited => ?_)⟩
      -- Before the first operator there is nothing to visit but the item next to it.
      by_cases hj : r ≤ j
      · exact .inl hj
      · have leaf := hbefore j (by omega)
        refine .inr ⟨?_, leaf⟩
        cases visited with
        | operator other => exact absurd other leaf
        | beforeOperator _ other =>
            by_contra hne
            exact hbefore (j + 1) (by omega) other
        | @afterLast i _ other last =>
            have := last.after
            exact absurd other (hbefore i (by omega))
        | first _ hnone => exact absurd operator (hnone r)
  | none =>
      have hnone := findIdx?_eq_none.mp hfirst
      rw [hfirst] at horder
      cases items with
      | nil =>
          cases horder
          exact ⟨.nil, fun j => iff_of_false List.not_mem_nil fun h =>
            absurd h.lt (Nat.not_lt_zero j)⟩
      | cons item items =>
          have hlt : 0 < (item :: items).length := Nat.succ_pos _
          rw [(inOrder_leaf (hnone 0) hlt).mp horder]
          refine ⟨List.pairwise_singleton _ 0, fun j => ?_⟩
          rw [List.mem_singleton]
          constructor
          · rintro rfl
            exact .first hlt hnone
          · rintro (operator | ⟨-, operator⟩ | ⟨operator, -⟩ | -)
            · exact absurd operator (hnone _)
            · exact absurd operator (hnone _)
            · exact absurd operator (hnone _)
            · rfl

/-! ## Whole lines -/

/-- Numbers that go upwards below a bound are all the numbers below it, if there are enough. -/
theorem eq_range_of_ascending {order : List Nat} {n : Nat} (ascending : order.Pairwise (· < ·))
    (bound : ∀ j ∈ order, j < n) (length : order.length = n) : order = List.range n := by
  have distinct : order.Nodup := ascending.imp Nat.ne_of_lt
  have subset : order ⊆ List.range n := fun j hj => List.mem_range.mpr (bound j hj)
  have perm : order.Perm (List.range n) :=
    (List.subperm_of_subset distinct subset).perm_of_length_le (by simp [length])
  exact perm.eq_of_pairwise (fun a b _ _ hab hba => absurd hab (Nat.lt_asymm hba)) ascending
    List.pairwise_lt_range

theorem filterMap_getElem?_range {α : Type} (xs : List α) :
    (List.range xs.length).filterMap (xs[·]?) = xs := by
  induction xs with
  | nil => rfl
  | cons x xs ih =>
      rw [List.length_cons, List.range_succ_eq_map,
        List.filterMap_cons_some (List.getElem?_cons_zero ..), List.filterMap_map]
      exact congrArg (x :: ·) ih

/-- A walk that visits as many nodes as there are gives the texts of all items, in order. -/
theorem resolve_of_whole {items : List Item}
    (whole : (build items).traverse.length = (build items).nodes.length)
    (handles : HandleTable) : (build items).resolve handles = do
      return " ".intercalate (← items.mapM (Item.source handles)) := by
  -- As many indices as there are items, going upwards, are the indices of all items.
  obtain ⟨ascending, visits⟩ := traverse_visits items
  have order : (build items).traverse = List.range (build items).nodes.length :=
    eq_range_of_ascending ascending (fun j hj => length_build items ▸ ((visits j).mp hj).lt) whole
  unfold resolve
  simp only [whole, ne_eq, not_true_eq_false, if_false]
  rw [order, filterMap_getElem?_range]
  conv_rhs => rw [← map_item_build items, List.mapM_map]
  rfl

theorem resolve_of_short {chain : Chain} (short : chain.traverse.length ≠ chain.nodes.length)
    (handles : HandleTable) :
    chain.resolve handles = .error (.detachedItem (chain.firstMissed chain.traverse)) := by
  rw [resolve, if_pos short]
  rfl

/-- Resolving either leaves out an item or gives the texts of all items, in order. -/
theorem resolve_build (items : List Item) (handles : HandleTable) :
    (∃ index, (build items).resolve handles = .error (.detachedItem index)) ∨
      (build items).resolve handles = do
        return " ".intercalate (← items.mapM (Item.source handles)) := by
  by_cases whole : (build items).traverse.length = (build items).nodes.length
  · exact .inr (resolve_of_whole whole handles)
  · exact .inl ⟨_, resolve_of_short whole handles⟩

end QubitScript.Chain
