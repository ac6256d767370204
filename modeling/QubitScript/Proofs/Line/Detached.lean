import Mathlib.Logic.Relation
import QubitScript.Proofs.Line.Itemizing
import QubitScript.Proofs.Line.Walk

/-!
# Detached items

A walk needs no more than a stack of nodes to come back to, and it ends. An item is left out when it
stands beside another one and neither is an operator. The first such run of items decides which item
is reported, and without one the line is given back as it is.
-/

namespace QubitScript

/-! ## Texts of items -/

namespace Item

/-- The handles that stand in an item. -/
def handles : Item → List Handle
  | operator _ | name _ => []
  | value handle => [handle]
  | call lineCall => lineCall.arguments

theorem exists_source {table : HandleTable} {item : Item}
    (known : ∀ handle ∈ item.handles, handle.index < table.size) :
    ∃ text, item.source table = .ok text := by
  have resolves : ∀ handle ∈ item.handles, ∃ text, table.resolve handle = .ok text := by
    intro handle hhandle
    exact ⟨_, HandleTable.resolve_eq_ok.mpr (List.getElem?_eq_getElem (known handle hhandle))⟩
  cases item with
  | operator text => exact ⟨text, rfl⟩
  | name text => exact ⟨text, rfl⟩
  | value handle => exact resolves handle (.head [])
  | call lineCall =>
      obtain ⟨texts, htexts⟩ := exists_mapM resolves
      exact ⟨Call.assemble lineCall.name texts, bind_eq_ok.mpr ⟨texts, htexts, rfl⟩⟩

/-- The text of an item is missing only where a handle is unknown. -/
theorem source_ne_detached {table : HandleTable} {item : Item} {index : Nat} :
    item.source table ≠ .error (.detachedItem index) := by
  have hresolve : ∀ handle, table.resolve handle ≠ .error (.detachedItem index) := by
    intro handle
    rw [HandleTable.resolve]
    cases table.get? handle <;> nofun
  cases item with
  | operator text => nofun
  | name text => nofun
  | value handle => exact hresolve handle
  | call lineCall =>
      intro h
      obtain ⟨handle, -, hhandle⟩ := mapM_eq_error (error_of_bind_pure h)
      exact hresolve handle hhandle

end Item

namespace Chain

/-! ## Walking with a stack -/

/-- A walk on its way: the node to go down from next, the nodes that it has gone down from and has
not visited yet, the latest first, and the nodes that it has visited. -/
structure Visit where
  current : Option Nat
  stack : List Nat
  order : List Nat

/-- Goes down to the left, or visits the latest node on the stack and goes on to its right. There is
no next step when nothing is left, nor from a node that the chain does not have. -/
def advance? (chain : Chain) : Visit → Option Visit
  | ⟨some index, stack, order⟩ =>
    chain.nodes[index]?.map fun node => ⟨node.left, index :: stack, order⟩
  | ⟨none, index :: stack, order⟩ =>
    chain.nodes[index]?.map fun node => ⟨node.right, stack, order ++ [index]⟩
  | ⟨none, [], _⟩ => none

/-- Steps lead from one state of a walk to another. -/
def Leads (chain : Chain) : Visit → Visit → Prop :=
  Relation.ReflTransGen fun visit next => chain.advance? visit = some next

/-- The nodes below a node are visited in order, whatever is on the stack, and then the stack is as
it was. -/
theorem InOrder.leads {chain : Chain} {start : Option Nat} {below : List Nat}
    (h : InOrder chain start below) : ∀ stack order,
    chain.Leads ⟨start, stack, order⟩ ⟨none, stack, order ++ below⟩ := by
  induction h with
  | empty =>
      intro stack order
      rw [List.append_nil]
      exact .refl
  | @node index node before after hnode _ _ ihBefore ihAfter =>
      intro stack order
      have down : chain.advance? ⟨some index, stack, order⟩ =
          some ⟨node.left, index :: stack, order⟩ := by
        rw [advance?, hnode, Option.map_some]
      have visit : chain.advance? ⟨none, index :: stack, order ++ before⟩ =
          some ⟨node.right, stack, order ++ before ++ [index]⟩ := by
        rw [advance?, hnode, Option.map_some]
      have rest := ihAfter stack (order ++ before ++ [index])
      rw [show order ++ before ++ [index] ++ after = order ++ (before ++ index :: after) by simp]
        at rest
      exact .trans (.head down (ihBefore (index :: stack) order)) (.head visit rest)

/-! ## Runs of items -/

variable {items : List Item}

/-- Items `i` and `i + 1` are both no operators. -/
def AdjacentAt (items : List Item) (i : Nat) : Prop :=
  i + 1 < items.length ∧ ¬ OperatorAt items i ∧ ¬ OperatorAt items (i + 1)

/-- The items from `first` on and before `stop` are all no operators, and there is none beside them
that is no operator either. They are two or more. -/
structure DetachedRun (items : List Item) (first stop : Nat) : Prop where
  long : first + 2 ≤ stop
  within : stop ≤ items.length
  leaves : ∀ k, first ≤ k → k < stop → ¬ OperatorAt items k
  starts : first = 0 ∨ OperatorAt items (first - 1)
  stops : stop = items.length ∨ OperatorAt items stop

/-- Going to the left from an item that is no operator, one comes to an operator or to the start. -/
theorem exists_start {i : Nat} (leaf : ¬ OperatorAt items i) : ∃ first ≤ i,
    (∀ k, first ≤ k → k ≤ i → ¬ OperatorAt items k) ∧
      (first = 0 ∨ OperatorAt items (first - 1)) := by
  induction i with
  | zero => exact ⟨0, Nat.le_refl 0, fun k _ hk => Nat.le_zero.mp hk ▸ leaf, .inl rfl⟩
  | succ i ih =>
      by_cases operator : OperatorAt items i
      · refine ⟨i + 1, Nat.le_refl _, fun k hfirst hk => ?_, .inr operator⟩
        exact Nat.le_antisymm hk hfirst ▸ leaf
      · obtain ⟨first, hfirst, hleaves, hstarts⟩ := ih operator
        refine ⟨first, by omega, fun k hk hki => ?_, hstarts⟩
        rcases Nat.eq_or_lt_of_le hki with rfl | hki
        · exact leaf
        · exact hleaves k hk (by omega)

/-- Going to the right, one comes to an operator or to the end. -/
theorem exists_stop {i : Nat} (hi : i ≤ items.length) : ∃ stop, i ≤ stop ∧ stop ≤ items.length ∧
    (∀ k, i ≤ k → k < stop → ¬ OperatorAt items k) ∧
      (stop = items.length ∨ OperatorAt items stop) := by
  have hexists : ∃ stop, i ≤ stop ∧ (stop = items.length ∨ OperatorAt items stop) :=
    ⟨items.length, hi, .inl rfl⟩
  obtain ⟨hfrom, hstops⟩ := Nat.find_spec hexists
  refine ⟨Nat.find hexists, hfrom, Nat.find_min' hexists ⟨hi, .inl rfl⟩, fun k hk hlt => ?_, hstops⟩
  exact fun operator => Nat.find_min hexists hlt ⟨hk, .inr operator⟩

/-- Two adjacent items that are no operators belong to a run. -/
theorem AdjacentAt.exists_run {i : Nat} (h : AdjacentAt items i) :
    ∃ first stop, DetachedRun items first stop ∧ first ≤ i := by
  obtain ⟨hi, hleaf, hnext⟩ := h
  obtain ⟨first, hfirst, hbefore, hstarts⟩ := exists_start hleaf
  obtain ⟨stop, hstop, hwithin, hafter, hstops⟩ := exists_stop (Nat.succ_le_of_lt hi)
  refine ⟨first, stop, ⟨by omega, hwithin, fun k hk hlt => ?_, hstarts, hstops⟩, hfirst⟩
  by_cases hk' : k ≤ i
  · exact hbefore k hk hk'
  · rcases Nat.eq_or_lt_of_le (show i + 1 ≤ k by omega) with rfl | hk''
    · exact hnext
    · exact hafter k hk'' hlt

/-- The first run of a line in which there is one. -/
structure FirstRun (items : List Item) (first stop : Nat) : Prop where
  run : DetachedRun items first stop
  earliest : ∀ other stop', DetachedRun items other stop' → first ≤ other

theorem AdjacentAt.exists_firstRun {i : Nat} (h : AdjacentAt items i) :
    ∃ first stop, FirstRun items first stop := by
  classical
  have hexists : ∃ first stop, DetachedRun items first stop := by
    obtain ⟨first, stop, run, -⟩ := h.exists_run
    exact ⟨first, stop, run⟩
  obtain ⟨stop, run⟩ := Nat.find_spec hexists
  exact ⟨Nat.find hexists, stop, run, fun other stop' run' => Nat.find_min' hexists ⟨stop', run'⟩⟩

theorem FirstRun.le_of_adjacent {first stop i : Nat} (h : FirstRun items first stop)
    (hi : AdjacentAt items i) : first ≤ i := by
  obtain ⟨other, stop', run, hother⟩ := hi.exists_run
  exact Nat.le_trans (h.earliest other stop' run) hother

/-! ## Items that are left out -/

/-- An item that is left out is no operator, and neither is one of those beside it. -/
theorem adjacent_of_missed {i : Nat} (hi : i < items.length) (missed : ¬ IsVisited items i) :
    AdjacentAt items i ∨ ∃ j, j + 1 = i ∧ AdjacentAt items j := by
  have hleaf : ¬ OperatorAt items i := mt .operator missed
  have hnext : ¬ OperatorAt items (i + 1) := mt (.beforeOperator hleaf) missed
  by_cases hlast : i + 1 < items.length
  · exact .inl ⟨hlast, hleaf, hnext⟩
  · -- The item is the last one. It is not visited, so an operator comes before it, but not next.
    have hend : ∀ k, i ≤ k → ¬ OperatorAt items k := by
      intro k hk operator
      have := operator.lt
      exact hleaf (show k = i by omega ▸ operator)
    cases i with
    | zero => exact absurd (.first hi fun k => hend k (Nat.zero_le k)) missed
    | succ j =>
        refine .inr ⟨j, rfl, hi, fun operator => missed ?_, hleaf⟩
        exact .afterLast operator ⟨rfl, hi, fun k hk => hend k hk⟩

/-- The first item of the first run is left out if an operator follows the run, and if not its
second one is. -/
theorem FirstRun.missed {first stop : Nat} (h : FirstRun items first stop) :
    let index := if OperatorAt items stop then first else first + 1
    index < items.length ∧ ¬ IsVisited items index ∧ ∀ k < index, IsVisited items k := by
  have hlong := h.run.long
  have hwithin := h.run.within
  have hleaves := h.run.leaves
  -- An item that is left out is in a run, and there is none before the first one.
  have hbefore : ∀ k < first, IsVisited items k := by
    intro k hk
    by_contra missed
    rcases adjacent_of_missed (by omega) missed with hadjacent | ⟨j, rfl, hadjacent⟩
    · exact absurd (h.le_of_adjacent hadjacent) (by omega)
    · exact absurd (h.le_of_adjacent hadjacent) (by omega)
  by_cases hstop : OperatorAt items stop
  · rw [if_pos hstop]
    refine ⟨by omega, ?_, hbefore⟩
    rintro (operator | ⟨-, operator⟩ | ⟨operator, last⟩ | ⟨-, hnone⟩)
    · exact hleaves first (Nat.le_refl _) (by omega) operator
    · exact hleaves (first + 1) (by omega) (by omega) operator
    · have := last.after
      exact last.last stop (by omega) hstop
    · exact hnone stop hstop
  · rw [if_neg hstop]
    have hend : stop = items.length := h.run.stops.resolve_right hstop
    have hnone : ∀ k, first ≤ k → ¬ OperatorAt items k := fun k hk operator =>
      hleaves k hk (hend ▸ operator.lt) operator
    refine ⟨by omega, ?_, fun k hk => ?_⟩
    · generalize hindex : first + 1 = index
      rintro (operator | ⟨-, operator⟩ | ⟨operator, last⟩ | ⟨-, -⟩)
      · exact hnone _ (by omega) operator
      · exact hnone _ (by omega) operator
      · have := last.after
        exact hnone _ (by omega) operator
      · omega
    · rcases Nat.eq_or_lt_of_le (Nat.le_of_lt_succ hk) with rfl | hk
      · -- The run is the end of the line, so its first item comes after the last operator.
        rcases h.run.starts with rfl | operator
        · exact .first (by omega) fun k => hnone k (Nat.zero_le k)
        · have hpos : 0 < k := Nat.pos_of_ne_zero fun hzero => by
            subst hzero
            exact hnone 0 (Nat.le_refl _) operator
          exact .afterLast operator ⟨by omega, by omega, fun j hj => hnone j (by omega)⟩
      · exact hbefore k hk

/-! ## Whole lines -/

/-- A line in which a walk leaves an item out fails with the first such item. -/
theorem resolve_of_missed {index : Nat} (hindex : index < items.length)
    (missed : ¬ IsVisited items index) (hbefore : ∀ k < index, IsVisited items k)
    (handles : HandleTable) :
    (build items).resolve handles = .error (.detachedItem index) := by
  obtain ⟨ascending, visits⟩ := traverse_visits items
  have hmissed : (build items).firstMissed (build items).traverse = index := by
    have hfound : ((List.range (build items).nodes.length).find? fun i =>
        !(build items).traverse.contains i) = some index := by
      rw [List.find?_range_eq_some, length_build, List.mem_range]
      refine ⟨by simpa [visits] using missed, hindex, fun k hk => ?_⟩
      simpa [visits] using hbefore k hk
    rw [firstMissed, hfound, Option.getD_some]
  -- A walk of full length would go over every item, since it goes upwards.
  have short : (build items).traverse.length ≠ (build items).nodes.length := by
    intro whole
    have hall := eq_range_of_ascending ascending
      (fun j hj => length_build items ▸ ((visits j).mp hj).lt) whole
    rw [length_build] at hall
    exact missed ((visits index).mp (hall ▸ List.mem_range.mpr hindex))
  rw [resolve_of_short short, hmissed]

/-- A line without two adjacent items that are no operators is made of the texts of its items. -/
theorem resolve_of_connected (connected : ∀ i, ¬ AdjacentAt items i) (handles : HandleTable) :
    (build items).resolve handles = do
      return " ".intercalate (← items.mapM (Item.source handles)) := by
  obtain ⟨ascending, visits⟩ := traverse_visits items
  have hall : ∀ i, i ∈ (build items).traverse ↔ i ∈ List.range items.length := by
    intro i
    rw [visits, List.mem_range]
    refine ⟨IsVisited.lt, fun hi => ?_⟩
    by_contra missed
    rcases adjacent_of_missed hi missed with hadjacent | ⟨j, -, hadjacent⟩
    · exact connected i hadjacent
    · exact connected j hadjacent
  have hperm : (build items).traverse.Perm (List.range items.length) :=
    (List.perm_ext_iff_of_nodup (ascending.imp Nat.ne_of_lt) List.nodup_range).mpr hall
  exact resolve_of_whole (by rw [hperm.length_eq, List.length_range, length_build]) handles

/-- Resolving does not fail for a detached item otherwise than by leaving it out. -/
theorem not_detached_of_sources {handles : HandleTable} {index : Nat} :
    (do return " ".intercalate (← items.mapM (Item.source handles)) : Except LineError String) ≠
      .error (.detachedItem index) := by
  intro h
  obtain ⟨item, -, hsource⟩ := mapM_eq_error (error_of_bind_pure h)
  exact Item.source_ne_detached hsource

/-- On any line a walk with a stack comes to an end. It has gone upwards, over the operators and the
items next to them. The line fails for a detached item if and only if two adjacent items are no
operators; what is reported is the first item of the first run of such items if an operator follows
it, and its second item if not. Any other line whose handles are known is given back, its items in
order with single spaces between them. -/
theorem walk_of_line (items : List Item) (handles : HandleTable) :
    let chain := build items
    chain.Leads ⟨chain.root?, [], []⟩ ⟨none, [], chain.traverse⟩ ∧
    chain.traverse.Pairwise (· < ·) ∧
    (∀ i, i ∈ chain.traverse ↔ IsVisited items i) ∧
    ((∃ index, chain.resolve handles = .error (.detachedItem index)) ↔
      ∃ i, AdjacentAt items i) ∧
    (∀ index, chain.resolve handles = .error (.detachedItem index) ↔
      ∃ first stop, FirstRun items first stop ∧
        index = if OperatorAt items stop then first else first + 1) ∧
    ((∀ i, ¬ AdjacentAt items i) →
      (∀ item ∈ items, ∀ handle ∈ item.handles, handle.index < handles.size) →
      ∃ texts, List.Forall₂ (fun item text => item.source handles = .ok text) items texts ∧
        chain.resolve handles = .ok (" ".intercalate texts)) := by
  intro chain
  obtain ⟨ascending, visits⟩ := traverse_visits items
  have failing : ∀ first stop, FirstRun items first stop → chain.resolve handles =
      .error (.detachedItem (if OperatorAt items stop then first else first + 1)) := by
    intro first stop hfirst
    obtain ⟨hindex, missed, hbefore⟩ := hfirst.missed
    exact resolve_of_missed hindex missed hbefore handles
  have adjacent : ∀ index, chain.resolve handles = .error (.detachedItem index) →
      ∃ i, AdjacentAt items i := by
    intro index hresolve
    by_contra connected
    rw [resolve_of_connected (not_exists.mp connected)] at hresolve
    exact not_detached_of_sources hresolve
  refine ⟨(inOrder_traverse items).leads [] [], ascending, visits, ?_, fun index => ?_, ?_⟩
  · constructor
    · rintro ⟨index, hresolve⟩
      exact adjacent index hresolve
    · rintro ⟨i, hadjacent⟩
      obtain ⟨first, stop, hfirst⟩ := hadjacent.exists_firstRun
      exact ⟨_, failing first stop hfirst⟩
  · constructor
    · intro hresolve
      obtain ⟨i, hadjacent⟩ := adjacent index hresolve
      obtain ⟨first, stop, hfirst⟩ := hadjacent.exists_firstRun
      refine ⟨first, stop, hfirst, ?_⟩
      rw [failing first stop hfirst] at hresolve
      cases hresolve
      rfl
    · rintro ⟨first, stop, hfirst, rfl⟩
      exact failing first stop hfirst
  · intro connected known
    obtain ⟨texts, htexts⟩ := exists_mapM fun item hitem => Item.exists_source (known item hitem)
    refine ⟨texts, mapM_eq_ok.mp htexts, ?_⟩
    rw [resolve_of_connected connected, htexts]
    rfl

end Chain

end QubitScript
