/-
**Sheets and the scopes inside.**

A sheet depends on the payloads inside of those scopes only that stand in the trees of its outline:

* `Tree.payloads_congr`: so does what a row of trees is written as.
* `Item.remark_congr`, `Table.supply_congr`, `Join.link_congr`: the parts of a sheet.
* **`Outline.sheet_matches`**: all regions of a sheet.
-/

import SqlDraft.Proofs.Sheet.Passing

namespace SqlDraft

variable {inside other : Slot → List Payload}

/-! ### Scopes that stand in trees -/

namespace Tree

theorem scopes_subset_of_mem {trees : List Tree} {tree : Tree} (member : tree ∈ trees) :
    scopes [tree] ⊆ scopes trees := by
  obtain ⟨front, back, rfl⟩ := List.append_of_mem member
  have whole : front ++ tree :: back = front ++ ([tree] ++ back) := rfl
  rw [whole, scopes_append, scopes_append]
  exact fun root stands => List.mem_append_right _ (List.mem_append_left _ stands)

theorem scopes_node (mark : Option Slot) (payload : Payload) (below : List Tree) :
    scopes [node mark payload below] = scopes below := by
  rw [scopes, scopes, List.append_nil]

/-- **A row of trees depends on the scopes that stand in it.** -/
theorem payloads_congr {trees : List Tree} (same : ∀ root ∈ scopes trees, inside root = other root) :
    payloads inside trees = payloads other trees := by
  fun_induction scopes trees with
  | case1 => rw [payloads_nil, payloads_nil]
  | case2 root rest step =>
    rw [payloads, payloads, same root List.mem_cons_self,
      step fun found stands => same found (List.mem_cons_of_mem root stands)]
  | case3 mark payload below rest stepBelow step =>
    rw [payloads, payloads, stepBelow fun found stands => same found (List.mem_append_left _ stands),
      step fun found stands => same found (List.mem_append_right _ stands)]

end Tree

/-! ### Parts of a sheet -/

theorem Source.body_congr {source : Source}
    (same : ∀ root ∈ Tree.scopes [source.tree], inside root = other root) :
    source.body inside = source.body other := by
  cases source with
  | name slot text => rfl
  | scope root => rw [body, body, same root (by rw [tree, Tree.scopes]; exact List.mem_cons_self)]

theorem Item.remark_congr {item : Item}
    (same : ∀ root ∈ Tree.scopes item.content.trees, inside root = other root) :
    item.remark inside = item.remark other := by
  refine congrArg (Remark.mk item.logic) ?_
  cases content : item.content with
  | leaf sql => rfl
  | scope nested root =>
    rw [content, Content.trees, Tree.scopes_append] at same
    rw [Content.body, Content.body, same root
      (List.mem_append_right _ (by rw [Tree.scopes]; exact List.mem_cons_self))]

theorem scopes_shell (first : Bool) (mark : Slot) (logic : Connective) (content : List Tree) :
    Tree.scopes [shell first mark logic content] = Tree.scopes content := by
  unfold shell
  split
  · exact Tree.scopes_node _ _ _
  · exact Tree.scopes_node _ _ _
  · rw [Tree.scopes_node, Tree.scopes_node]

theorem Item.scopes_subset {items : List Item} {item : Item} (member : item ∈ items) :
    Tree.scopes item.content.trees ⊆ Tree.scopes (Item.trees items) := by
  have stands : ∃ first, item.tree first ∈ Item.trees items := by
    cases items with
    | nil => exact nomatch member
    | cons head rest =>
      rcases List.mem_cons.mp member with rfl | behind
      · exact ⟨true, List.mem_cons_self⟩
      · exact ⟨false, List.mem_cons_of_mem _ (List.mem_map_of_mem behind)⟩
  obtain ⟨first, stands⟩ := stands
  rw [← scopes_shell first item.mark item.logic]
  exact Tree.scopes_subset_of_mem stands

theorem Item.remarks_congr {items : List Item}
    (same : ∀ root ∈ Tree.scopes (Item.trees items), inside root = other root) :
    items.map (Item.remark inside) = items.map (Item.remark other) :=
  List.map_congr_left fun _ member => remark_congr fun root stands =>
    same root (scopes_subset member stands)

theorem Table.supply_congr {table : Table}
    (same : ∀ root ∈ Tree.scopes table.trees, inside root = other root) :
    table.supply inside = table.supply other := by
  refine congrArg (Supply.mk · table.name) (Source.body_congr fun root stands => same root ?_)
  exact Tree.scopes_subset_of_mem List.mem_cons_self stands

theorem Join.link_congr {join : Join}
    (same : ∀ root ∈ Tree.scopes join.trees, inside root = other root) :
    join.link inside = join.link other := by
  have body : join.source.body inside = join.source.body other := by
    refine Source.body_congr fun root stands => same root ?_
    exact Tree.scopes_subset_of_mem List.mem_cons_self stands
  refine congrArg₂ (Link.mk join.kind · join.name) body (Option.map_congr fun clause known =>
    Item.remarks_congr fun root stands => same root ?_)
  have member : clause.tree .joinOn (Item.trees clause.part) ∈ join.trees :=
    List.mem_cons_of_mem _ (List.mem_append_right _
      (List.mem_map.mpr ⟨clause, Option.mem_toList.mpr known, rfl⟩))
  refine Tree.scopes_subset_of_mem member ?_
  rwa [Clause.tree, Tree.scopes_node]

/-! ### All regions -/

namespace Outline

variable {outline : Outline}

/-- What stands below a clause stands in the scope. -/
theorem scopes_clause (plain : outline.kind ≠ .group) {rank : Nat} (ranked : rank < 9)
    {Part : Type} {clause : Clause Part} {word : Keyword} {below : List Tree}
    (member : clause.tree word below ∈ outline.row rank) :
    Tree.scopes below ⊆ Tree.scopes outline.trees := by
  have stands := Tree.scopes_subset_of_mem (mem_trees plain ranked member)
  rwa [Clause.tree, Tree.scopes_node] at stands

/-- A clause that there may be. -/
theorem scopes_clause? (plain : outline.kind ≠ .group) {rank : Nat} (ranked : rank < 9)
    {Part : Type} {clause : Option (Clause Part)} {word : Clause Part → Keyword}
    {below : Clause Part → List Tree}
    (row : outline.row rank = clause.toList.map fun clause => clause.tree (word clause) (below clause))
    {found : Clause Part} (known : found ∈ clause) :
    Tree.scopes (below found) ⊆ Tree.scopes outline.trees := by
  have member : found.tree (word found) (below found) ∈ outline.row rank := by
    rw [row]
    exact List.mem_map.mpr ⟨found, Option.mem_toList.mpr known, rfl⟩
  exact scopes_clause plain ranked member

/-- **A sheet depends on the scopes that stand in its outline.** -/
theorem sheet_matches (plain : outline.kind ≠ .group)
    (same : ∀ root ∈ Tree.scopes outline.trees, inside root = other root) :
    (outline.sheet inside).Matches (outline.sheet other) := by
  refine ⟨fun region => ⟨decide_eq_false plain, decide_eq_false plain, ?_⟩, rfl⟩
  cases region with
  | command | grouping | ordering | limit | offset => rfl
  | table =>
    refine Option.map_congr fun clause known => Table.supply_congr fun root stands => same root ?_
    exact scopes_clause? plain (show 1 < 9 by decide) rfl known stands
  | joins =>
    refine List.map_congr_left fun clause member => Join.link_congr fun root stands => same root ?_
    exact scopes_clause plain (show 2 < 9 by decide) (List.mem_map_of_mem member) stands
  | filters =>
    refine Option.map_congr fun clause known => Item.remarks_congr fun root stands => same root ?_
    exact scopes_clause? plain (show 3 < 9 by decide) rfl known stands
  | havings =>
    refine Option.map_congr fun clause known => Item.remarks_congr fun root stands => same root ?_
    exact scopes_clause? plain (show 5 < 9 by decide) rfl known stands
  | unions =>
    refine List.map_congr_left fun clause member => ?_
    have stands : clause.part.root ∈ Tree.scopes [.scope clause.part.root] := by
      rw [Tree.scopes]
      exact List.mem_cons_self
    have below := same _
      (scopes_clause plain (show 6 < 9 by decide) (List.mem_map_of_mem member) stands)
    rw [Branch.entry, Branch.entry, below]

end Outline

end SqlDraft
