/-
**Trees of what is said in a scope.**

Only the clauses of a scope are headed by tags of clauses, and the parentheses in a tree come from
scopes that were closed. What stands inside of clauses is drawn by other marks:

* `Tree.Inner`: no node of some trees heads a clause or is a parenthesis.
* `Outline.inner_of_mem_row`: what stands inside of a clause is such trees.
* `Outline.inner_of_mem_trees`: what heads a clause stands at the top of a scope.
* `Outline.plain_inner`: what is said in a scope has no parentheses of its own.
* `Store.Shows.payload_mem`: the nodes of a row hold payloads of the trees that it shows.
* `Store.Shows.paren?_eq_none`: a row that shows trees without parentheses has none.
-/

import SqlDraft.Proofs.Sketch.Outline
import SqlDraft.Proofs.Store.Nesting

namespace SqlDraft

open Relation

/-- Whether a payload heads no clause and is no parenthesis. -/
def Payload.Inner (payload : Payload) : Prop := payload.rank? = none ∧ payload.paren? = none

/-! ### Trees without clauses -/

namespace Tree

/-- No node of some trees heads a clause or is a parenthesis. -/
def Inner (trees : List Tree) : Prop := ∀ payload ∈ payloads (fun _ => []) trees, payload.Inner

theorem inner_nil : Inner [] := by
  intro payload member
  rw [payloads_nil] at member
  exact nomatch member

theorem inner_append {front back : List Tree} :
    Inner (front ++ back) ↔ Inner front ∧ Inner back := by
  unfold Inner
  rw [payloads_append, List.forall_mem_append]

theorem inner_scope {root : Slot} {rest : List Tree} (inner : Inner rest) :
    Inner (.scope root :: rest) := by
  intro payload member
  rw [payloads] at member
  rcases List.mem_cons.mp member with rfl | behind
  · exact ⟨rfl, rfl⟩
  · exact inner payload behind

theorem inner_node {mark : Option Slot} {content : Payload} {below rest : List Tree} :
    Inner (.node mark content below :: rest) ↔ content.Inner ∧ Inner below ∧ Inner rest := by
  unfold Inner
  rw [payloads]
  simp only [List.mem_cons, List.mem_append, or_imp, forall_and, forall_eq]

theorem Inner.of_mem {trees below : List Tree} {mark : Option Slot} {content : Payload}
    (inner : Inner trees) (member : .node mark content below ∈ trees) :
    content.Inner ∧ Inner below := by
  obtain ⟨front, back, rfl⟩ := List.append_of_mem member
  obtain ⟨heads, inside, -⟩ := inner_node.mp (inner_append.mp inner).2
  exact ⟨heads, inside⟩

theorem inner_flatMap {Thing : Type} {trees : Thing → List Tree} {things : List Thing}
    (inner : ∀ thing ∈ things, Inner (trees thing)) : Inner (things.flatMap trees) := by
  induction things with
  | nil => exact inner_nil
  | cons thing rest step =>
    rw [List.flatMap_cons]
    refine inner_append.mpr ⟨inner thing List.mem_cons_self, step fun other member => ?_⟩
    exact inner other (List.mem_cons_of_mem _ member)

theorem inner_map {Thing : Type} {tree : Thing → Tree} {things : List Thing}
    (inner : ∀ thing ∈ things, Inner [tree thing]) : Inner (things.map tree) := by
  rw [List.map_eq_flatMap]
  exact inner_flatMap inner

theorem inner_leaf {content : Payload} {rest : List Tree} (mark : content.Inner)
    (inner : Inner rest) : Inner (.leaf content :: rest) :=
  inner_node.mpr ⟨mark, inner_nil, inner⟩

end Tree

open SqlDraft.Tree

theorem Payload.inner_literal (text : String) : (Payload.literal text).Inner := ⟨rfl, rfl⟩

theorem inner_listed {Thing : Type} {trees : Thing → List Tree}
    (inner : ∀ thing, Inner (trees thing)) (things : List Thing) : Inner (listed trees things) := by
  cases things with
  | nil => exact inner_nil
  | cons first rest =>
    exact inner_append.mpr
      ⟨inner first, inner_flatMap fun thing _ => inner_leaf ⟨rfl, rfl⟩ (inner thing)⟩

theorem inner_nameTrees (name : Option String) : Inner (nameTrees name) :=
  inner_map fun text _ =>
    inner_node.mpr ⟨⟨rfl, rfl⟩, inner_leaf (Payload.inner_literal text) inner_nil, inner_nil⟩

theorem Source.inner_tree (source : Source) {rest : List Tree} (inner : Inner rest) :
    Inner (source.tree :: rest) := by
  cases source with
  | name slot text => exact inner_node.mpr ⟨Payload.inner_literal text, inner_nil, inner⟩
  | scope root => exact inner_scope inner

theorem Content.inner_trees (content : Content) : Inner content.trees := by
  cases content with
  | leaf sql => exact inner_leaf (Payload.inner_literal sql) inner_nil
  | scope nested root =>
    refine inner_append.mpr ⟨inner_map fun lead given => ?_, inner_scope inner_nil⟩
    refine inner_leaf ?_ inner_nil
    cases nested with
    | operand column operator =>
      obtain rfl : lead = _ := List.mem_singleton.mp given
      exact ⟨rfl, rfl⟩
    | existence =>
      obtain rfl : lead = _ := List.mem_singleton.mp given
      exact ⟨rfl, rfl⟩
    | group => exact nomatch given

theorem Connective.inner_keyword (logic : Connective) : (Payload.keyword logic.keyword).Inner := by
  cases logic <;> exact ⟨rfl, rfl⟩

theorem Item.inner_tree (first : Bool) (item : Item) : Inner [item.tree first] := by
  have content := item.content.inner_trees
  unfold Item.tree shell
  split
  · refine inner_node.mpr ⟨?_, content, inner_nil⟩
    split <;> exact ⟨rfl, rfl⟩
  · exact inner_node.mpr ⟨item.logic.inner_keyword, content, inner_nil⟩
  · exact inner_node.mpr ⟨item.logic.inner_keyword,
      inner_node.mpr ⟨⟨rfl, rfl⟩, content, inner_nil⟩, inner_nil⟩

theorem Item.inner_trees (items : List Item) : Inner (Item.trees items) := by
  cases items with
  | nil => exact inner_nil
  | cons first rest =>
    exact (@inner_append [_] _).mpr
      ⟨first.inner_tree true, inner_map fun item _ => item.inner_tree false⟩

/-! ### What stands inside of clauses -/

theorem Column.inner_trees (column : Column) : Inner column.trees :=
  inner_node.mpr ⟨Payload.inner_literal column.text, inner_nil, inner_nameTrees column.name⟩

theorem inner_sortTrees (column : String × Option Direction) : Inner (sortTrees column) := by
  refine inner_leaf (Payload.inner_literal column.1)
    (inner_map fun direction _ => inner_leaf ?_ inner_nil)
  cases direction <;> exact ⟨rfl, rfl⟩

theorem Action.inner_trees (action : Action) : Inner action.trees := by
  cases action with
  | columns distinct columns => exact inner_listed Column.inner_trees columns
  | all distinct => exact inner_leaf ⟨rfl, rfl⟩ inner_nil
  | removal removal => exact inner_nil

theorem Join.inner_trees (join : Join) : Inner join.trees := by
  refine join.source.inner_tree (inner_append.mpr ⟨inner_nameTrees join.name, ?_⟩)
  exact inner_map fun clause _ =>
    inner_node.mpr ⟨⟨rfl, rfl⟩, Item.inner_trees clause.part, inner_nil⟩

theorem Page.inner_trees (page : Page) : Inner page.trees := by
  refine inner_append.mpr
    ⟨inner_map fun _ _ => inner_leaf ⟨rfl, rfl⟩ inner_nil, inner_map fun _ _ => ?_⟩
  exact inner_node.mpr ⟨⟨rfl, rfl⟩, inner_leaf ⟨rfl, rfl⟩ inner_nil, inner_nil⟩

namespace Outline

/-- What is drawn below the clauses of one rank. -/
theorem inner_of_clause {Part : Type} {clauses : List (Clause Part)} {word : Clause Part → Keyword}
    {below : Clause Part → List Tree} (inner : ∀ clause, Inner (below clause)) {slot : Slot}
    {content : Payload} {inside : List Tree} (member : .node (some slot) content inside ∈
      clauses.map fun clause => clause.tree (word clause) (below clause)) : Inner inside := by
  obtain ⟨clause, -, same⟩ := List.mem_map.mp member
  obtain ⟨-, -, rfl⟩ := Tree.node.inj same
  exact inner clause

/-- **No clause and no parenthesis stands inside of a clause.** -/
theorem inner_of_mem_row {outline : Outline} {rank : Nat} {slot : Slot} {content : Payload}
    {below : List Tree} (member : .node (some slot) content below ∈ outline.row rank) :
    Inner below := by
  match rank, member with
  | 0, member => exact inner_of_clause (fun clause => clause.part.inner_trees) member
  | 1, member =>
    refine inner_of_clause (fun clause => ?_) member
    exact clause.part.source.inner_tree (inner_nameTrees clause.part.name)
  | 2, member => exact inner_of_clause (fun clause => clause.part.inner_trees) member
  | 3, member | 5, member =>
    exact inner_of_clause (fun clause => Item.inner_trees clause.part) member
  | 4, member =>
    refine inner_of_clause (fun clause => inner_listed (fun text => ?_) clause.part) member
    exact inner_leaf (Payload.inner_literal text) inner_nil
  | 6, member => exact inner_of_clause (fun _ => inner_scope inner_nil) member
  | 7, member =>
    exact inner_of_clause (fun clause => inner_listed inner_sortTrees clause.part) member
  | 8, member => exact inner_of_clause (fun clause => clause.part.inner_trees) member
  | _ + 9, member => exact absurd member List.not_mem_nil

/-- **What heads a clause stands at the top of a scope**, and the scope is no group. -/
theorem inner_of_mem_trees {outline : Outline} {mark : Option Slot} {content : Payload}
    {below : List Tree} (member : .node mark content below ∈ outline.trees) :
    Inner below ∧ (content.rank?.isSome → outline.kind ≠ .group) := by
  have paren {word : Keyword} (none : word.rank? = none)
      (same : Tree.node mark content below = .leaf (.keyword word)) :
      Inner below ∧ (content.rank?.isSome → outline.kind ≠ .group) := by
    obtain ⟨-, rfl, rfl⟩ := Tree.node.inj same
    exact ⟨inner_nil, fun ranked => absurd ((congrArg Option.isSome none).symm.trans ranked) nofun⟩
  have inside (said : Tree.node mark content below ∈ outline.inner) :
      Inner below ∧ (content.rank?.isSome → outline.kind ≠ .group) := by
    by_cases group : outline.kind = .group
    · rw [inner_eq_members group] at said
      obtain ⟨⟨unranked, -⟩, inner⟩ := (Item.inner_trees outline.members).of_mem said
      exact ⟨inner, fun ranked => absurd (unranked ▸ ranked) nofun⟩
    · rw [inner_eq_clauses group] at said
      obtain ⟨rank, -, inRow⟩ := List.mem_flatMap.mp said
      obtain ⟨slot, word, row, same, -⟩ := rank?_of_mem_row inRow
      rw [same] at inRow
      obtain ⟨-, -, rfl⟩ := Tree.node.inj same
      exact ⟨inner_of_mem_row inRow, fun _ => group⟩
  unfold trees at member
  split at member
  · rcases List.mem_cons.mp member with left | member
    · exact paren rfl left
    · rcases List.mem_append.mp member with said | right
      · exact inside said
      · exact paren rfl (List.mem_singleton.mp right)
  · exact inside member

end Outline

/-! ### Trees without parentheses -/

namespace Tree

/-- No node of some trees is a parenthesis. -/
def Plain (trees : List Tree) : Prop :=
  ∀ payload ∈ payloads (fun _ => []) trees, payload.paren? = none

theorem Inner.plain {trees : List Tree} (inner : Inner trees) : Plain trees :=
  fun payload member => (inner payload member).2

theorem plain_of_each {trees : List Tree} (plain : ∀ tree ∈ trees, Plain [tree]) : Plain trees := by
  induction trees with
  | nil => exact inner_nil.plain
  | cons tree rest step =>
    intro payload member
    rw [← List.singleton_append, payloads_append] at member
    rcases List.mem_append.mp member with first | behind
    · exact plain tree List.mem_cons_self payload first
    · exact step (fun other inRest => plain other (List.mem_cons_of_mem _ inRest)) payload behind

end Tree

theorem Keyword.paren?_of_rank {word : Keyword} {rank : Nat} (ranked : word.rank? = some rank) :
    (Payload.keyword word).paren? = none := by
  cases word <;> first | rfl | exact nomatch ranked

namespace Outline

theorem plain_row (outline : Outline) (rank : Nat) : Plain (outline.row rank) := by
  refine plain_of_each fun tree member => ?_
  obtain ⟨slot, word, below, rfl, ranked⟩ := rank?_of_mem_row member
  intro payload held
  rw [payloads, payloads_nil, List.append_nil] at held
  rcases List.mem_cons.mp held with rfl | deeper
  · exact Keyword.paren?_of_rank ranked
  · exact (inner_of_mem_row member).plain payload deeper

/-- **What is said in a scope has no parentheses of its own.** -/
theorem plain_inner (outline : Outline) : Plain outline.inner := by
  unfold inner
  split
  · exact (Item.inner_trees outline.members).plain
  · refine plain_of_each fun tree member => ?_
    obtain ⟨rank, -, inRow⟩ := List.mem_flatMap.mp member
    intro payload held
    refine outline.plain_row rank payload ?_
    obtain ⟨front, back, split⟩ := List.append_of_mem inRow
    rw [split, ← List.singleton_append, payloads_append, payloads_append]
    exact List.mem_append_right _ (List.mem_append_left _ held)

end Outline

/-! ### Nodes that show trees -/

namespace Store

variable {store : Store} {scopes : List Slot}

/-- A node of a row shows one of its trees, unless it is a scope. -/
theorem Shows.exists_tree {row : List Slot} {trees : List Tree}
    (shows : store.Shows scopes row trees) {slot : Slot} (member : slot ∈ row)
    (outside : slot ∉ scopes) : ∃ mark below, .node mark (store.payload slot) below ∈ trees ∧
      (∀ known ∈ mark, slot = known) ∧ store.Shows scopes (store.children slot) below := by
  induction shows with
  | nil => exact nomatch member
  | scope isScope _ step =>
    rcases List.mem_cons.mp member with rfl | behind
    · exact absurd isScope outside
    · obtain ⟨mark, below, stands, marked, shown⟩ := step behind
      exact ⟨mark, below, List.mem_cons_of_mem _ stands, marked, shown⟩
  | node _ marked inside _ _ step =>
    rcases List.mem_cons.mp member with rfl | behind
    · exact ⟨_, _, List.mem_cons_self, marked, inside⟩
    · obtain ⟨mark, below, stands, marked, shown⟩ := step behind
      exact ⟨mark, below, List.mem_cons_of_mem _ stands, marked, shown⟩

/-- **The nodes of a row hold payloads of the trees that it shows**, and so do the nodes below them
that belong to the same scope. -/
theorem Shows.payload_mem {row : List Slot} {trees : List Tree}
    (shows : store.Shows scopes row trees) {slot found : Slot} (member : slot ∈ row)
    (outside : slot ∉ scopes) (own : store.Own scopes slot found) :
    store.payload found ∈ payloads (fun _ => []) trees := by
  induction shows generalizing slot with
  | nil => exact nomatch member
  | @scope root row trees isScope _ step =>
    rw [payloads]
    rcases List.mem_cons.mp member with rfl | behind
    · exact absurd isScope outside
    · exact List.mem_cons_of_mem _ (List.mem_append_right _ (step behind outside own))
  | @node first mark below row trees _ _ _ _ stepInside stepBehind =>
    rw [payloads]
    rcases List.mem_cons.mp member with rfl | behind
    · rcases ReflTransGen.cases_head own with rfl | ⟨next, ⟨child, foreign⟩, further⟩
      · exact List.mem_cons_self
      · exact List.mem_cons_of_mem _ (List.mem_append_left _ (stepInside child foreign further))
    · exact List.mem_cons_of_mem _ (List.mem_append_right _ (stepBehind behind outside own))

/-- No node of a scope that shows trees without parentheses is one, and neither is a scope in it. -/
theorem Shows.paren?_eq_none {row : List Slot} {trees : List Tree}
    (shows : store.Shows scopes row trees) (plain : Plain trees)
    (blank : ∀ root ∈ scopes, store.payload root = .blank) :
    (∀ slot ∈ row, (store.payload slot).paren? = none) ∧
    ∀ slot ∈ row, slot ∉ scopes → ∀ parent, store.Own scopes slot parent →
      ∀ child ∈ store.children parent, (store.payload child).paren? = none := by
  have scope : ∀ root ∈ scopes, (store.payload root).paren? = none := by
    intro root isScope
    rw [blank root isScope]
    rfl
  constructor
  · intro slot member
    by_cases isScope : slot ∈ scopes
    · exact scope slot isScope
    · exact plain _ (shows.payload_mem member isScope ReflTransGen.refl)
  · intro slot member outside parent own child hangs
    by_cases isScope : child ∈ scopes
    · exact scope child isScope
    · exact plain _ (shows.payload_mem member outside (own.trans (own_child hangs isScope)))

end Store

end SqlDraft
