/-
**What was said in a scope.**

An outline holds the parts of one scope as they were said, each with the slots that later calls may
refer to. The row of trees that a scope shows is a function of its outline: the clauses stand in the
order of their ranks because the outline is read off in this order.

* `Outline.row`: the clauses of one rank.
* `Outline.trees`: the row of trees of a scope.
* `Outline.clauses_eq_append`: the clauses before a rank, of this rank and behind it.
* `Item.trees_append`, `listed_append`: what one more condition and one more column add.
-/

import Mathlib.Tactic.IntervalCases
import SqlDraft.Draft.Edit
import SqlDraft.Proofs.Sketch.Drawn

namespace SqlDraft

/-! ### Parts of a scope -/

/-- What a table or a join takes its rows from. -/
inductive Source
  | name (slot : Slot) (text : String)
  | scope (root : Slot)

/-- What a condition says. -/
inductive Content
  | leaf (sql : String)
  | scope (nested : NestedCondition) (root : Slot)

/-- A condition in a row, with the slot of its mark. -/
structure Item where
  mark : Slot
  logic : Connective
  content : Content

/-- A column of a projection with its name. -/
structure Column where
  slot : Slot
  text : String
  name : Option String := none

/-- What the command of a scope does. -/
inductive Action
  | columns (distinct : Bool) (columns : List Column)
  /-- All columns. -/
  | all (distinct : Bool)
  | removal (removal : Removal)

/-- A clause and its slot. -/
structure Clause (Part : Type) where
  slot : Slot
  part : Part

/-- A table with its name. -/
structure Table where
  source : Source
  name : Option String := none

/-- A joined table with its name and conditions. -/
structure Join where
  kind : JoinKind
  source : Source
  name : Option String := none
  conditions : Option (Clause (List Item)) := none

/-- A branch of a union. -/
structure Branch where
  all : Bool
  root : Slot

/-- A limit and an offset. -/
structure Page where
  limit : Option UInt64 := none
  offset : Option UInt64 := none

/-- What a name would go to. -/
inductive Target
  /-- The last column of the projection. -/
  | column
  | table
  /-- The last join. -/
  | join

/-- What was said in a scope. -/
structure Outline where
  kind : ScopeKind
  closed : Bool := false
  /-- The conditions of a group. -/
  members : List Item := []
  command : Option (Clause Action) := none
  table : Option (Clause Table) := none
  joins : List (Clause Join) := []
  filters : Option (Clause (List Item)) := none
  grouping : Option (Clause (List String)) := none
  havings : Option (Clause (List Item)) := none
  unions : List (Clause Branch) := []
  ordering : Option (Clause (List (String × Option Direction))) := none
  page : Option (Clause Page) := none
  target : Option Target := none
  /-- Whether conditions go to the last join. -/
  joining : Bool := false

/-! ### Trees of the parts -/

/-- The node that a table or a join takes its rows from. -/
def Source.slot : Source → Slot
  | name slot _ => slot
  | scope root => root

def Source.tree : Source → Tree
  | name slot text => .node (some slot) (.literal text) []
  | scope root => .scope root

/-- A name behind what it names. -/
def nameTrees (name : Option String) : List Tree :=
  name.toList.map fun text => .node none (.keyword .asName) [.leaf (.literal text)]

/-- Things in a row with a comma between them. -/
def listed {Thing : Type} (trees : Thing → List Tree) : List Thing → List Tree
  | [] => []
  | first :: rest => trees first ++ rest.flatMap fun thing => .leaf (.keyword .comma) :: trees thing

def Column.trees (column : Column) : List Tree :=
  .node (some column.slot) (.literal column.text) [] :: nameTrees column.name

def Content.trees : Content → List Tree
  | leaf sql => [.leaf (.literal sql)]
  | scope nested root => nested.lead?.toList.map .leaf ++ [.scope root]

/-- A mark with what stands below it. A negation has a node of its own unless the condition comes
first. -/
def shell (first : Bool) (mark : Slot) (logic : Connective) (content : List Tree) : Tree :=
  match first, logic.negates with
  | true, negates => .node (some mark) (.keyword (if negates then .not else .blank)) content
  | false, false => .node (some mark) (.keyword logic.keyword) content
  | false, true => .node (some mark) (.keyword logic.keyword) [.node none (.keyword .not) content]

def Item.tree (first : Bool) (item : Item) : Tree :=
  shell first item.mark item.logic item.content.trees

/-- Conditions in a row. -/
def Item.trees : List Item → List Tree
  | [] => []
  | first :: rest => first.tree true :: rest.map (Item.tree false)

namespace Action

/-- The tag of a command. -/
def keyword : Action → Keyword
  | columns distinct _ | all distinct => if distinct then .selectDistinct else .select
  | removal which => which.keyword

def trees : Action → List Tree
  | columns _ row => listed Column.trees row
  | all _ => [.leaf (.keyword .star)]
  | removal _ => []

/-- The slot of the last column. -/
def lastColumn? : Action → Option Slot
  | columns _ row => row.getLast?.map Column.slot
  | all _ | removal _ => none

end Action

/-- A clause that is headed by a tag. -/
def Clause.tree {Part : Type} (clause : Clause Part) (word : Keyword) (below : List Tree) : Tree :=
  .node (some clause.slot) (.keyword word) below

/-- A clause that says something else. -/
def Clause.revise {Part : Type} (change : Part → Part) (clause : Clause Part) : Clause Part :=
  ⟨clause.slot, change clause.part⟩

def Table.trees (table : Table) : List Tree := table.source.tree :: nameTrees table.name

def Join.trees (join : Join) : List Tree :=
  join.source.tree :: (nameTrees join.name ++
    join.conditions.toList.map fun clause => clause.tree .joinOn (Item.trees clause.part))

namespace Page

def keyword (page : Page) : Keyword := if page.limit.isSome then .limit else .noLimit

def trees (page : Page) : List Tree :=
  page.limit.toList.map (fun count => .leaf (Store.countPayload count)) ++
    page.offset.toList.map fun count =>
      .node none (.keyword .offset) [.leaf (Store.countPayload count)]

end Page

/-- A column of an ordering with its direction. -/
def sortTrees (column : String × Option Direction) : List Tree :=
  .leaf (.literal column.1) :: column.2.toList.map fun direction =>
    .leaf (.keyword direction.keyword)

namespace Outline

/-- The tag of the table clause follows the command. -/
def tableKeyword (outline : Outline) : Keyword :=
  match outline.command with
  | some ⟨_, .removal .truncate⟩ => .emptiedTable
  | _ => .fromTable

/-- The clauses of one rank. -/
def row (outline : Outline) : Nat → List Tree
  | 0 => outline.command.toList.map fun clause => clause.tree clause.part.keyword clause.part.trees
  | 1 => outline.table.toList.map fun clause => clause.tree outline.tableKeyword clause.part.trees
  | 2 => outline.joins.map fun clause => clause.tree clause.part.kind.keyword clause.part.trees
  | 3 => outline.filters.toList.map fun clause =>
    clause.tree .whereClause (Item.trees clause.part)
  | 4 => outline.grouping.toList.map fun clause =>
    clause.tree .groupBy (listed (fun text => [.leaf (.literal text)]) clause.part)
  | 5 => outline.havings.toList.map fun clause => clause.tree .having (Item.trees clause.part)
  | 6 => outline.unions.map fun clause =>
    clause.tree (if clause.part.all then .unionAll else .union) [.scope clause.part.root]
  | 7 => outline.ordering.toList.map fun clause =>
    clause.tree .orderBy (listed sortTrees clause.part)
  | 8 => outline.page.toList.map fun clause => clause.tree clause.part.keyword clause.part.trees
  | _ => []

/-- All clauses in the order of their ranks. -/
def clauses (outline : Outline) : List Tree := (List.range 9).flatMap outline.row

/-- The clauses before a rank. -/
def before (outline : Outline) (rank : Nat) : List Tree := (List.range rank).flatMap outline.row

/-- The clauses behind a rank. -/
def behind (outline : Outline) (rank : Nat) : List Tree :=
  (List.range' (rank + 1) (8 - rank)).flatMap outline.row

/-- What stands in a scope, its parentheses left aside. -/
def inner (outline : Outline) : List Tree :=
  if outline.kind = .group then Item.trees outline.members else outline.clauses

/-- The row of trees that a scope shows. -/
def trees (outline : Outline) : List Tree :=
  if outline.closed ∧ outline.kind ≠ .union then
    .leaf (.keyword .leftParen) :: (outline.inner ++ [.leaf (.keyword .rightParen)])
  else outline.inner

/-- The node that a name would go to. -/
def place? (outline : Outline) : Target → Option Slot
  | .column => outline.command.bind fun clause => clause.part.lastColumn?
  | .table => outline.table.map fun clause => clause.part.source.slot
  | .join => outline.joins.getLast?.map fun clause => clause.part.source.slot

/-! ### What stands in a scope -/

theorem inner_eq_clauses {outline : Outline} (plain : outline.kind ≠ .group) :
    outline.inner = outline.clauses :=
  if_neg plain

theorem inner_eq_members {outline : Outline} (group : outline.kind = .group) :
    outline.inner = Item.trees outline.members :=
  if_pos group

theorem trees_of_open {outline : Outline} (opened : outline.closed = false) :
    outline.trees = outline.inner := by
  unfold trees
  rw [opened, if_neg (by simp)]

theorem trees_of_closed {outline : Outline} (closed : outline.closed = true)
    (parenthesized : outline.kind ≠ .union) : outline.trees =
      .leaf (.keyword .leftParen) :: (outline.inner ++ [.leaf (.keyword .rightParen)]) :=
  if_pos ⟨closed, parenthesized⟩

theorem trees_of_union {outline : Outline} (union : outline.kind = .union) :
    outline.trees = outline.inner :=
  if_neg fun enclosed => enclosed.2 union

theorem trees_eq_clauses {outline : Outline} (opened : outline.closed = false)
    (plain : outline.kind ≠ .group) : outline.trees = outline.clauses := by
  rw [trees_of_open opened, inner_eq_clauses plain]

theorem trees_eq_members {outline : Outline} (opened : outline.closed = false)
    (group : outline.kind = .group) : outline.trees = Item.trees outline.members := by
  rw [trees_of_open opened, inner_eq_members group]

/-! ### Clauses in the order of their ranks -/

theorem clauses_eq_append (outline : Outline) {rank : Nat} (inside : rank < 9) :
    outline.clauses = outline.before rank ++ (outline.row rank ++ outline.behind rank) := by
  have ranks : List.range 9 = List.range rank ++ (rank :: List.range' (rank + 1) (8 - rank)) := by
    interval_cases rank <;> rfl
  unfold clauses before behind
  rw [ranks, List.flatMap_append, List.flatMap_cons]

theorem mem_trees {outline : Outline} (plain : outline.kind ≠ .group) {rank : Nat}
    (inside : rank < 9) {tree : Tree} (member : tree ∈ outline.row rank) : tree ∈ outline.trees := by
  have inner : tree ∈ outline.inner := by
    rw [inner_eq_clauses plain]
    exact List.mem_flatMap.mpr ⟨rank, List.mem_range.mpr inside, member⟩
  unfold trees
  split
  · exact List.mem_cons_of_mem _ (List.mem_append_left _ inner)
  · exact inner

/-- **A clause is headed by a tag of its rank.** -/
theorem rank?_of_mem_row {outline : Outline} {rank : Nat} {tree : Tree}
    (member : tree ∈ outline.row rank) :
    ∃ slot word below, tree = .node (some slot) (.keyword word) below ∧ word.rank? = some rank := by
  have single : ∀ {Part : Type} (clause : Option (Clause Part)) (word : Clause Part → Keyword)
      (below : Clause Part → List Tree), (∀ part, (word part).rank? = some rank) →
      tree ∈ clause.toList.map (fun part => part.tree (word part) (below part)) →
      ∃ slot word below, tree = .node (some slot) (.keyword word) below ∧
        word.rank? = some rank := by
    intro Part clause word below ranked inRow
    obtain ⟨part, _, rfl⟩ := List.mem_map.mp inRow
    exact ⟨part.slot, word part, below part, rfl, ranked part⟩
  match rank, member with
  | 0, member =>
    refine single _ _ _ (fun clause => ?_) member
    cases clause.part with
    | columns distinct _ | all distinct => cases distinct <;> rfl
    | removal removal => cases removal <;> rfl
  | 1, member =>
    refine single _ _ _ (fun _ => ?_) member
    unfold tableKeyword
    split <;> rfl
  | 2, member =>
    obtain ⟨clause, _, rfl⟩ := List.mem_map.mp member
    refine ⟨clause.slot, _, _, rfl, ?_⟩
    cases clause.part.kind <;> rfl
  | 3, member => exact single _ _ _ (fun _ => rfl) member
  | 4, member => exact single _ _ _ (fun _ => rfl) member
  | 5, member => exact single _ _ _ (fun _ => rfl) member
  | 6, member =>
    obtain ⟨clause, _, rfl⟩ := List.mem_map.mp member
    refine ⟨clause.slot, _, _, rfl, ?_⟩
    cases clause.part.all <;> rfl
  | 7, member => exact single _ _ _ (fun _ => rfl) member
  | 8, member =>
    refine single _ _ _ (fun clause => ?_) member
    unfold Page.keyword
    split <;> rfl
  | _ + 9, member => exact absurd member List.not_mem_nil

end Outline

/-! ### One more condition, one more column -/

theorem Item.trees_append (items : List Item) (item : Item) :
    Item.trees (items ++ [item]) = Item.trees items ++ [item.tree items.isEmpty] := by
  cases items with
  | nil => rfl
  | cons first rest => simp [Item.trees]

theorem listed_append {Thing : Type} (trees : Thing → List Tree) (things : List Thing)
    (thing : Thing) : listed trees (things ++ [thing]) = listed trees things ++
      ((if things.isEmpty then [] else [.leaf (.keyword .comma)]) ++ trees thing) := by
  cases things with
  | nil => simp [listed]
  | cons first rest => simp [listed]

end SqlDraft
