/-
**What was said in a scope, without slots.**

A sheet holds the parts of one scope as they are written. It is an outline without its slots, in which
a scope inside is given by its payloads. So two scopes in different drafts, or at different times, have
the same sheet where the same was said in them:

* `Sheet`: the parts of one scope.
* `Sheet.payloads`: what they are written as.
* `Sheet.completed`, `Sheet.enclosed`: the same for a scope that is closed.
* `Outline.sheet`: the sheet of an outline, given the payloads inside of scopes.
* **`Outline.payloads_inner`**: an outline is written as its sheet.
-/

import SqlDraft.Proofs.Sketch.Closing
import SqlDraft.Proofs.Text.Rows

namespace SqlDraft

/-! ### Sheets -/

/-- A condition as it is written. -/
structure Remark where
  logic : Connective
  body : List Payload

/-- What the command of a scope does. -/
inductive Deed
  /-- Columns with their names. -/
  | columns (distinct : Bool) (columns : List (String × Option String))
  /-- All columns. -/
  | all (distinct : Bool)
  | removal (removal : Removal)

/-- A table as it is written, with its name. -/
structure Supply where
  body : List Payload
  name : Option String := none

/-- A joined table as it is written, with its name and conditions. -/
structure Link where
  kind : JoinKind
  body : List Payload
  name : Option String := none
  conditions : Option (List Remark) := none

/-- What was said in a scope, without slots. -/
structure Sheet where
  /-- Whether the scope is a group. -/
  grouped : Bool
  members : List Remark := []
  command : Option Deed := none
  table : Option Supply := none
  joins : List Link := []
  filters : Option (List Remark) := none
  grouping : Option (List String) := none
  havings : Option (List Remark) := none
  unions : List (Bool × List Payload) := []
  ordering : Option (List (String × Option Direction)) := none
  page : Option Page := none
  target : Option Target := none
  joining : Bool := false

/-! ### How they are written -/

/-- The payloads of a name. -/
def spellName (name : Option String) : List Payload :=
  name.toList.flatMap fun text => [.keyword .asName, .literal text]

/-- The payloads of things in a row with a comma between them. -/
def spellList {Thing : Type} (spell : Thing → List Payload) : List Thing → List Payload
  | [] => []
  | first :: rest => spell first ++ rest.flatMap fun thing => .keyword .comma :: spell thing

namespace Remark

/-- The payloads of a condition. -/
def payloads (first : Bool) (remark : Remark) : List Payload :=
  (remark.logic.marks first).map Payload.keyword ++ remark.body

/-- The payloads of conditions in a row. -/
def row : List Remark → List Payload
  | [] => []
  | first :: rest => first.payloads true ++ rest.flatMap (payloads false)

end Remark

/-- The payloads of a column with its name. -/
def spellColumn (column : String × Option String) : List Payload :=
  .literal column.1 :: spellName column.2

namespace Deed

def keyword : Deed → Keyword
  | columns distinct _ | all distinct => if distinct then .selectDistinct else .select
  | removal which => which.keyword

def payloads : Deed → List Payload
  | columns _ row => spellList spellColumn row
  | all _ => [.keyword .star]
  | removal _ => []

end Deed

def Supply.payloads (supply : Supply) : List Payload := supply.body ++ spellName supply.name

def Link.payloads (link : Link) : List Payload :=
  link.body ++ (spellName link.name ++
    link.conditions.toList.flatMap fun row => .keyword .joinOn :: Remark.row row)

/-- The payloads of a column to sort by. -/
def spellSort (column : String × Option Direction) : List Payload :=
  .literal column.1 :: column.2.toList.map fun direction => .keyword direction.keyword

def Page.payloads (page : Page) : List Payload :=
  page.limit.toList.map Store.countPayload ++
    page.offset.toList.flatMap fun count => [.keyword .offset, Store.countPayload count]

namespace Sheet

/-- The sheet of a scope in which nothing was said. -/
def silent (kind : ScopeKind) : Sheet := { grouped := kind = .group }

/-- The tag of the table clause follows the command. -/
def tableKeyword (sheet : Sheet) : Keyword :=
  match sheet.command with
  | some (.removal .truncate) => .emptiedTable
  | _ => .fromTable

/-- The payloads of the clauses of one rank. -/
def row (sheet : Sheet) : Nat → List Payload
  | 0 => sheet.command.toList.flatMap fun deed => .keyword deed.keyword :: deed.payloads
  | 1 => sheet.table.toList.flatMap fun supply => .keyword sheet.tableKeyword :: supply.payloads
  | 2 => sheet.joins.flatMap fun link => .keyword link.kind.keyword :: link.payloads
  | 3 => sheet.filters.toList.flatMap fun row => .keyword .whereClause :: Remark.row row
  | 4 => sheet.grouping.toList.flatMap fun columns =>
    .keyword .groupBy :: spellList (fun text => [.literal text]) columns
  | 5 => sheet.havings.toList.flatMap fun row => .keyword .having :: Remark.row row
  | 6 => sheet.unions.flatMap fun branch =>
    .keyword (if branch.1 then .unionAll else .union) :: branch.2
  | 7 => sheet.ordering.toList.flatMap fun columns =>
    .keyword .orderBy :: spellList spellSort columns
  | 8 => sheet.page.toList.flatMap fun page => .keyword page.keyword :: page.payloads
  | _ => []

/-- The payloads of what was said in a scope. -/
def payloads (sheet : Sheet) : List Payload :=
  if sheet.grouped then Remark.row sheet.members else (List.range 9).flatMap sheet.row

/-- A sheet with all columns, if it has a table and no command. -/
def completed (sheet : Sheet) : Sheet :=
  if sheet.grouped = false ∧ sheet.command.isNone ∧ sheet.table.isSome then
    { sheet with command := some (.all false) }
  else sheet

/-- The payloads inside a scope of some kind that is closed. -/
def enclosed (sheet : Sheet) (kind : ScopeKind) : List Payload :=
  if kind = .union then sheet.completed.payloads
  else .keyword .leftParen :: (sheet.completed.payloads ++ [.keyword .rightParen])

end Sheet

/-! ### The sheet of an outline -/

section Inside

variable (inside : Slot → List Payload)

def Source.body : Source → List Payload
  | name _ text => [.literal text]
  | scope root => .blank :: inside root

def Content.body : Content → List Payload
  | leaf sql => [.literal sql]
  | scope nested root => nested.lead?.toList ++ .blank :: inside root

def Item.remark (item : Item) : Remark := ⟨item.logic, item.content.body inside⟩

def Column.entry (column : Column) : String × Option String := (column.text, column.name)

def Action.deed : Action → Deed
  | columns distinct row => .columns distinct (row.map Column.entry)
  | all distinct => .all distinct
  | removal which => .removal which

def Table.supply (table : Table) : Supply := ⟨table.source.body inside, table.name⟩

def Join.link (join : Join) : Link where
  kind := join.kind
  body := join.source.body inside
  name := join.name
  conditions := join.conditions.map fun clause => clause.part.map (Item.remark inside)

def Branch.entry (branch : Branch) : Bool × List Payload :=
  (branch.all, .blank :: inside branch.root)

/-- The sheet of an outline, given the payloads inside of scopes. -/
def Outline.sheet (outline : Outline) : Sheet where
  grouped := outline.kind = .group
  members := outline.members.map (Item.remark inside)
  command := outline.command.map fun clause => clause.part.deed
  table := outline.table.map fun clause => clause.part.supply inside
  joins := outline.joins.map fun clause => clause.part.link inside
  filters := outline.filters.map fun clause => clause.part.map (Item.remark inside)
  grouping := outline.grouping.map Clause.part
  havings := outline.havings.map fun clause => clause.part.map (Item.remark inside)
  unions := outline.unions.map fun clause => clause.part.entry inside
  ordering := outline.ordering.map Clause.part
  page := outline.page.map Clause.part
  target := outline.target
  joining := outline.joining

end Inside

/-! ### An outline is written as its sheet -/

namespace Tree

variable {inside : Slot → List Payload}

theorem payloads_node (mark : Option Slot) (payload : Payload) (below : List Tree) :
    payloads inside [node mark payload below] = payload :: payloads inside below := by
  rw [payloads, payloads_nil, List.append_nil]

theorem payloads_single (payload : Payload) : payloads inside [leaf payload] = [payload] := by
  rw [leaf, payloads_node, payloads_nil]

theorem payloads_flatMap {Thing : Type} (trees : Thing → List Tree) (things : List Thing) :
    payloads inside (things.flatMap trees) =
      things.flatMap fun thing => payloads inside (trees thing) := by
  induction things with
  | nil => exact payloads_nil inside
  | cons thing rest step => rw [List.flatMap_cons, payloads_append, step, List.flatMap_cons]

theorem payloads_map {Thing : Type} (tree : Thing → Tree) (things : List Thing) :
    payloads inside (things.map tree) = things.flatMap fun thing => payloads inside [tree thing] := by
  rw [List.map_eq_flatMap, payloads_flatMap]

end Tree

variable {inside : Slot → List Payload}

open SqlDraft.Tree

theorem payloads_nameTrees (name : Option String) :
    payloads inside (nameTrees name) = spellName name := by
  rw [nameTrees, payloads_map]
  refine List.flatMap_congr fun text _ => ?_
  rw [payloads_node, payloads_single]

theorem payloads_listed {Thing Entry : Type} {trees : Thing → List Tree} {entry : Thing → Entry}
    {spell : Entry → List Payload}
    (same : ∀ thing, payloads inside (trees thing) = spell (entry thing)) (things : List Thing) :
    payloads inside (listed trees things) = spellList spell (things.map entry) := by
  cases things with
  | nil => exact payloads_nil inside
  | cons first rest =>
    rw [listed, payloads_append, payloads_flatMap, same, List.map_cons, spellList,
      List.flatMap_map]
    refine congrArg _ (List.flatMap_congr fun thing _ => ?_)
    rw [payloads_leaf, same]

theorem payloads_listed_self {Thing : Type} {trees : Thing → List Tree}
    {spell : Thing → List Payload} (same : ∀ thing, payloads inside (trees thing) = spell thing)
    (things : List Thing) : payloads inside (listed trees things) = spellList spell things := by
  have listed := @payloads_listed inside Thing Thing trees id spell same things
  rwa [List.map_id] at listed

theorem Source.payloads_tree (source : Source) (rest : List Tree) :
    payloads inside (source.tree :: rest) = source.body inside ++ payloads inside rest := by
  cases source with
  | name slot text => rw [Source.tree, payloads, payloads_nil]; rfl
  | scope root => rw [Source.tree, payloads]; rfl

theorem Content.payloads_trees (content : Content) :
    payloads inside content.trees = content.body inside := by
  cases content with
  | leaf sql => exact payloads_single _
  | scope nested root =>
    rw [trees, payloads_append, payloads, payloads_nil, List.append_nil]
    refine congrArg (· ++ _) ?_
    cases nested with
    | operand column operator => exact payloads_single _
    | existence => exact payloads_single _
    | group => exact payloads_nil inside

theorem Item.payloads_tree (first : Bool) (item : Item) :
    payloads inside [item.tree first] = (item.remark inside).payloads first := by
  have content := @Content.payloads_trees inside item.content
  unfold Item.tree shell Remark.payloads Item.remark
  cases first with
  | true =>
    rw [payloads_node, content]
    rfl
  | false =>
    cases negates : item.logic.negates with
    | false =>
      rw [payloads_node, content, Connective.marks, negates]
      rfl
    | true =>
      rw [payloads_node, payloads_node, content, Connective.marks, negates]
      rfl

theorem Item.payloads_trees (items : List Item) :
    payloads inside (Item.trees items) = Remark.row (items.map (Item.remark inside)) := by
  cases items with
  | nil => exact payloads_nil inside
  | cons first rest =>
    have split : Item.trees (first :: rest) = [first.tree true] ++ rest.map (Item.tree false) := rfl
    rw [split, payloads_append, payloads_map, first.payloads_tree, List.map_cons, Remark.row,
      List.flatMap_map]
    exact congrArg _ (List.flatMap_congr fun item _ => item.payloads_tree false)

theorem Column.payloads_trees (column : Column) :
    payloads inside column.trees = spellColumn column.entry := by
  rw [trees, payloads, payloads_nil, List.nil_append, payloads_nameTrees]
  rfl

theorem Action.keyword_deed (action : Action) : action.deed.keyword = action.keyword := by
  cases action <;> rfl

theorem Action.payloads_trees (action : Action) :
    payloads inside action.trees = action.deed.payloads := by
  cases action with
  | columns distinct row => exact payloads_listed Column.payloads_trees row
  | all distinct => exact payloads_single _
  | removal which => exact payloads_nil inside

theorem Table.payloads_trees (table : Table) :
    payloads inside table.trees = (table.supply inside).payloads := by
  rw [trees, table.source.payloads_tree, payloads_nameTrees]
  rfl

theorem Join.payloads_trees (join : Join) :
    payloads inside join.trees = (join.link inside).payloads := by
  rw [trees, join.source.payloads_tree, payloads_append, payloads_nameTrees, payloads_map]
  unfold Link.payloads Join.link
  refine congrArg _ (congrArg _ ?_)
  cases join.conditions with
  | none => rfl
  | some clause =>
    show payloads inside [clause.tree .joinOn _] ++ [] = _ :: _ ++ []
    rw [Clause.tree, payloads_node, Item.payloads_trees]

theorem payloads_sortTrees (column : String × Option Direction) :
    payloads inside (sortTrees column) = spellSort column := by
  rw [sortTrees, payloads_leaf, payloads_map]
  unfold spellSort
  cases column.2 with
  | none => rfl
  | some direction => exact congrArg (_ :: ·) (congrArg (· ++ []) (payloads_single _))

theorem Page.payloads_trees (page : Page) : Tree.payloads inside page.trees = page.payloads := by
  unfold trees payloads
  rw [payloads_append, payloads_map, payloads_map]
  refine congrArg₂ _ ?_ (List.flatMap_congr fun count _ => ?_)
  · rw [List.map_eq_flatMap]
    exact List.flatMap_congr fun count _ => payloads_single _
  · rw [payloads_node, payloads_single]

/-- Clauses in a row are written one behind the other. -/
theorem payloads_clauses {Part Entry : Type} {word : Clause Part → Keyword}
    {below : Clause Part → List Tree} {entry : Clause Part → Entry} {spell : Entry → List Payload}
    (same : ∀ clause, .keyword (word clause) :: payloads inside (below clause) =
      spell (entry clause)) (clauses : List (Clause Part)) :
    payloads inside (clauses.map fun clause => clause.tree (word clause) (below clause)) =
      (clauses.map entry).flatMap spell := by
  rw [payloads_map, List.flatMap_map]
  exact List.flatMap_congr fun clause _ => (payloads_node _ _ _).trans (same clause)

/-- So is a clause that there may be. -/
theorem payloads_clause? {Part Entry : Type} {word : Clause Part → Keyword}
    {below : Clause Part → List Tree} {entry : Clause Part → Entry} {spell : Entry → List Payload}
    (same : ∀ clause, .keyword (word clause) :: payloads inside (below clause) =
      spell (entry clause)) (clause : Option (Clause Part)) :
    payloads inside (clause.toList.map fun clause => clause.tree (word clause) (below clause)) =
      (clause.map entry).toList.flatMap spell := by
  rw [payloads_clauses same, Option.toList_map]

namespace Outline

theorem tableKeyword_sheet (outline : Outline) :
    (outline.sheet inside).tableKeyword = outline.tableKeyword := by
  unfold Sheet.tableKeyword tableKeyword sheet
  cases outline.command with
  | none => rfl
  | some clause =>
    obtain ⟨slot, action⟩ := clause
    cases action with
    | columns distinct row => rfl
    | all distinct => rfl
    | removal which => cases which <;> rfl

/-- The clauses of one rank are written as those of the sheet. -/
theorem payloads_row (outline : Outline) (rank : Nat) :
    payloads inside (outline.row rank) = (outline.sheet inside).row rank := by
  match rank with
  | 0 =>
    refine payloads_clause? (fun clause => ?_) _
    rw [clause.part.payloads_trees, clause.part.keyword_deed]
  | 1 =>
    refine payloads_clause? (fun clause => ?_) _
    rw [clause.part.payloads_trees, tableKeyword_sheet]
  | 2 =>
    refine payloads_clauses (fun clause => ?_) _
    rw [clause.part.payloads_trees]
    rfl
  | 3 | 5 =>
    refine payloads_clause? (fun clause => ?_) _
    rw [Item.payloads_trees]
  | 4 =>
    refine payloads_clause? (fun clause => ?_) _
    rw [payloads_listed_self fun text => payloads_single (.literal text)]
  | 6 =>
    refine payloads_clauses (fun clause => ?_) _
    rw [payloads, payloads_nil, List.append_nil]
    rfl
  | 7 =>
    refine payloads_clause? (fun clause => ?_) _
    rw [payloads_listed_self payloads_sortTrees]
  | 8 =>
    refine payloads_clause? (fun clause => ?_) _
    rw [clause.part.payloads_trees]
  | _ + 9 => exact payloads_nil inside

/-- **An outline is written as its sheet.** -/
theorem payloads_inner (outline : Outline) :
    payloads inside outline.inner = (outline.sheet inside).payloads := by
  unfold inner Sheet.payloads
  by_cases group : outline.kind = .group
  · have grouped : (outline.sheet inside).grouped = true := decide_eq_true group
    rw [if_pos group, if_pos grouped, Item.payloads_trees]
    rfl
  · have clausal : (outline.sheet inside).grouped = false := decide_eq_false group
    rw [if_neg group, clausal, if_neg Bool.false_ne_true, clauses, payloads_flatMap]
    exact List.flatMap_congr fun rank _ => outline.payloads_row rank

end Outline

end SqlDraft
