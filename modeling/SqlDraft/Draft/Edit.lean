/-
**Calls that open no scope, and why they may be refused.**

An edit is one call with its operands. What it does is `Draft.apply`; whether it is possible in the
innermost scope is `Draft.refusal?`, which looks at the draft before the call.

* `Draft.apply`: the draft after an edit.
* `Draft.refusal?`: why an edit is not possible.
* `Edit.isFallible`: the edits whose refusals are told to the caller; others are only noticed.
-/

import SqlDraft.Draft.Columns
import SqlDraft.Draft.Limits
import SqlDraft.Draft.Nesting

namespace SqlDraft

/-- The parts of a statement that a group of conditions cannot have. -/
inductive Part
  | select
  | table
  | remove (removal : Removal)
  | distinct
  | join
  | union
  | groupBy
  | orderBy
  | limit
  | offset
deriving DecidableEq

/-- The name of a part in messages. -/
def Part.text : Part → String
  | select => "SELECT"
  | table => "FROM"
  | remove .delete => "DELETE"
  | remove .truncate => "TRUNCATE"
  | distinct => "DISTINCT"
  | join => "JOIN"
  | union => "UNION"
  | groupBy => "GROUP BY"
  | orderBy => "ORDER BY"
  | limit => "LIMIT"
  | offset => "OFFSET"

/-- Why a call is not possible in the innermost scope. -/
inductive Refusal
  /-- The scope has a table. -/
  | hasTable
  /-- The scope is a removal, which has no columns. -/
  | isRemoval (current : Command)
  /-- The scope is a group, which has conditions only. -/
  | withinGroup (part : Part)
  /-- The scope is a removal, whose rows are not returned. -/
  | notDistinct (current : Command)
  /-- No join takes conditions. -/
  | noJoin
  /-- The scope has no ordering. -/
  | noOrdering (direction : Direction)
  /-- Nothing takes a name. -/
  | nothingToName (name : String)
deriving DecidableEq

/-- The text of a refusal. -/
def Refusal.text : Refusal → String
  | hasTable => "Table clause is already set for this scope"
  | isRemoval current => "Cannot apply SELECT to a " ++ current.text ++ " statement"
  | withinGroup part => part.text ++ " is not allowed inside a condition group"
  | notDistinct current => "DISTINCT ignored on a " ++ current.text ++ " statement"
  | noJoin => "ON ignored: no join to attach to"
  | noOrdering direction => direction.text ++ " ignored: no ORDER BY column"
  | nothingToName name => "AS " ++ name ++ " ignored: nothing to alias"

/-- One call that opens no scope. -/
inductive Edit
  | select (columns : List String)
  | distinct
  | table (name : String)
  | remove (removal : Removal)
  | giveName (name : String)
  | join (kind : JoinKind) (table : String)
  | joinOn (kind : JoinKind) (table : String) (condition : Condition)
  | restrict (clause : FilterClause) (logic : Connective) (condition : Condition)
  | groupBy (columns : List String)
  | orderBy (columns : List String)
  | orderDown (columns : List String)
  | direct (direction : Direction)
  | limit (count : UInt64)
  | offset (count : UInt64)
  | showPage (perPage page : UInt64)
deriving DecidableEq

/-- Whether the caller is told that an edit was refused. -/
def Edit.isFallible : Edit → Bool
  | select _ | table _ | remove _ => true
  | _ => false

namespace Draft

/-- The draft after an edit. -/
def apply (draft : Draft) : Edit → Draft
  | .select columns => draft.select columns
  | .distinct => draft.distinct
  | .table name => draft.table name
  | .remove removal => draft.remove removal
  | .giveName name => draft.giveName name
  | .join kind table => draft.join kind table
  | .joinOn kind table condition => draft.joinOn kind table condition
  | .restrict clause logic condition => draft.restrict clause logic condition
  | .groupBy columns => draft.groupBy columns
  | .orderBy columns => draft.orderBy columns
  | .orderDown columns => draft.orderDown columns
  | .direct direction => draft.direct direction
  | .limit count => draft.limit count
  | .offset count => draft.offset count
  | .showPage perPage page => draft.showPage perPage page

/-! ### Refusals -/

/-- A part of a statement is refused in a group. -/
def refusesPart? (draft : Draft) (part : Part) : Option Refusal :=
  if draft.inGroup then some (.withinGroup part) else none

/-- A second table is refused. -/
def refusesTable? (draft : Draft) : Option Refusal :=
  (draft.refusesPart? .table).or
    (if draft.scope.table.isSome then some .hasTable else none)

/-- Columns are refused in a removal. -/
def refusesColumns? (draft : Draft) : Option Refusal :=
  (draft.refusesPart? .select).or
    (if draft.scope.command.isSome ∧ draft.scopeCommand ≠ .select then
      some (.isRemoval draft.scopeCommand)
    else none)

/-- Distinct rows are refused in a removal. -/
def refusesDistinct? (draft : Draft) : Option Refusal :=
  (draft.refusesPart? .distinct).or
    (if draft.scope.command.isSome ∧ draft.scopeCommand ≠ .select then
      some (.notDistinct draft.scopeCommand)
    else none)

/-- A direction is refused without an ordering. -/
def refusesDirection? (draft : Draft) (direction : Direction) : Option Refusal :=
  (draft.refusesPart? .orderBy).or
    (if draft.ordering?.isNone then some (.noOrdering direction) else none)

/-- A condition on a join is refused without a join. -/
def refusesCondition? (draft : Draft) (clause : FilterClause) : Option Refusal :=
  if draft.takesCondition clause then none else some .noJoin

/-- A part with no columns asks for nothing, and so is not refused. -/
def unlessEmpty (columns : List String) (refusal : Option Refusal) : Option Refusal :=
  if columns = [] then none else refusal

/-- Why an edit is not possible. An edit of two calls is refused where the first of them that asks
for something is. -/
def refusal? (draft : Draft) : Edit → Option Refusal
  | .select columns => unlessEmpty columns draft.refusesColumns?
  | .distinct => draft.refusesDistinct?
  | .table _ => draft.refusesTable?
  | .remove removal => draft.refusesPart? (.remove removal)
  | .giveName name => if draft.scope.target.isNone then some (.nothingToName name) else none
  | .join _ _ | .joinOn _ _ _ => draft.refusesPart? .join
  | .restrict clause _ _ => draft.refusesCondition? clause
  | .groupBy columns => unlessEmpty columns (draft.refusesPart? .groupBy)
  | .orderBy columns => unlessEmpty columns (draft.refusesPart? .orderBy)
  | .orderDown columns =>
    if columns = [] then draft.refusesDirection? .desc else draft.refusesPart? .orderBy
  | .direct direction => draft.refusesDirection? direction
  | .limit _ | .showPage _ _ => draft.refusesPart? .limit
  | .offset _ => draft.refusesPart? .offset

/-- What the caller is told about an edit that was refused. -/
def fault? (draft : Draft) (edit : Edit) : Option Refusal :=
  if edit.isFallible then draft.refusal? edit else none

/-- Why what is to be opened cannot be filled. -/
def barrier? (draft : Draft) : Opening → Option Refusal
  | .table => draft.refusesTable?
  | .union _ => draft.refusesPart? .union
  | .joinTable _ | .joinConditions _ _ => draft.refusesPart? .join
  | .joinOperand kind _ _ _ =>
    (draft.refusesPart? .join).or (if kind = .cross then some .noJoin else none)
  | .condition clause _ _ => draft.refusesCondition? clause

/-- What the caller is told about something that could not be opened. -/
def openingFault? (draft : Draft) (opening : Opening) : Option Refusal :=
  if opening = .table then draft.barrier? opening else none

end Draft

end SqlDraft
