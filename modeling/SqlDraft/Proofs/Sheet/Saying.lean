/-
**What calls say.**

A program says the same in every scope it is run in. What it says is a function of sheets, without a
store and without slots:

* `Sheet.edited`: what an edit says.
* `Sheet.filled`: what is said by something that is opened, filled and closed.
* `Call.say`, `Call.sayAll`: what a call and a program say.
* `Call.goesOn`: the calls that neither start over nor finish, at any depth.
-/

import SqlDraft.Draft.Notice
import SqlDraft.Program.Call
import SqlDraft.Proofs.Sheet.Basic

namespace SqlDraft

/-! ### Parts that say more -/

namespace Deed

/-- Whether columns may be added to a command. -/
def selects : Deed → Bool
  | columns _ _ | all _ => true
  | removal _ => false

/-- A projection with more columns, which replace a star. -/
def adding (more : List String) : Deed → Deed
  | columns distinct row => columns distinct (row ++ more.map fun text => (text, none))
  | all distinct => columns distinct (more.map fun text => (text, none))
  | removal which => removal which

/-- A projection of distinct rows. -/
def distinctly : Deed → Deed
  | columns _ row => columns true row
  | all _ => all true
  | removal which => removal which

/-- A projection whose last column has a name. -/
def nameLast (name : String) : Deed → Deed
  | columns distinct row =>
    columns distinct (row.modifyLast fun column => (column.1, some name))
  | deed => deed

end Deed

def Supply.called (name : String) (supply : Supply) : Supply := { supply with name := some name }

def Link.called (name : String) (link : Link) : Link := { link with name := some name }

/-- A joined table with one more condition. -/
def Link.adding (remark : Remark) (link : Link) : Link :=
  { link with conditions := some (link.conditions.getD [] ++ [remark]) }

namespace Sheet

variable (sheet : Sheet)

/-- What is said unless the scope is a group. -/
theorem ite_grouped {Result : Type} {sheet : Sheet} (clausal : sheet.grouped = false)
    {refused said : Result} : (if sheet.grouped then refused else said) = said :=
  if_neg (Bool.eq_false_iff.mp clausal)

/-! ### Columns -/

/-- Whether the scope has a projection or may still get one. -/
def canProject : Bool := !sheet.grouped && sheet.command.all Deed.selects

/-- Columns to return. A name would then go to the last of them. -/
def select (columns : List String) : Sheet :=
  if columns = [] ∨ sheet.canProject = false then sheet
  else
    { sheet with
      command := some ((sheet.command.getD (.columns false [])).adding columns)
      target := some .column }

def distinct : Sheet :=
  if sheet.grouped then sheet
  else { sheet with command := some (sheet.command.elim (.all true) Deed.distinctly) }

def groupBy (columns : List String) : Sheet :=
  if columns = [] ∨ sheet.grouped then sheet
  else { sheet with grouping := some (sheet.grouping.getD [] ++ columns) }

def orderBy (columns : List String) : Sheet :=
  if columns = [] ∨ sheet.grouped then sheet
  else
    { sheet with
      ordering := some (sheet.ordering.getD [] ++ columns.map fun text => (text, none)) }

def direct (direction : Direction) : Sheet :=
  if sheet.grouped then sheet
  else { sheet with ordering := sheet.ordering.map (Outline.directLast direction) }

/-! ### Tables, joins, names and removals -/

/-- Whether the scope may get a table. -/
def canTakeTable : Bool := !sheet.grouped && sheet.table.isNone

/-- A table. A name would then go to it. -/
def tabled (body : List Payload) : Sheet :=
  { sheet with table := some ⟨body, none⟩, target := some .table }

def fromTable (name : String) : Sheet :=
  if sheet.canTakeTable then sheet.tabled [.literal name] else sheet

/-- A joined table. A name and conditions then go to it, but no conditions to a cross join. -/
def linked (kind : JoinKind) (body : List Payload) : Sheet :=
  { sheet with
    joins := sheet.joins ++ [{ kind, body }]
    joining := kind ≠ .cross
    target := some .join }

def join (kind : JoinKind) (table : String) : Sheet :=
  if sheet.grouped then sheet else sheet.linked kind [.literal table]

/-- A name for something. -/
def naming (name : String) : Target → Sheet
  | .column => { sheet with command := sheet.command.map (Deed.nameLast name) }
  | .table => { sheet with table := sheet.table.map (Supply.called name) }
  | .join => { sheet with joins := sheet.joins.modifyLast (Link.called name) }

def giveName (name : String) : Sheet :=
  match sheet.target with
  | none => sheet
  | some target => sheet.naming name target

def remove (removal : Removal) : Sheet :=
  if sheet.grouped then sheet
  else
    { sheet with
      command := some (.removal removal)
      target := sheet.target.filter Target.outlivesColumns }

/-! ### Conditions -/

/-- The row that the conditions of a clause go to. -/
def seat? : FilterClause → Option Seat
  | .whereClause => some (if sheet.grouped then .members else .filters)
  | .having => some (if sheet.grouped then .members else .havings)
  | .joinOn =>
    if sheet.grouped then some .members else if sheet.joining then some .lastJoin else none

/-- One more condition in a row. -/
def adding (remark : Remark) : Seat → Sheet
  | .members => { sheet with members := sheet.members ++ [remark] }
  | .filters => { sheet with filters := some (sheet.filters.getD [] ++ [remark]) }
  | .havings => { sheet with havings := some (sheet.havings.getD [] ++ [remark]) }
  | .lastJoin => { sheet with joins := sheet.joins.modifyLast (Link.adding remark) }

def restrict (clause : FilterClause) (remark : Remark) : Sheet :=
  match sheet.seat? clause with
  | none => sheet
  | some seat => sheet.adding remark seat

def joinOn (kind : JoinKind) (table : String) (condition : Condition) : Sheet :=
  if sheet.grouped then sheet
  else (sheet.join kind table).restrict .joinOn ⟨.and, [.literal condition.sql]⟩

/-! ### Limits -/

def limit (count : UInt64) : Sheet :=
  if sheet.grouped then sheet
  else { sheet with page := some ((sheet.page.getD {}).limited count) }

def offset (count : UInt64) : Sheet :=
  if sheet.grouped then sheet
  else { sheet with page := some ((sheet.page.getD {}).skipping count) }

/-! ### All edits -/

/-- **What an edit says.** -/
def edited : Edit → Sheet
  | .select columns => sheet.select columns
  | .distinct => sheet.distinct
  | .table name => sheet.fromTable name
  | .remove removal => sheet.remove removal
  | .giveName name => sheet.giveName name
  | .join kind table => sheet.join kind table
  | .joinOn kind table condition => sheet.joinOn kind table condition
  | .restrict clause logic condition => sheet.restrict clause ⟨logic, [.literal condition.sql]⟩
  | .groupBy columns => sheet.groupBy columns
  | .orderBy columns => sheet.orderBy columns
  | .orderDown columns => (sheet.orderBy columns).direct .desc
  | .direct direction => sheet.direct direction
  | .limit count => sheet.limit count
  | .offset count => sheet.offset count
  | .showPage perPage page => (sheet.limit perPage).offset (Paging.skipped perPage page)

/-! ### What is opened -/

/-- A condition with a scope, which was closed. No name goes to it, and conditions still go to a join
that it stands in. -/
def nested (clause : FilterClause) (logic : Connective) (content : NestedCondition)
    (body : List Payload) : Sheet :=
  match sheet.seat? clause with
  | none => sheet
  | some seat =>
    { sheet.adding ⟨logic, content.lead?.toList ++ body⟩ seat with
      target := none
      joining := sheet.joining && clause = .joinOn }

/-- What is said around a scope that was opened and closed. A name goes to the scope where it stands
as a table. -/
def received (body : List Payload) : Opening → Sheet
  | .table =>
    if sheet.canTakeTable then { sheet.tabled body with joining := false } else sheet
  | .union all =>
    if sheet.grouped then sheet
    else { sheet with unions := sheet.unions ++ [(all, body)], target := none, joining := false }
  | .joinTable kind => if sheet.grouped then sheet else sheet.linked kind body
  | .joinConditions kind table => sheet.join kind table
  | .joinOperand kind table column operator =>
    if sheet.grouped then sheet
    else (sheet.join kind table).nested .joinOn .and (.operand column operator) body
  | .condition clause logic content => sheet.nested clause logic content body

/-- **What is said by something that is opened, filled and closed.** A scope is filled from nothing
on, and conditions that follow a join are said in the scope of the join itself. -/
def filled (opening : Opening) (fill : Sheet → Sheet) : Sheet :=
  match Draft.openedKind? opening with
  | some kind => sheet.received (.blank :: (fill (silent kind)).enclosed kind) opening
  | none => if sheet.grouped then sheet else fill (sheet.received [] opening)

end Sheet

/-! ### Programs -/

namespace Call

mutual

/-- What a call says. A question says nothing, and calls that start over are left aside. -/
def say (sheet : Sheet) : Call → Sheet
  | .edit change => sheet.edited change
  | .ask _ | .startOver | .finish => sheet
  | .within opening program => sheet.filled opening fun start => sayAll start program

/-- What a program says. -/
def sayAll (sheet : Sheet) : List Call → Sheet
  | [] => sheet
  | call :: rest => sayAll (say sheet call) rest

end

mutual

/-- Whether a call goes on with the draft: it neither starts over nor finishes, at any depth. -/
def goesOn : Call → Bool
  | .edit _ | .ask _ => true
  | .startOver | .finish => false
  | .within _ program => goOn program

/-- Whether all calls of a program go on with the draft. -/
def goOn : List Call → Bool
  | [] => true
  | call :: rest => goesOn call && goOn rest

end

theorem sayAll_append (sheet : Sheet) (first second : List Call) :
    sayAll sheet (first ++ second) = sayAll (sayAll sheet first) second := by
  induction first generalizing sheet with
  | nil => rfl
  | cons call rest step => exact step (say sheet call)

theorem goOn_append (first second : List Call) :
    goOn (first ++ second) = (goOn first && goOn second) := by
  induction first with
  | nil => rfl
  | cons call rest step => rw [List.cons_append, goOn, goOn, step, Bool.and_assoc]

end Call

end SqlDraft
