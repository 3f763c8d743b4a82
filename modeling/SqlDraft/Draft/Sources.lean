/-
**Tables, joins, names and removals.**

A statement has one table and any number of joins. A name goes to the table, join or column that
came last. A removal replaces the projection with all its columns.

* `Draft.table`: the table of a statement.
* `Draft.join`: one more join; conditions then go to it, unless it is a cross join.
* `Draft.giveName`: a name for what came last, which replaces the name it had.
* `Draft.remove`: turns the statement into a removal.

A call that is not possible in the innermost scope leaves the draft as it is.
-/

import SqlDraft.Draft.Basic

namespace SqlDraft.Draft

/-! ### The table -/

/-- Whether the innermost scope may get a table. -/
def canTakeTable (draft : Draft) : Bool := !draft.inGroup && draft.scope.table.isNone

/-- The tag of the table clause, by the command so far. -/
def tableKeyword (draft : Draft) : Keyword :=
  if draft.scopeCommand = .truncate then .emptiedTable else .fromTable

/-- Adds an empty table clause to the innermost scope. -/
def addTable (draft : Draft) : Draft :=
  let slot := draft.store.fresh
  (draft.alter (·.addClause draft.scope.root draft.tableKeyword)).adjust
    fun scope => { scope with table := some slot }

/-- Sets the table. A name would then go to it. -/
def table (draft : Draft) (name : String) : Draft :=
  if draft.canTakeTable then
    let clause := draft.store.fresh
    let added := draft.addTable
    let leaf := added.store.fresh
    (added.alter (·.addChild clause (.literal name))).adjust
      fun scope => { scope with target := some leaf }
  else draft

/-! ### Joins -/

/-- Adds a join without a table to the innermost scope. Conditions go to it unless it is a cross
join, and a name would go nowhere. -/
def startJoin (draft : Draft) (kind : JoinKind) : Draft :=
  let slot := draft.store.fresh
  (draft.alter (·.addClause draft.scope.root kind.keyword)).adjust fun scope =>
    { scope with join := if kind = .cross then none else some slot, target := none }

/-- Joins a table. A name would then go to it. -/
def join (draft : Draft) (kind : JoinKind) (table : String) : Draft :=
  if draft.inGroup then draft
  else
    let clause := draft.store.fresh
    let added := draft.startJoin kind
    let leaf := added.store.fresh
    (added.alter (·.addChild clause (.literal table))).adjust
      fun scope => { scope with target := some leaf }

/-! ### Names -/

/-- The name that stands behind a node. -/
def nameAfter? (draft : Draft) (target : Slot) : Option Slot :=
  (draft.store.node target).next.filter fun slot =>
    (draft.store.node slot).payload.isKeyword .asName

/-- Names what came last. -/
def giveName (draft : Draft) (name : String) : Draft :=
  match draft.scope.target with
  | none => draft
  | some target =>
    match draft.nameAfter? target with
    | some slot =>
      match draft.store.firstChild? slot with
      | some leaf => draft.alter (·.setPayload leaf (.literal name))
      | none => draft.alter (·.addChild slot (.literal name))
    | none =>
      let slot := draft.store.fresh
      draft.alter fun store =>
        ((store.allocate (.keyword .asName)).addChild slot (.literal name)).linkAfter target slot

/-! ### Removals -/

/-- Turns the command of the innermost scope into a removal. The columns it had are dropped, and a
name would no longer go to one of them. -/
def replaceCommand (draft : Draft) (removal : Removal) (clause : Slot) : Draft :=
  let columns := draft.store.children clause
  let cleared := draft.alter fun store =>
    (store.eraseChildren clause).setPayload clause (.keyword removal.keyword)
  cleared.adjust fun scope =>
    { scope with target := scope.target.filter fun target => target ∉ columns }

/-- Makes the innermost scope a removal. The tag of a table clause that is there follows it. -/
def remove (draft : Draft) (removal : Removal) : Draft :=
  if draft.inGroup then draft
  else
    let commanded :=
      match draft.scope.command with
      | some clause => draft.replaceCommand removal clause
      | none => draft.addCommand removal.keyword
    match commanded.scope.table with
    | some clause => commanded.alter (·.setPayload clause (.keyword removal.tableKeyword))
    | none => commanded

end SqlDraft.Draft
