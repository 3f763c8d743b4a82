/-
**Columns.**

The columns of a projection, of a grouping and of an ordering are lists with commas between their
items. A projection that lists all columns by a star gives way to columns that are named, and the
last column of an ordering may have a direction.

* `Draft.select`, `Draft.distinct`: the columns that a statement returns.
* `Draft.groupBy`, `Draft.orderBy`: the columns that it groups and sorts by.
* `Draft.direct`: the direction of the last column it sorts by.

A call that is not possible in the innermost scope leaves the draft as it is.
-/

import SqlDraft.Draft.Basic

namespace SqlDraft

namespace Store

/-- Adds a column to a list, with a comma before it unless it is the first. -/
def pushColumn (store : Store) (clause : Slot) (column : String) : Store :=
  if (store.firstChild? clause).isSome then
    (store.addChild clause (.keyword .comma)).addChild clause (.literal column)
  else store.addChild clause (.literal column)

/-- Adds columns to a list. -/
def pushColumns (store : Store) (clause : Slot) (columns : List String) : Store :=
  columns.foldl (fun store column => store.pushColumn clause column) store

/-- Removes the star that stands for all columns from a projection. -/
def dropStar (store : Store) (clause : Slot) : Store :=
  match store.firstChild? clause with
  | some first =>
    if (store.node first).payload.isKeyword .star then store.eraseChild clause first
    else store
  | none => store

end Store

namespace Draft

/-! ### The projection -/

/-- The innermost scope with a command, which is a projection if there was none. -/
def withCommand (draft : Draft) : Draft :=
  if draft.scope.command.isSome then draft else draft.addCommand .select

/-- Whether the innermost scope has a projection or may still get one. -/
def canProject (draft : Draft) : Bool :=
  !draft.inGroup && (draft.scope.command.isNone || draft.scopeCommand = .select)

/-- Adds columns to the projection. A name would then go to the last of them. -/
def select (draft : Draft) (columns : List String) : Draft :=
  if columns = [] ∨ draft.canProject = false then draft
  else
    let projecting := draft.withCommand
    match projecting.scope.command with
    | none => projecting
    | some clause =>
      let filled := projecting.alter fun store => (store.dropStar clause).pushColumns clause columns
      filled.adjust fun scope => { scope with target := filled.store.lastChild? clause }

/-- Lets the projection return each row once. Without a command it returns all columns. -/
def distinct (draft : Draft) : Draft :=
  if draft.inGroup then draft
  else
    match draft.scope.command with
    | none =>
      let clause := draft.store.fresh
      (draft.addCommand .selectDistinct).alter (·.addChild clause (.keyword .star))
    | some clause =>
      if (draft.store.node clause).payload.isKeyword .select then
        draft.alter (·.setPayload clause (.keyword .selectDistinct))
      else draft

/-! ### Grouping and ordering -/

/-- Adds columns to a clause of the innermost scope that is a list. -/
def listColumns (draft : Draft) (keyword : Keyword) (columns : List String) : Draft :=
  if columns = [] ∨ draft.inGroup then draft
  else
    let root := draft.scope.root
    let clause := draft.store.clauseSlot root keyword
    draft.alter fun store => (store.ensureClause root keyword).pushColumns clause columns

/-- Adds columns to group by. -/
def groupBy (draft : Draft) (columns : List String) : Draft := draft.listColumns .groupBy columns

/-- Adds columns to sort by. -/
def orderBy (draft : Draft) (columns : List String) : Draft := draft.listColumns .orderBy columns

/-- The ordering of the innermost scope. -/
def ordering? (draft : Draft) : Option Slot := draft.store.clause? draft.scope.root .orderBy

/-- Sets the direction of the last column to sort by. -/
def direct (draft : Draft) (direction : Direction) : Draft :=
  if draft.inGroup then draft
  else
    match draft.ordering? with
    | none => draft
    | some clause =>
      match draft.store.lastChild? clause with
      | none => draft.alter (·.addChild clause (.keyword direction.keyword))
      | some last =>
        if (draft.store.node last).payload.keyword?.any Keyword.isDirection then
          draft.alter (·.setPayload last (.keyword direction.keyword))
        else draft.alter (·.addChild clause (.keyword direction.keyword))

/-- Adds columns to sort by, the last of them downwards. -/
def orderDown (draft : Draft) (columns : List String) : Draft :=
  (draft.orderBy columns).direct .desc

end Draft

end SqlDraft
