/-
**Conditions in a draft.**

Conditions stand in a row below their clause, below the current join or, in a group, below the
group itself. The first one has nothing before it, each later one has `AND` or `OR`, and a negated
one has `NOT` directly before its own text.

* `Draft.conditionPlace?`: where the conditions of a clause go in the innermost scope.
* `Store.placeCondition`: makes room for one more condition, with what stands before it.
* `Draft.restrict`: adds a condition.

Without a current join a condition on a join leaves the draft as it is.
-/

import SqlDraft.Condition
import SqlDraft.Draft.Sources

namespace SqlDraft

namespace Store

/-- What stands before a condition, its negation left aside unless it comes first. -/
def conditionMark (store : Store) (place : Slot) (logic : Connective) : Keyword :=
  if (store.firstChild? place).isSome then logic.keyword
  else if logic.negates then .not
  else .blank

/-- Whether the negation of a condition needs a node of its own. -/
def negatesBelow (store : Store) (place : Slot) (logic : Connective) : Bool :=
  (store.firstChild? place).isSome && logic.negates

/-- Adds the mark of a condition. -/
def pushMark (store : Store) (place : Slot) (logic : Connective) : Store :=
  store.addChild place (.keyword (store.conditionMark place logic))

/-- Makes room for one more condition: its mark, and below it a negation where the mark joins it
to others. -/
def placeCondition (store : Store) (place : Slot) (logic : Connective) : Store :=
  let marked := store.pushMark place logic
  if store.negatesBelow place logic then marked.addChild store.fresh (.keyword .not) else marked

/-- The slot that the condition itself goes below. -/
def conditionSlot (store : Store) (place : Slot) (logic : Connective) : Slot :=
  if store.negatesBelow place logic then (store.pushMark place logic).fresh else store.fresh

end Store

namespace Draft

/-- Where the conditions of a clause go in the innermost scope; the slot is the fresh one where the
clause has to be added first. In a group all conditions go to the group. -/
def conditionPlace? (draft : Draft) (clause : FilterClause) : Option Slot :=
  if draft.inGroup then some draft.scope.root
  else
    match clause with
    | .whereClause => some (draft.store.clauseSlot draft.scope.root .whereClause)
    | .having => some (draft.store.clauseSlot draft.scope.root .having)
    | .joinOn =>
      draft.scope.join.map fun join =>
        (draft.store.childWith? join .joinOn).getD draft.store.fresh

/-- The draft with the place that the conditions of a clause go to. -/
def withConditions (draft : Draft) (clause : FilterClause) : Draft :=
  if draft.inGroup then draft
  else
    match clause with
    | .whereClause => draft.alter (·.ensureClause draft.scope.root .whereClause)
    | .having => draft.alter (·.ensureClause draft.scope.root .having)
    | .joinOn =>
      match draft.scope.join with
      | none => draft
      | some join =>
        if (draft.store.childWith? join .joinOn).isSome then draft
        else draft.alter (·.addChild join (.keyword .joinOn))

/-- Adds a condition to a clause. -/
def restrict (draft : Draft) (clause : FilterClause) (logic : Connective) (condition : Condition) :
    Draft :=
  match draft.conditionPlace? clause with
  | none => draft
  | some place =>
    let ready := draft.withConditions clause
    let slot := ready.store.conditionSlot place logic
    ready.alter fun store =>
      (store.placeCondition place logic).addChild slot (.literal condition.sql)

/-- Joins a table on a condition, which is left out if the join takes none. -/
def joinOn (draft : Draft) (kind : JoinKind) (table : String) (condition : Condition) : Draft :=
  if draft.inGroup then draft
  else (draft.join kind table).restrict .joinOn .and condition

end Draft

end SqlDraft
