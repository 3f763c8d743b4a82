/-
**Limit and offset.**

A scope has one limit clause, which holds the limit, the offset or both. It is marked as having no
limit as long as only an offset was given. Setting either again replaces its number.

* `Draft.limit`, `Draft.offset`: the numbers of rows to return and to pass over.
* `Draft.showPage`: both of them for a page of rows.
* `Paging.skipped`: the rows before a page, at most the greatest number that can be written.

In a group of conditions these calls leave the draft as it is.
-/

import SqlDraft.Draft.Basic

namespace SqlDraft

namespace Paging

/-- The number of a page counted from one; page zero is the first page. -/
def pageNumber (page : UInt64) : Nat := max page.toNat 1

/-- The rows before a page. -/
def rowsBefore (perPage page : UInt64) : Nat := (pageNumber page - 1) * perPage.toNat

/-- Whether the rows before a page are more than can be written. -/
def overflows (perPage page : UInt64) : Bool := UInt64.size ≤ rowsBefore perPage page

/-- The rows to pass over for a page. -/
def skipped (perPage page : UInt64) : UInt64 :=
  UInt64.ofNat (min (rowsBefore perPage page) (UInt64.size - 1))

theorem toNat_skipped (perPage page : UInt64) :
    (skipped perPage page).toNat = min (rowsBefore perPage page) (UInt64.size - 1) := by
  have small : min (rowsBefore perPage page) (UInt64.size - 1) < UInt64.size := by
    rw [UInt64.size]
    omega
  exact UInt64.toNat_ofNat_of_lt' small

end Paging

namespace Store

/-- The payload of a number of rows. -/
def countPayload (count : UInt64) : Payload :=
  .literal (String.ofList (Nat.toDigits 10 count.toNat))

/-- Marks a limit clause as having a limit and sets its number, which stands before the offset. -/
def setLimit (store : Store) (clause : Slot) (count : UInt64) : Store :=
  let marked := store.setPayload clause (.keyword .limit)
  match (marked.firstChild? clause).filter fun first =>
      !(marked.node first).payload.isKeyword .offset with
  | some first => marked.setPayload first (countPayload count)
  | none => (marked.allocate (countPayload count)).linkFirst clause marked.fresh

/-- Sets the number of the first child of a node. -/
def setCount (store : Store) (parent : Slot) (count : UInt64) : Store :=
  match store.firstChild? parent with
  | some leaf => store.setPayload leaf (countPayload count)
  | none => store.addChild parent (countPayload count)

/-- Sets the offset in a limit clause, which stands behind the limit. -/
def setOffset (store : Store) (clause : Slot) (count : UInt64) : Store :=
  match store.childWith? clause .offset with
  | some slot => store.setCount slot count
  | none => (store.addChild clause (.keyword .offset)).setCount store.fresh count

end Store

namespace Draft

/-- The limit clause of the innermost scope, if it has one. -/
def limitClause? (draft : Draft) : Option Slot :=
  (draft.store.clause? draft.scope.root .limit).or
    (draft.store.clause? draft.scope.root .noLimit)

/-- The slot of the limit clause, which is the fresh one where the clause has to be added first. -/
def limitClause (draft : Draft) : Slot := draft.limitClause?.getD draft.store.fresh

/-- The draft with a limit clause in its innermost scope, which has no limit if it is added. -/
def withLimitClause (draft : Draft) : Draft :=
  if draft.limitClause?.isSome then draft
  else draft.alter (·.addClause draft.scope.root .noLimit)

/-- Sets the number of rows to return. -/
def limit (draft : Draft) (count : UInt64) : Draft :=
  if draft.inGroup then draft
  else draft.withLimitClause.alter (·.setLimit draft.limitClause count)

/-- Sets the number of rows to pass over. -/
def offset (draft : Draft) (count : UInt64) : Draft :=
  if draft.inGroup then draft
  else draft.withLimitClause.alter (·.setOffset draft.limitClause count)

/-- Sets limit and offset for a page of rows. -/
def showPage (draft : Draft) (perPage page : UInt64) : Draft :=
  (draft.limit perPage).offset (Paging.skipped perPage page)

end Draft

end SqlDraft
