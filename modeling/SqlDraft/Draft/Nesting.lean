/-
**Scopes inside a draft.**

A scope is opened below a new node of the scope around it: as its table, as a join, as a condition
or as a branch of a union. When it closes it gets its parentheses, unless it is a branch of a
union, and the columns it returns if none were said.

* `Draft.enter`: opens a scope; `Draft.admits` tells whether it can be opened and filled.
* `Draft.close`: closes the innermost scope.
* `Draft.closeTo`: closes scopes until a number of them is left, as `Draft.depth_closeTo` says.
-/

import SqlDraft.Draft.Conditions

namespace SqlDraft

/-- The conditions that contain a scope. -/
inductive NestedCondition
  /-- A statement behind a column and an operator. -/
  | operand (column operator : String)
  /-- A statement that has to have rows. -/
  | existence
  /-- Conditions in parentheses. -/
  | group
deriving DecidableEq

namespace NestedCondition

/-- What stands before the scope of a condition. -/
def lead? : NestedCondition → Option Payload
  | operand column operator => some (.literal (Condition.spaced [column, operator]))
  | existence => some (.keyword .existsTest)
  | group => none

/-- The kind of the scope. -/
def kind : NestedCondition → ScopeKind
  | operand _ _ | existence => .subquery
  | group => .group

end NestedCondition

/-- The ways to open something that is filled by further calls. -/
inductive Opening
  /-- A statement as the table. -/
  | table
  /-- A branch of a union, with or without repeated rows. -/
  | union (all : Bool)
  /-- A statement as a joined table. -/
  | joinTable (kind : JoinKind)
  /-- A join whose conditions follow. No scope is opened for them. -/
  | joinConditions (kind : JoinKind) (table : String)
  /-- A join on a column and a statement. -/
  | joinOperand (kind : JoinKind) (table column operator : String)
  /-- A condition that contains a scope. -/
  | condition (clause : FilterClause) (logic : Connective) (nested : NestedCondition)
deriving DecidableEq

namespace Draft

/-! ### Opening -/

/-- Opens a scope below a new child of a node. -/
def openBelow (draft : Draft) (parent : Slot) (kind : ScopeKind) (handback : Handback) : Draft :=
  (draft.alter (·.addChild parent .blank)).openScope (.opened draft.store.fresh kind handback)

/-- Opens a statement as the table. A name goes to it when it is closed. -/
def openTable (draft : Draft) : Draft :=
  if draft.canTakeTable then
    draft.addTable.openBelow draft.store.fresh .subquery ⟨true, false⟩
  else draft

/-- Opens a branch of a union. -/
def openUnion (draft : Draft) (all : Bool) : Draft :=
  if draft.inGroup then draft
  else
    let clause := draft.store.fresh
    (draft.alter (·.addClause draft.scope.root (if all then .unionAll else .union))).openBelow
      clause .union ⟨false, false⟩

/-- Opens a statement as a joined table. A name goes to it when it is closed, and so do conditions
to its join. -/
def openJoin (draft : Draft) (kind : JoinKind) : Draft :=
  if draft.inGroup then draft
  else (draft.startJoin kind).openBelow draft.store.fresh .subquery ⟨true, true⟩

/-- Adds what stands before the scope of a condition. -/
def pushLead (draft : Draft) (slot : Slot) (nested : NestedCondition) : Draft :=
  match nested.lead? with
  | some lead => draft.alter (·.addChild slot lead)
  | none => draft

/-- Opens the scope of a condition. A scope in a condition of a join leaves the join current. -/
def openCondition (draft : Draft) (clause : FilterClause) (logic : Connective)
    (nested : NestedCondition) : Draft :=
  match draft.conditionPlace? clause with
  | none => draft
  | some place =>
    let ready := draft.withConditions clause
    let slot := ready.store.conditionSlot place logic
    ((ready.alter (·.placeCondition place logic)).pushLead slot nested).openBelow slot nested.kind
      ⟨false, clause = .joinOn⟩

/-- Opens what further calls fill. A call that is not possible in the innermost scope leaves the
draft as it is. -/
def enter (draft : Draft) : Opening → Draft
  | .table => draft.openTable
  | .union all => draft.openUnion all
  | .joinTable kind => draft.openJoin kind
  | .joinConditions kind table => draft.join kind table
  | .joinOperand kind table column operator =>
    if draft.inGroup then draft
    else (draft.join kind table).openCondition .joinOn .and (.operand column operator)
  | .condition clause logic nested => draft.openCondition clause logic nested

/-- Whether the conditions of a clause have a place in the innermost scope. -/
def takesCondition (draft : Draft) (clause : FilterClause) : Bool :=
  draft.inGroup || clause ≠ .joinOn || draft.scope.join.isSome

/-- Whether what is opened can be filled. -/
def admits (draft : Draft) : Opening → Bool
  | .table => draft.canTakeTable
  | .union _ | .joinTable _ | .joinConditions _ _ => !draft.inGroup
  | .joinOperand kind _ _ _ => !draft.inGroup && kind ≠ .cross
  | .condition clause _ _ => draft.takesCondition clause

/-! ### Closing -/

/-- Lets a scope that has a table and no command return all columns. -/
def completeProjection (store : Store) (scope : Scope) : Store :=
  if scope.lacksProjection then
    (store.addClause scope.root .select).addChild store.fresh (.keyword .star)
  else store

/-- Puts a scope into parentheses unless it is a branch of a union. -/
def parenthesize (store : Store) (scope : Scope) : Store :=
  if scope.kind = .union then store
  else
    ((store.allocate (.keyword .leftParen)).linkFirst scope.root store.fresh).addChild
      scope.root (.keyword .rightParen)

/-- Closes the innermost scope. The statement itself stays open. -/
def close (draft : Draft) : Draft :=
  match draft.nested with
  | [] => draft
  | closed :: outer =>
    let store := parenthesize (completeProjection draft.store closed) closed
    { draft with store, nested := outer }.adjust fun scope => scope.resume closed

/-- Closes a number of scopes, from the innermost one on. -/
def closeScopes : (count : Nat) → Draft → Draft
  | 0, draft => draft
  | count + 1, draft => closeScopes count draft.close

/-- Closes scopes until no more than this number is open. -/
def closeTo (draft : Draft) (depth : Nat) : Draft := closeScopes (draft.depth - depth) draft

/-- Closes all scopes but the statement itself. -/
def closeNested (draft : Draft) : Draft := draft.closeTo 1

/-! ### How many scopes are left -/

theorem depth_pos (draft : Draft) : 1 ≤ draft.depth := by
  unfold depth
  omega

theorem depth_close (draft : Draft) : draft.close.depth = max (draft.depth - 1) 1 := by
  unfold close
  split
  · next alone => simp [depth, alone]
  · next closed outer open_ =>
    rw [depth_adjust]
    simp only [depth, open_, List.length_cons]
    omega

theorem depth_closeScopes (count : Nat) (draft : Draft) :
    (closeScopes count draft).depth = max (draft.depth - count) 1 := by
  induction count generalizing draft with
  | zero =>
    have positive := draft.depth_pos
    rw [closeScopes]
    omega
  | succ count step =>
    rw [closeScopes, step, depth_close]
    omega

/-- Closing to a depth leaves as many scopes open, unless fewer were. -/
theorem depth_closeTo (draft : Draft) (depth : Nat) (positive : 1 ≤ depth) :
    (draft.closeTo depth).depth = min draft.depth depth := by
  have least := draft.depth_pos
  rw [closeTo, depth_closeScopes]
  omega

end Draft

end SqlDraft
