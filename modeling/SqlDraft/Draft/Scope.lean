/-
**Scopes.**

A scope is a statement, or a part of one, that is being filled. It remembers the slots that later
calls refer to: its command, its table, what a name would go to and the join that conditions would
go to.

* `Scope.lacksProjection`: a statement with a table and no command returns all columns.
* `Scope.resume`: what a scope remembers after one inside it has closed.
-/

import SqlDraft.Store.Basic

namespace SqlDraft

/-- The kinds of scopes. -/
inductive ScopeKind
  /-- The whole statement. -/
  | statement
  /-- A statement in parentheses. -/
  | subquery
  /-- A branch of a union, which has no parentheses. -/
  | union
  /-- Conditions in parentheses. -/
  | group
deriving DecidableEq

/-- The name of a kind in messages. -/
def ScopeKind.name : ScopeKind → String
  | statement => "Statement"
  | subquery => "Subquery"
  | union => "Union"
  | group => "Group"

/-- What a closed scope leaves to the scope around it. -/
structure Handback where
  /-- Whether a name would now go to the closed scope. -/
  takesName : Bool
  /-- Whether conditions still go to the same join. -/
  keepsJoin : Bool
deriving DecidableEq

/-- A scope that is being filled. -/
structure Scope where
  /-- The node that the parts of the scope are linked below. -/
  root : Slot
  kind : ScopeKind
  handback : Handback
  /-- The command clause. -/
  command : Option Slot := none
  /-- The table clause. -/
  table : Option Slot := none
  /-- What a name would go to. -/
  target : Option Slot := none
  /-- The join that conditions would go to. -/
  join : Option Slot := none
deriving DecidableEq

namespace Scope

/-- A scope in which nothing was said yet. -/
def opened (root : Slot) (kind : ScopeKind) (handback : Handback) : Scope :=
  { root, kind, handback }

/-- Whether the scope has a table and no command, and so returns all columns. -/
def lacksProjection (scope : Scope) : Bool :=
  scope.kind ≠ .group && scope.command.isNone && scope.table.isSome

/-- What a scope remembers after one inside it has closed. -/
def resume (scope closed : Scope) : Scope :=
  { scope with
    target := if closed.handback.takesName then some closed.root else none
    join := if closed.handback.keepsJoin then scope.join else none }

end Scope

end SqlDraft
