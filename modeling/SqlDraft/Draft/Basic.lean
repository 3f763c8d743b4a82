/-
**Drafts.**

A draft is a statement that is being made: the tree of its parts, the scopes that are open in it
and the text it was last written as. Calls may come in any order; each puts its part in place in
the innermost scope.

* `Draft.start`: the draft in which nothing was said yet.
* `Draft.scope`: the innermost open scope; the statement itself is always open.
* `Draft.adjust`: a change of what the innermost scope remembers.
-/

import SqlDraft.Draft.Scope
import SqlDraft.Settings
import SqlDraft.Statement
import SqlDraft.Store.Clauses

namespace SqlDraft

/-- A statement that is being made. -/
structure Draft where
  store : Store
  /-- The scope of the whole statement, which is never closed. -/
  base : Scope
  /-- The open scopes inside the statement, the innermost first. -/
  nested : List Scope
  /-- The text that the draft was last written as. -/
  rendered : String
  settings : Settings
deriving DecidableEq

namespace Draft

/-- The draft in which nothing was said yet. -/
def start (settings : Settings) : Draft :=
  let store := Store.empty settings.chunkSize.toNat
  { store := store.allocate .blank
    base := .opened store.fresh .statement ⟨false, false⟩
    nested := []
    rendered := ""
    settings }

/-- The same draft with nothing said, in the same settings. -/
def startOver (draft : Draft) : Draft :=
  { store := draft.store.reset.allocate .blank
    base := .opened draft.store.reset.fresh .statement ⟨false, false⟩
    nested := []
    rendered := ""
    settings := draft.settings }

/-- The node of the whole statement, which the draft is written from. The node of the draft and the
node of its outermost scope are one field, so they are the same by definition. -/
def root (draft : Draft) : Slot := draft.base.root

/-- The number of open scopes, the statement included. -/
def depth (draft : Draft) : Nat := draft.nested.length + 1

/-- The innermost open scope. -/
def scope (draft : Draft) : Scope := draft.nested.head?.getD draft.base

/-- Changes what the innermost scope remembers. -/
def adjust (draft : Draft) (change : Scope → Scope) : Draft :=
  match draft.nested with
  | [] => { draft with base := change draft.base }
  | scope :: outer => { draft with nested := change scope :: outer }

/-- Opens a scope inside the innermost one. -/
def openScope (draft : Draft) (scope : Scope) : Draft :=
  { draft with nested := scope :: draft.nested }

/-- Changes the tree. -/
def alter (draft : Draft) (change : Store → Store) : Draft :=
  { draft with store := change draft.store }

/-- Whether the innermost scope is a group of conditions, which has no clauses. -/
def inGroup (draft : Draft) : Bool := draft.scope.kind = .group

/-- The tag of a scope's command. -/
def commandKeyword (draft : Draft) (scope : Scope) : Option Keyword :=
  scope.command.bind fun slot => (draft.store.node slot).payload.keyword?

/-- What the whole statement does, as far as it was said. -/
def command (draft : Draft) : Command := .ofKeyword (draft.commandKeyword draft.base)

/-- What the innermost scope does, as far as it was said. -/
def scopeCommand (draft : Draft) : Command := .ofKeyword (draft.commandKeyword draft.scope)

/-- Adds a command clause to the innermost scope. -/
def addCommand (draft : Draft) (keyword : Keyword) : Draft :=
  let slot := draft.store.fresh
  (draft.alter (·.addClause draft.scope.root keyword)).adjust
    fun scope => { scope with command := some slot }

@[simp]
theorem store_adjust (draft : Draft) (change : Scope → Scope) :
    (draft.adjust change).store = draft.store := by
  unfold adjust
  split <;> rfl

@[simp]
theorem scope_adjust (draft : Draft) (change : Scope → Scope) :
    (draft.adjust change).scope = change draft.scope := by
  unfold adjust scope
  split <;> simp_all

@[simp]
theorem depth_adjust (draft : Draft) (change : Scope → Scope) :
    (draft.adjust change).depth = draft.depth := by
  unfold adjust depth
  split <;> simp_all

end Draft

end SqlDraft
