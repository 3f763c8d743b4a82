/-
**Scripts of store operations.**

A step names one operation of the store with its operands, and its reply is what the operation
tells besides the changed store. A script is run step by step, with the counts of the store after
each one.

* `Store.perform`: one step on a store in which all named slots exist.
* `Store.transcript?`: a whole script, `none` where a step names a slot that was never handed out.
-/

import SqlDraft.Store.Clauses

namespace SqlDraft.Store

/-- One operation on a store with its operands. -/
inductive Step
  | allocate
  | allocateWith (payload : Payload)
  | addChild (parent : Slot) (payload : Payload)
  | addClause (parent : Slot) (keyword : Keyword)
  | ensureClause (parent : Slot) (keyword : Keyword)
  | clause (parent : Slot) (keyword : Keyword)
  | childWith (parent : Slot) (keyword : Keyword)
  | discard (slot : Slot)
  | reset
  | node (slot : Slot)
  | children (slot : Slot)
  | firstChild (slot : Slot)
  | lastChild (slot : Slot)
  | keyword (slot : Slot)
  | isKeyword (slot : Slot) (keyword : Keyword)
  | setPayload (slot : Slot) (payload : Payload)
  | linkLast (parent slot : Slot)
  | linkFirst (parent slot : Slot)
  | linkAfter (previous slot : Slot)
  | detach (parent slot : Slot)
  | eraseChild (parent slot : Slot)
  | eraseChildren (parent : Slot)

/-- What a step tells. -/
inductive Reply
  | done
  | slot (slot : Option Slot)
  | slots (slots : List Slot)
  | node (slot : Slot) (node : Node)
  | keyword (keyword : Option Keyword)
  | flag (value : Bool)

/-- The slots that a step names. -/
def Step.named : Step → List Slot
  | .allocate | .allocateWith _ | .reset => []
  | .addChild slot _ | .addClause slot _ | .ensureClause slot _ | .clause slot _
  | .childWith slot _ | .discard slot | .node slot | .children slot | .firstChild slot
  | .lastChild slot | .keyword slot | .isKeyword slot _ | .setPayload slot _
  | .eraseChildren slot => [slot]
  | .linkLast first second | .linkFirst first second | .linkAfter first second
  | .detach first second | .eraseChild first second => [first, second]

/-- The reply of a step and the store after it. -/
def perform (store : Store) : Step → Reply × Store
  | .allocate => (.slot (some store.fresh), store.allocate .blank)
  | .allocateWith payload => (.slot (some store.fresh), store.allocate payload)
  | .addChild parent payload => (.slot (some store.fresh), store.addChild parent payload)
  | .addClause parent keyword => (.slot (some store.fresh), store.addClause parent keyword)
  | .ensureClause parent keyword =>
    (.slot (some (store.clauseSlot parent keyword)), store.ensureClause parent keyword)
  | .clause parent keyword => (.slot (store.clause? parent keyword), store)
  | .childWith parent keyword => (.slot (store.childWith? parent keyword), store)
  | .discard slot => (.done, store.discard slot)
  | .reset => (.done, store.reset)
  | .node slot => (.node slot (store.node slot), store)
  | .children slot => (.slots (store.children slot), store)
  | .firstChild slot => (.slot (store.firstChild? slot), store)
  | .lastChild slot => (.slot (store.lastChild? slot), store)
  | .keyword slot => (.keyword (store.node slot).payload.keyword?, store)
  | .isKeyword slot keyword => (.flag ((store.node slot).payload.isKeyword keyword), store)
  | .setPayload slot payload => (.done, store.setPayload slot payload)
  | .linkLast parent slot => (.done, store.linkLast parent slot)
  | .linkFirst parent slot => (.done, store.linkFirst parent slot)
  | .linkAfter previous slot => (.done, store.linkAfter previous slot)
  | .detach parent slot => (.flag (store.isChild parent slot), store.detach parent slot)
  | .eraseChild parent slot => (.done, store.eraseChild parent slot)
  | .eraseChildren parent => (.done, store.eraseChildren parent)

/-- What is told about one step of a script: its reply, then the slots in use and the counts of the
store after it. -/
structure Remark where
  reply : Reply
  inUse : Nat
  usage : Usage

/-- Runs a script. There is no result where a step names a slot that was never handed out. -/
def transcript? (store : Store) : List Step → Option (List Remark × Store)
  | [] => some ([], store)
  | step :: rest =>
    if step.named.all (· < store.slots) then
      let performed := store.perform step
      let remark := ⟨performed.1, performed.2.inUse, performed.2.usage⟩
      (performed.2.transcript? rest).map fun told => (remark :: told.1, told.2)
    else none

/-- All slots with their nodes, by number. -/
def listing (store : Store) : List (Slot × Node) :=
  (List.range store.slots).map fun slot => (slot, store.node slot)

end SqlDraft.Store
