/-
**Linking nodes into child lists.**

A node's children are a chain of siblings. The operations here add, move and remove one element of
such a chain, or all of them:

* `Store.linkLast`, `Store.linkFirst`, `Store.linkAfter` put a slot at the end, at the front and
  behind another one;
* `Store.detach` takes a slot out of the chain, and `Store.eraseChild` releases it as well;
* `Store.eraseChildren` releases the whole chain.

A slot is linked as it is: what follows it or hangs below it is not looked at.
-/

import SqlDraft.Store.Basic

namespace SqlDraft.Store

/-- The first node below a node. -/
def firstChild? (store : Store) (parent : Slot) : Option Slot := (store.node parent).child

/-- The last node directly below a node. -/
def lastChild? (store : Store) (parent : Slot) : Option Slot := (store.children parent).getLast?

/-! ### Adding a child -/

/-- Links a slot behind the last child of a node, or as its first one. -/
def linkLast (store : Store) (parent slot : Slot) : Store :=
  match store.lastChild? parent with
  | some last => store.setNext last (some slot)
  | none => store.setChild parent (some slot)

/-- Links a slot before the first child of a node. -/
def linkFirst (store : Store) (parent slot : Slot) : Store :=
  (store.setNext slot (store.firstChild? parent)).setChild parent (some slot)

/-- Links a slot directly behind another one. -/
def linkAfter (store : Store) (previous slot : Slot) : Store :=
  (store.setNext slot (store.node previous).next).setNext previous (some slot)

/-- Allocates a node and links it behind the last child of a node. The child is the slot that was
fresh before. -/
def addChild (store : Store) (parent : Slot) (payload : Payload) : Store :=
  (store.allocate payload).linkLast parent store.fresh

/-! ### Removing a child -/

/-- The child of a node that a slot follows. -/
def childBefore? (store : Store) (parent slot : Slot) : Option Slot :=
  (store.children parent).find? fun child => (store.node child).next = some slot

/-- Whether a slot is linked as a child of a node, as its first one or behind another child. -/
def isChild (store : Store) (parent slot : Slot) : Bool :=
  store.firstChild? parent = some slot || (store.childBefore? parent slot).isSome

/-- Takes a slot out of the children of a node and cuts it off from its siblings; a slot that is
not among them stays as it is. -/
def detach (store : Store) (parent slot : Slot) : Store :=
  let next := (store.node slot).next
  if store.firstChild? parent = some slot then
    (store.setChild parent next).setNext slot none
  else
    match store.childBefore? parent slot with
    | some previous => (store.setNext previous next).setNext slot none
    | none => store

/-- Takes a slot out of the children of a node and releases it with all slots below it. -/
def eraseChild (store : Store) (parent slot : Slot) : Store :=
  if store.isChild parent slot then (store.detach parent slot).discard slot else store

/-- Releases the siblings from a slot on, at most `bound` of them. Each is cut off from the next
one before it is released. -/
def discardChain : (bound : Nat) → Option Slot → Store → Store
  | 0, _, store => store
  | _ + 1, none, store => store
  | bound + 1, some slot, store =>
    discardChain bound (store.node slot).next ((store.setNext slot none).discard slot)

/-- Releases all children of a node. A sibling link is followed once, so one step more than there
are slots is enough. -/
def eraseChildren (store : Store) (parent : Slot) : Store :=
  discardChain (store.slots + 1) (store.firstChild? parent) (store.setChild parent none)

/-! ### Finding a child -/

/-- The first child of a node with this tag. -/
def childWith? (store : Store) (parent : Slot) (keyword : Keyword) : Option Slot :=
  (store.children parent).find? fun child => (store.node child).payload.isKeyword keyword

end SqlDraft.Store
