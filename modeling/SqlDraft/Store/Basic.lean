/-
**A store of tree nodes in numbered slots.**

Nodes are kept in one array and named by their slot. A released slot goes on a stack and is handed
out again before a new one is made, the slot released last first. Room for new slots is reserved
in chunks of one size.

* `Store.fresh`: the slot that the next allocation hands out.
* `Store.allocate`: takes that slot for a node that is linked nowhere.
* `Store.discard`: gives back a slot with all slots below it.
* `Store.node_update_same`, `Store.node_update_other`: what a change of one node does to the nodes.
* `Store.node_allocate_fresh`, `Store.node_allocate_other`: what an allocation does to them.

Reading a slot that was never handed out gives the default node.
-/

import SqlDraft.Keyword

namespace SqlDraft

/-- What a node stands for in the text of a statement. -/
inductive Payload
  | keyword (word : Keyword)
  | literal (text : String)
deriving DecidableEq

namespace Payload

/-- The payload of a node that is not filled yet. -/
def blank : Payload := .keyword .blank

instance : Inhabited Payload := ⟨blank⟩

/-- The tag of a payload that is one. -/
def keyword? : Payload → Option Keyword
  | .keyword word => some word
  | .literal _ => none

/-- Whether the payload is this tag. -/
def isKeyword (payload : Payload) (word : Keyword) : Bool := payload = .keyword word

/-- The place among the clauses of a statement of what the payload heads. -/
def rank? (payload : Payload) : Option Nat := payload.keyword?.bind Keyword.rank?

/-- The text of a payload in a dialect. -/
def text (dialect : Dialect) : Payload → String
  | .keyword word => word.text dialect
  | .literal text => text

end Payload

/-- The number of a slot. -/
abbrev Slot := Nat

/-- A node: its payload, the sibling after it and the first node below it. -/
structure Node where
  payload : Payload := .blank
  next : Option Slot := none
  child : Option Slot := none
deriving DecidableEq, Inhabited

/-- The slots of a tree and the stack of released ones. -/
structure Store where
  /-- How many slots are reserved at a time. -/
  chunkSize : Nat
  nodes : Array Node := #[]
  /-- The released slots, the last released first. -/
  released : List Slot := []
  /-- How often room was reserved. -/
  chunks : Nat := 0
deriving DecidableEq

namespace Store

/-- A store without slots, which reserves at least one slot at a time. -/
def empty (chunkSize : Nat) : Store := { chunkSize := max chunkSize 1 }

/-- The number of slots ever made, in use or released. -/
def slots (store : Store) : Nat := store.nodes.size

/-- The number of slots in use. -/
def inUse (store : Store) : Nat := store.slots - store.released.length

/-- The counts of slots, released slots and reservations. -/
structure Usage where
  slots : Nat
  released : Nat
  chunks : Nat
deriving DecidableEq

/-- The counts of the store. -/
def usage (store : Store) : Usage := ⟨store.slots, store.released.length, store.chunks⟩

/-- The node in a slot. -/
def node (store : Store) (slot : Slot) : Node := store.nodes.getD slot {}

/-- Changes the node in a slot. -/
def update (store : Store) (slot : Slot) (change : Node → Node) : Store :=
  { store with nodes := store.nodes.modify slot change }

/-- Changes the payload of a node. -/
def setPayload (store : Store) (slot : Slot) (payload : Payload) : Store :=
  store.update slot fun node => { node with payload }

/-- Changes the sibling link of a node. -/
def setNext (store : Store) (slot : Slot) (next : Option Slot) : Store :=
  store.update slot fun node => { node with next }

/-- Changes the child link of a node. -/
def setChild (store : Store) (slot : Slot) (child : Option Slot) : Store :=
  store.update slot fun node => { node with child }

/-! ### Allocation -/

/-- The slot that the next allocation takes: the one released last, or else a new one. -/
def fresh (store : Store) : Slot := store.released.head?.getD store.slots

/-- Takes the fresh slot for a node with this payload and no links, and reserves room first where
all reserved slots are made. -/
def allocate (store : Store) (payload : Payload) : Store :=
  match store.released with
  | slot :: rest =>
    { store with nodes := store.nodes.setIfInBounds slot { payload }, released := rest }
  | [] =>
    { store with
      nodes := store.nodes.push { payload }
      chunks :=
        if store.slots = store.chunks * store.chunkSize then store.chunks + 1 else store.chunks }

/-! ### Children -/

/-- The siblings from a slot on, at most `bound` of them. -/
def siblings (store : Store) : (bound : Nat) → Option Slot → List Slot
  | 0, _ => []
  | _ + 1, none => []
  | bound + 1, some slot => slot :: store.siblings bound (store.node slot).next

/-- The siblings from a slot on. A chain that ends has no slot twice, so it has at most as many
members as there are slots. -/
def chain (store : Store) (first : Option Slot) : List Slot := store.siblings store.slots first

/-- The nodes directly below a node, from left to right. -/
def children (store : Store) (parent : Slot) : List Slot := store.chain (store.node parent).child

/-! ### Release -/

/-- Empties a slot and puts it on the stack of released slots. -/
def giveBack (store : Store) (slot : Slot) : Store :=
  { store.update slot fun _ => {} with released := slot :: store.released }

/-- Releases the pending slots and what hangs below them, at most `bound` slots in all. A slot is
emptied before its children are read, so a child link is followed once. -/
def discardAll : (bound : Nat) → List Slot → Store → Store
  | 0, _, store => store
  | _ + 1, [], store => store
  | bound + 1, slot :: pending, store =>
    let child := (store.node slot).child
    let emptied := store.update slot fun _ => {}
    discardAll bound ((emptied.chain child).reverse ++ pending) (store.giveBack slot)

/-- Releases a slot and all slots below it. Each slot pushes at most all slots once, so the work
is bounded by one more than the square of the number of slots. -/
def discard (store : Store) (slot : Slot) : Store :=
  discardAll (1 + store.slots * store.slots) [slot] store

/-- Gives back all slots and all reserved room. -/
def reset (store : Store) : Store := empty store.chunkSize

/-! ### What a change of one node does -/

@[simp]
theorem slots_update (store : Store) (slot : Slot) (change : Node → Node) :
    (store.update slot change).slots = store.slots := by
  simp [update, slots]

theorem node_update_same (store : Store) (slot : Slot) (change : Node → Node)
    (made : slot < store.slots) :
    (store.update slot change).node slot = change (store.node slot) := by
  simp only [slots] at made
  simp [update, node, Array.getD_eq_getD_getElem?, made, Array.getElem_modify]

theorem node_update_other (store : Store) (slot other : Slot) (change : Node → Node)
    (different : other ≠ slot) : (store.update slot change).node other = store.node other := by
  simp [update, node, Array.getD_eq_getD_getElem?, Array.getElem?_modify, different.symm]

/-! ### What an allocation does -/

/-- A slot that is handed out holds the payload and no links. -/
theorem node_allocate_fresh (store : Store) (payload : Payload)
    (made : ∀ slot ∈ store.released, slot < store.slots) :
    (store.allocate payload).node store.fresh = { payload } := by
  unfold allocate fresh
  split
  · next slot rest stack =>
    have inside : slot < store.nodes.size := made slot (by simp [stack])
    simp [stack, node, Array.getD_eq_getD_getElem?, inside]
  · next stack => simp [stack, node, slots, Array.getD_eq_getD_getElem?]

/-- An allocation leaves all other slots as they are. -/
theorem node_allocate_other (store : Store) (payload : Payload) (other : Slot)
    (different : other ≠ store.fresh) : (store.allocate payload).node other = store.node other := by
  unfold fresh at different
  unfold allocate
  split
  · next slot rest stack =>
    have elsewhere : other ≠ slot := by simpa [stack] using different
    simp [node, Array.getD_eq_getD_getElem?, elsewhere.symm]
  · next stack =>
    have elsewhere : other ≠ store.nodes.size := by simpa [stack, slots] using different
    simp [node, Array.getD_eq_getD_getElem?, Array.getElem?_push, elsewhere]

/-- An allocation makes a slot exactly when none is released. -/
theorem slots_allocate (store : Store) (payload : Payload) :
    (store.allocate payload).slots =
      if store.released = [] then store.slots + 1 else store.slots := by
  unfold allocate
  split
  · next slot rest stack => simp [slots, stack]
  · next stack => simp [slots, stack]

end Store

end SqlDraft
