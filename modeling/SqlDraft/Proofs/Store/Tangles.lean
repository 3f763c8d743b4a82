/-
**Discarding in a tangled store.**

Child links may lead anywhere: to the child of another node, back to a node above, or to a slot that
was released before. A discard in such a store still ends if all sibling links do. A slot is emptied
when it is visited, so its child link is followed once, and then through each slot at most once:

* `Store.Turns`: some turns of a discard, with the slots that they visit.
* `Store.Threaded`: all links stay in the store, and sibling links end.
* `Store.Threaded.emptied`: they still end when one slot is emptied.
* `Store.Threaded.length_add_parents`: a child link pays for the siblings that it leads to.
* `Store.Trail.turn`, `Store.Turns.trail`: what one turn does, and what all turns have done.
* **`Store.tangled_discard_ends`**: a discard ends, and releases one slot at each turn.
-/

import Mathlib.Data.Finset.Card
import SqlDraft.Proofs.Store.Pruning

namespace SqlDraft.Store

variable {store other : Store} {slot : Slot} {first : Option Slot}
  {row rest pending visited left : List Slot}

/-! ### Turns -/

/-- **Turns of a discard**, from a work list to what is left of it, with the slots that are visited,
the last one first. At each turn the slot on top is emptied, the siblings that its child link leads
to are put on top of the rest, the last one first, and the slot is released. No bound is set on the
turns, nor on the siblings. -/
inductive Turns (store : Store) (pending : List Slot) : List Slot → List Slot → Store → Prop
  | start : Turns store pending [] pending store
  | turn {other : Store} {slot : Slot} {visited rest row : List Slot}
      (before : Turns store pending visited (slot :: rest) other)
      (leads : (other.update slot fun _ => {}).Leads (other.node slot).child row none) :
      Turns store pending (slot :: visited) (row.reverse ++ rest) (other.giveBack slot)

/-! ### Sibling links that end -/

/-- **All links stay in the store, and sibling links end.** Child links may lead to any slots. -/
structure Threaded (store : Store) : Prop where
  next_made : ∀ slot < store.slots, ∀ next ∈ (store.node slot).next, next < store.slots
  child_made : ∀ slot < store.slots, ∀ child ∈ (store.node slot).child, child < store.slots
  ends : ∀ slot < store.slots, ∃ row, store.Leads (some slot) row none

/-- The links of a store in which one slot was emptied were there before. -/
theorem mem_link_of_emptied (made : slot < store.slots) {read : Node → Option Slot}
    (blank : read {} = none) {found link : Slot}
    (member : link ∈ read ((store.update slot fun _ => {}).node found)) :
    link ∈ read (store.node found) := by
  rw [node_update store slot _ made] at member
  by_cases same : found = slot
  · rw [same, Function.update_self, blank] at member
    cases member
  · rwa [Function.update_of_ne same] at member

/-- Sibling links end at a slot that is emptied, or where they ended before. -/
theorem Leads.exists_emptied (leads : store.Leads first row none) (made : slot < store.slots) :
    ∃ kept, (store.update slot fun _ => {}).Leads first kept none := by
  induction row generalizing first with
  | nil => exact ⟨[], leads⟩
  | cons found rest step =>
    obtain ⟨rfl, further⟩ := leads
    by_cases same : found = slot
    -- The emptied slot has no sibling behind it, so the links end there.
    · refine ⟨[found], rfl, ?_⟩
      rw [same, node_update_same store slot _ made]
      rfl
    · obtain ⟨kept, ends⟩ := step further
      refine ⟨found :: kept, rfl, ?_⟩
      rwa [node_update_other store slot found _ same]

/-- The slots with a child link. -/
def parents (store : Store) : Finset Slot :=
  (Finset.range store.slots).filter fun slot => (store.node slot).child.isSome

theorem parents_giveBack (made : slot < store.slots) :
    (store.giveBack slot).parents = store.parents.erase slot := by
  have slots : (store.giveBack slot).slots = store.slots := slots_update store slot _
  ext found
  rw [parents, parents, Finset.mem_erase, Finset.mem_filter, Finset.mem_filter, slots,
    Forest.node_giveBack store slot made]
  by_cases same : found = slot
  · simp [same]
  · simp [same]

theorem card_parents_le (store : Store) : store.parents.card ≤ store.slots :=
  (Finset.card_filter_le _ _).trans (Finset.card_range store.slots).le

namespace Threaded

variable (threaded : store.Threaded)
include threaded

/-- Sibling links that start in the store stay in it. -/
theorem made_of_leads (leads : store.Leads first row none)
    (starts : ∀ slot ∈ first, slot < store.slots) : ∀ slot ∈ row, slot < store.slots := by
  induction row generalizing first with
  | nil => exact fun slot member => absurd member List.not_mem_nil
  | cons slot rest step =>
    obtain ⟨rfl, further⟩ := leads
    have made := starts slot rfl
    exact List.forall_mem_cons.mpr ⟨made, step further (threaded.next_made slot made)⟩

variable (made : slot < store.slots)
include made

/-- **Sibling links still end when a slot is emptied.** -/
theorem emptied : (store.update slot fun _ => {}).Threaded := by
  constructor
  · intro found madeFound next member
    rw [slots_update] at madeFound ⊢
    exact threaded.next_made found madeFound next (mem_link_of_emptied made rfl member)
  · intro found madeFound child member
    rw [slots_update] at madeFound ⊢
    exact threaded.child_made found madeFound child (mem_link_of_emptied made rfl member)
  · intro found madeFound
    rw [slots_update] at madeFound
    obtain ⟨row, leads⟩ := threaded.ends found madeFound
    exact leads.exists_emptied made

theorem giveBack : (store.giveBack slot).Threaded := by
  have emptied := threaded.emptied made
  refine ⟨emptied.next_made, emptied.child_made, fun found madeFound => ?_⟩
  obtain ⟨row, leads⟩ := emptied.ends found madeFound
  exact ⟨row, leads.congr fun _ _ => rfl⟩

/-- A child link leads to siblings that end, also when its own slot is emptied. -/
theorem exists_row :
    ∃ row, (store.update slot fun _ => {}).Leads (store.node slot).child row none := by
  cases linked : (store.node slot).child with
  | none => exact ⟨[], rfl⟩
  | some child =>
    have madeChild := threaded.child_made slot made child linked
    exact (threaded.emptied made).ends child (slots_update store slot _ ▸ madeChild)

variable (leads : (store.update slot fun _ => {}).Leads (store.node slot).child row none)
include leads

theorem row_made : ∀ child ∈ row, child < store.slots := by
  have stays := (threaded.emptied made).made_of_leads leads
  rw [slots_update] at stays
  exact stays (threaded.child_made slot made)

/-- **A child link pays for the siblings that it leads to**, which are not more than there are
slots. -/
theorem length_add_parents : row.length + store.slots * (store.giveBack slot).parents.card ≤
    store.slots * store.parents.card := by
  rw [parents_giveBack made]
  by_cases isParent : slot ∈ store.parents
  · have length : row.length ≤ store.slots :=
      length_le_of_made leads.nodup (threaded.row_made made leads)
    have fewer := Finset.card_erase_add_one isParent
    rw [← fewer, Nat.mul_succ]
    omega
  · have childless : (store.node slot).child = none := by
      rw [parents, Finset.mem_filter, Finset.mem_range] at isParent
      exact Option.not_isSome_iff_eq_none.mp fun isSome => isParent ⟨made, isSome⟩
    rw [childless] at leads
    have empty : row = [] := leads.unique rfl
    rw [Finset.erase_eq_of_notMem isParent, empty, List.length_nil, Nat.zero_add]

end Threaded

/-! ### What turns do -/

/-- **What some turns of a discard have done.** The slots that they visited are emptied and
released, one at each turn, and all other nodes are as before. The work that is left is paid for by
the child links that are left. -/
structure Trail (store : Store) (pending visited left : List Slot) (other : Store) : Prop where
  threaded : other.Threaded
  slots : other.slots = store.slots
  visited_made : ∀ slot ∈ visited, slot < store.slots
  left_made : ∀ slot ∈ left, slot < store.slots
  released : other.released = visited ++ store.released
  node_visited : ∀ slot ∈ visited, other.node slot = {}
  node_other : ∀ slot, slot ∉ visited → other.node slot = store.node slot
  work : visited.length + left.length + store.slots * other.parents.card ≤
    pending.length + store.slots * store.parents.card

theorem Trail.start (threaded : store.Threaded) (made : ∀ slot ∈ pending, slot < store.slots) :
    store.Trail pending [] pending store where
  threaded := threaded
  slots := rfl
  visited_made slot member := absurd member List.not_mem_nil
  left_made := made
  released := rfl
  node_visited slot member := absurd member List.not_mem_nil
  node_other _ _ := rfl
  work := by rw [List.length_nil, Nat.zero_add]

/-- **What one turn does.** -/
theorem Trail.turn (trail : store.Trail pending visited (slot :: rest) other)
    (leads : (other.update slot fun _ => {}).Leads (other.node slot).child row none) :
    store.Trail pending (slot :: visited) (row.reverse ++ rest) (other.giveBack slot) := by
  obtain ⟨madeSlot, madeRest⟩ := List.forall_mem_cons.mp trail.left_made
  have made : slot < other.slots := trail.slots ▸ madeSlot
  have nodes := Forest.node_giveBack other slot made
  refine ⟨trail.threaded.giveBack made, (slots_update other slot _).trans trail.slots,
    List.forall_mem_cons.mpr ⟨madeSlot, trail.visited_made⟩, fun found member => ?_,
    congrArg (slot :: ·) trail.released, fun found member => ?_, fun found absent => ?_, ?_⟩
  · rcases List.mem_append.mp member with inRow | inRest
    · exact trail.slots ▸ trail.threaded.row_made made leads found (List.mem_reverse.mp inRow)
    · exact madeRest found inRest
  · rw [nodes]
    by_cases same : found = slot
    · rw [same, Function.update_self]
    · rw [Function.update_of_ne same]
      exact trail.node_visited found (List.mem_of_ne_of_mem same member)
  · rw [nodes, Function.update_of_ne (List.ne_of_not_mem_cons absent)]
    exact trail.node_other found (List.not_mem_of_not_mem_cons absent)
  · have cost := trail.threaded.length_add_parents made leads
    have work := trail.work
    rw [trail.slots] at cost
    simp only [List.length_cons, List.length_append, List.length_reverse] at work ⊢
    omega

namespace Turns

section

variable (turns : store.Turns pending visited left other) (threaded : store.Threaded)
  (made : ∀ slot ∈ pending, slot < store.slots)
include turns threaded made

/-- **What all turns have done.** -/
theorem trail : store.Trail pending visited left other := by
  induction turns with
  | start => exact .start threaded made
  | turn _ leads step => exact step.turn leads

/-- There is a next turn as long as there is work left. -/
theorem exists_turn (some_ : left ≠ []) :
    ∃ next leftToo otherToo, store.Turns pending (next :: visited) leftToo otherToo := by
  have trail := turns.trail threaded made
  obtain ⟨top, rest, rfl⟩ := List.exists_cons_of_ne_nil some_
  have madeTop := trail.left_made top List.mem_cons_self
  obtain ⟨row, leads⟩ := trail.threaded.exists_row (trail.slots ▸ madeTop)
  exact ⟨top, _, _, turns.turn leads⟩

/-- **Turns come to an end**, after no more of them than there is work at first. -/
theorem exists_end (budget : Nat)
    (enough : pending.length + store.slots * store.parents.card ≤ visited.length + budget) :
    ∃ visited other, store.Turns pending visited [] other := by
  -- The induction is on the turns that are still allowed; all of the work is paid for by them.
  induction budget generalizing visited left other with
  | zero =>
    have work := (turns.trail threaded made).work
    have none : left = [] := List.length_eq_zero_iff.mp (by omega)
    exact ⟨visited, other, none ▸ turns⟩
  | succ budget step =>
    by_cases none : left = []
    · exact ⟨visited, other, none ▸ turns⟩
    · obtain ⟨next, leftToo, otherToo, further⟩ := turns.exists_turn threaded made none
      refine step further ?_
      rw [List.length_cons]
      omega

/-- The bounded discard makes these turns first, if its bound allows. -/
theorem discardAll_eq (bound : Nat) :
    discardAll (visited.length + bound) pending store = discardAll bound left other := by
  induction turns generalizing bound with
  | start => rw [List.length_nil, Nat.zero_add]
  | @turn other slot visited rest row before leads step =>
    have trail := before.trail threaded made
    have madeSlot : slot < other.slots := trail.slots ▸ trail.left_made slot List.mem_cons_self
    have chain : (other.update slot fun _ => {}).chain (other.node slot).child = row := by
      refine chain_eq_of_leads leads ?_
      rw [slots_update]
      exact trail.threaded.row_made madeSlot leads
    -- The last turn takes one from what the turns before it leave of the bound.
    have steps : (slot :: visited).length + bound = visited.length + (bound + 1) := by
      rw [List.length_cons]
      omega
    rw [steps, step (bound + 1), discardAll, chain]

end

section

variable (turns : store.Turns [slot] visited left other) (threaded : store.Threaded)
  (made : slot < store.slots)
include turns threaded made

/-- There are not more child links than slots, and each of them leads to every slot at most. -/
theorem length_le : visited.length + left.length ≤ 1 + store.slots * store.slots := by
  have work := (turns.trail threaded (List.forall_mem_singleton.mpr made)).work
  have most := Nat.mul_le_mul_left store.slots store.card_parents_le
  rw [List.length_singleton] at work
  omega

/-- Where no work is left, the bounded discard has come to the same store. -/
theorem eq_discard (none : left = []) : other = store.discard slot := by
  obtain ⟨extra, bound⟩ := Nat.exists_eq_add_of_le
    ((Nat.le_add_right _ _).trans (turns.length_le threaded made))
  have same := turns.discardAll_eq threaded (List.forall_mem_singleton.mpr made) extra
  rw [discard, bound, same, none]
  cases extra <;> rfl

end

end Turns

/-- **A discard ends in every store whose sibling links end**, wherever its child links lead, and no
bound stops it before. It has at most one turn more than the square of the number of slots, and the
next one is made as long as there is work left. All slots that it comes to are in the store. After
any of its turns the slots that were visited are emptied, and they are on the stack once for each
visit, on top of those that were there; all other nodes are as before. -/
theorem tangled_discard_ends (threaded : store.Threaded) (made : slot < store.slots) :
    (∃ visited, store.Turns [slot] visited [] (store.discard slot)) ∧
      ∀ visited left other, store.Turns [slot] visited left other →
        visited.length ≤ 1 + store.slots * store.slots ∧
        (left = [] → other = store.discard slot) ∧
        (left ≠ [] → ∃ next leftToo otherToo,
          store.Turns [slot] (next :: visited) leftToo otherToo) ∧
        (∀ found ∈ visited ++ left, found < store.slots) ∧
        other.slots = store.slots ∧
        other.released = visited ++ store.released ∧
        (∀ found ∈ visited, other.node found = {}) ∧
        ∀ found, found ∉ visited → other.node found = store.node found := by
  have madeAll : ∀ found ∈ [slot], found < store.slots := List.forall_mem_singleton.mpr made
  constructor
  · obtain ⟨visited, other, turns⟩ :=
      Turns.start.exists_end threaded madeAll _ (Nat.le_add_left _ _)
    exact ⟨visited, turns.eq_discard threaded made rfl ▸ turns⟩
  · intro visited left other turns
    have trail := turns.trail threaded madeAll
    refine ⟨(Nat.le_add_right _ _).trans (turns.length_le threaded made),
      turns.eq_discard threaded made, turns.exists_turn threaded madeAll, fun found member => ?_,
      trail.slots, trail.released, trail.node_visited, trail.node_other⟩
    exact (List.mem_append.mp member).elim (trail.visited_made found) (trail.left_made found)

/-- A node hangs below its own child, a child hangs below its own sibling as well, and a released
slot is still linked. -/
def tangle : Store where
  chunkSize := 8
  nodes := #[⟨.blank, none, some 1⟩, ⟨.keyword .select, some 2, some 0⟩,
    ⟨.literal "shared", some 4, some 3⟩, ⟨.blank, none, none⟩, ⟨.literal "last", none, some 2⟩]
  released := [3]
  chunks := 1

theorem tangle_threaded : tangle.Threaded := by
  refine ⟨by decide, by decide, fun slot made => ?_⟩
  match slot, made with
  | 0, _ => exact ⟨[0], rfl, rfl⟩
  | 1, _ => exact ⟨[1, 2, 4], rfl, rfl, rfl, rfl⟩
  | 2, _ => exact ⟨[2, 4], rfl, rfl, rfl⟩
  | 3, _ => exact ⟨[3], rfl, rfl⟩
  | 4, _ => exact ⟨[4], rfl, rfl⟩

/-- Three slots are visited twice, and one that was released before is visited once more. -/
theorem tangled_discard_ends_circle :
    tangle.Threaded ∧ 0 < tangle.slots ∧
      tangle.Turns [0] [0, 1, 2, 3, 2, 4, 4, 0] [] (tangle.discard 0) ∧
      [0, 1, 2, 3, 2, 4, 4, 0].length ≤ 1 + 5 * 5 ∧
      (tangle.discard 0).released = [0, 1, 2, 3, 2, 4, 4, 0, 3] ∧
      (tangle.discard 0).node 2 = {} := by
  have made : 0 < tangle.slots := by decide
  obtain ⟨⟨visited, turns⟩, all⟩ := tangled_discard_ends tangle_threaded made
  obtain ⟨bound, -, -, -, -, released, emptied, -⟩ := all visited [] _ turns
  have stack : (tangle.discard 0).released = [0, 1, 2, 3, 2, 4, 4, 0] ++ [3] := by decide
  obtain rfl : visited = [0, 1, 2, 3, 2, 4, 4, 0] :=
    List.append_cancel_right (released.symm.trans stack)
  exact ⟨tangle_threaded, made, turns, bound, stack, emptied 2 (by decide)⟩

end SqlDraft.Store
