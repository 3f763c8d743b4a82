/-
**Children as lists.**

The children of a node are read by following sibling links, at most as many as there are slots.
Where the links end, this bound is never felt:

* `Store.read_update`: what a change of one node leaves alone.
* `Store.Leads`: following sibling links from one link leads through some slots to another link.
* `Store.Leads.nodup`: links that end pass no slot twice.
* `Store.children_eq_of_leads`: the children of a node are the slots that its child link leads
  through.
-/

import Mathlib.Data.List.Nodup
import Mathlib.Data.List.Perm.Subperm
import Mathlib.Logic.Function.Basic
import SqlDraft.Store.Links

namespace SqlDraft.Store

/-! ### Slots in use -/

/-- The payload of the node in a slot. -/
def payload (store : Store) (slot : Slot) : Payload := (store.node slot).payload

/-- A slot was handed out and not given back since. -/
def InUse (store : Store) (slot : Slot) : Prop := slot < store.slots ∧ slot ∉ store.released

instance (store : Store) (slot : Slot) : Decidable (store.InUse slot) :=
  inferInstanceAs (Decidable (slot < store.slots ∧ slot ∉ store.released))

/-- A slot that was never made reads as the default node. -/
theorem node_of_not_made (store : Store) (slot : Slot) (beyond : store.slots ≤ slot) :
    store.node slot = {} := by
  simp only [slots] at beyond
  simp [node, Array.getD_eq_getD_getElem?, beyond]

/-! ### Changes of one node -/

@[simp]
theorem released_update (store : Store) (slot : Slot) (change : Node → Node) :
    (store.update slot change).released = store.released := rfl

@[simp]
theorem inUse_update (store : Store) (slot : Slot) (change : Node → Node) :
    (store.update slot change).InUse = store.InUse := by
  funext other
  simp [InUse]

/-- A change of one node changes the nodes at its slot only. -/
theorem node_update (store : Store) (slot : Slot) (change : Node → Node)
    (made : slot < store.slots) :
    (store.update slot change).node = Function.update store.node slot (change (store.node slot)) := by
  funext other
  by_cases same : other = slot
  · subst same
    rw [node_update_same store other change made, Function.update_self]
  · rw [node_update_other store slot other change same, Function.update_of_ne same]

theorem update_eq_self {store : Store} {slot : Slot} {change : Node → Node}
    (same : change (store.node slot) = store.node slot) : store.update slot change = store := by
  refine congrArg (fun nodes => { store with nodes }) (Array.ext ?_ fun index _ inside => ?_)
  · simp
  · by_cases here : slot = index
    · subst here
      simpa [node, Array.getD_eq_getD_getElem?, inside, Array.getElem_modify] using same
    · simp [Array.getElem_modify, here]

/-- A part of a node that a change leaves alone is left alone in all nodes. -/
theorem read_update {Thing : Type} {read : Node → Thing} {store : Store} {slot : Slot}
    {change : Node → Node} (blind : ∀ node, read (change node) = read node) (other : Slot) :
    read ((store.update slot change).node other) = read (store.node other) := by
  by_cases here : other = slot
  · subst here
    by_cases made : other < store.slots
    · rw [node_update_same store other change made, blind]
    · have beyond : (store.update other change).slots ≤ other := by
        rw [slots_update]
        exact Nat.not_lt.mp made
      rw [node_of_not_made _ other beyond, node_of_not_made store other (Nat.not_lt.mp made)]
  · rw [node_update_other store slot other change here]

/-! ### Payloads and links -/

section Fields

variable {store : Store} {slot other : Slot}

@[simp]
theorem slots_setNext (store : Store) (slot : Slot) (next : Option Slot) :
    (store.setNext slot next).slots = store.slots :=
  slots_update store slot _

@[simp]
theorem slots_setChild (store : Store) (slot : Slot) (child : Option Slot) :
    (store.setChild slot child).slots = store.slots :=
  slots_update store slot _

@[simp]
theorem payload_setNext (store : Store) (slot : Slot) (next : Option Slot) :
    (store.setNext slot next).payload = store.payload :=
  funext (@read_update _ Node.payload store slot (fun node => { node with next }) fun _ => rfl)

@[simp]
theorem payload_setChild (store : Store) (slot : Slot) (child : Option Slot) :
    (store.setChild slot child).payload = store.payload :=
  funext (@read_update _ Node.payload store slot (fun node => { node with child }) fun _ => rfl)

@[simp]
theorem next_setChild (child : Option Slot) (other : Slot) :
    ((store.setChild slot child).node other).next = (store.node other).next :=
  @read_update _ Node.next store slot (fun node => { node with child }) (fun _ => rfl) other

@[simp]
theorem child_setNext (next : Option Slot) (other : Slot) :
    ((store.setNext slot next).node other).child = (store.node other).child :=
  @read_update _ Node.child store slot (fun node => { node with next }) (fun _ => rfl) other

@[simp]
theorem next_setPayload (payload : Payload) (other : Slot) :
    ((store.setPayload slot payload).node other).next = (store.node other).next :=
  @read_update _ Node.next store slot (fun node => { node with payload }) (fun _ => rfl) other

@[simp]
theorem child_setPayload (payload : Payload) (other : Slot) :
    ((store.setPayload slot payload).node other).child = (store.node other).child :=
  @read_update _ Node.child store slot (fun node => { node with payload }) (fun _ => rfl) other

theorem next_setNext (made : slot < store.slots) (next : Option Slot) :
    ((store.setNext slot next).node slot).next = next :=
  congrArg Node.next (node_update_same store slot _ made)

theorem next_setNext_of_ne (different : other ≠ slot) (next : Option Slot) :
    ((store.setNext slot next).node other).next = (store.node other).next :=
  congrArg Node.next (node_update_other store slot other _ different)

theorem child_setChild (made : slot < store.slots) (child : Option Slot) :
    ((store.setChild slot child).node slot).child = child :=
  congrArg Node.child (node_update_same store slot _ made)

theorem child_setChild_of_ne (different : other ≠ slot) (child : Option Slot) :
    ((store.setChild slot child).node other).child = (store.node other).child :=
  congrArg Node.child (node_update_other store slot other _ different)

/-- Writing the sibling link that a slot holds changes nothing. -/
theorem setNext_eq_self {next : Option Slot} (same : (store.node slot).next = next) :
    store.setNext slot next = store :=
  update_eq_self (by rw [← same])

end Fields

/-! ### Following sibling links -/

/-- Following sibling links from one link leads through a list of slots to another link. -/
def Leads (store : Store) : Option Slot → List Slot → Option Slot → Prop
  | first, [], last => first = last
  | first, slot :: rest, last => first = some slot ∧ store.Leads (store.node slot).next rest last

variable {store other : Store}

theorem leads_append {first last : Option Slot} (front back : List Slot) :
    store.Leads first (front ++ back) last ↔
      ∃ between, store.Leads first front between ∧ store.Leads between back last := by
  induction front generalizing first with
  | nil => simp [Leads]
  | cons slot rest step =>
    simp only [List.cons_append, Leads, step]
    constructor
    · rintro ⟨starts, between, reaches, goes⟩
      exact ⟨between, ⟨starts, reaches⟩, goes⟩
    · rintro ⟨between, ⟨starts, reaches⟩, goes⟩
      exact ⟨starts, between, reaches, goes⟩

/-- Links lead through the same slots where the sibling links of these slots are the same. -/
theorem Leads.congr {first last : Option Slot} {slots : List Slot}
    (leads : store.Leads first slots last)
    (same : ∀ slot ∈ slots, (other.node slot).next = (store.node slot).next) :
    other.Leads first slots last := by
  induction slots generalizing first with
  | nil => exact leads
  | cons slot rest step =>
    obtain ⟨starts, goes⟩ := leads
    refine ⟨starts, ?_⟩
    rw [same slot List.mem_cons_self]
    exact step goes fun behind member => same behind (List.mem_cons_of_mem slot member)

/-- Links that end lead through one list only. -/
theorem Leads.unique {first : Option Slot} {slots others : List Slot}
    (leads : store.Leads first slots none) (leadsToo : store.Leads first others none) :
    slots = others := by
  induction slots generalizing first others with
  | nil =>
    cases others with
    | nil => rfl
    | cons slot rest =>
      have absent : first = none := leads
      rw [absent] at leadsToo
      exact absurd leadsToo.1 (by simp)
  | cons slot rest step =>
    obtain ⟨starts, goes⟩ := leads
    cases others with
    | nil =>
      have absent : first = none := leadsToo
      rw [absent] at starts
      exact absurd starts (by simp)
    | cons found behind =>
      obtain ⟨startsToo, goesToo⟩ := leadsToo
      have same : slot = found := Option.some.inj (starts.symm.trans startsToo)
      subst same
      rw [step goes goesToo]

/-- **Links that end pass no slot twice**: behind a slot there is always the same way to go. -/
theorem Leads.nodup {first : Option Slot} {slots : List Slot}
    (leads : store.Leads first slots none) : slots.Nodup := by
  induction slots generalizing first with
  | nil => exact List.nodup_nil
  | cons slot rest step =>
    have goes := leads.2
    refine List.nodup_cons.mpr ⟨fun again => ?_, step goes⟩
    obtain ⟨front, back, rfl⟩ := List.append_of_mem again
    obtain ⟨_, _, meets⟩ := (leads_append front (slot :: back)).mp goes
    have longer := congrArg List.length (goes.unique meets.2)
    simp only [List.length_append, List.length_cons] at longer
    omega

/-! ### Reading children -/

theorem siblings_eq_of_leads {first : Option Slot} {slots : List Slot}
    (leads : store.Leads first slots none) (bound : Nat) (enough : slots.length ≤ bound) :
    store.siblings bound first = slots := by
  induction slots generalizing first bound with
  | nil =>
    have absent : first = none := leads
    subst absent
    cases bound <;> rfl
  | cons slot rest step =>
    obtain ⟨starts, goes⟩ := leads
    subst starts
    cases bound with
    | zero => simp at enough
    | succ bound =>
      simp only [List.length_cons, Nat.add_le_add_iff_right] at enough
      rw [siblings, step goes bound enough]

/-- No more slots than were made fit into a list without repetitions. -/
theorem length_le_of_made {slots : List Slot} (distinct : slots.Nodup)
    (made : ∀ slot ∈ slots, slot < store.slots) : slots.length ≤ store.slots := by
  have inside : slots ⊆ List.range store.slots := fun slot member =>
    List.mem_range.mpr (made slot member)
  have bound := (distinct.subperm inside).length_le
  rwa [List.length_range] at bound

theorem chain_eq_of_leads {first : Option Slot} {slots : List Slot}
    (leads : store.Leads first slots none) (made : ∀ slot ∈ slots, slot < store.slots) :
    store.chain first = slots :=
  siblings_eq_of_leads leads _ (length_le_of_made leads.nodup made)

/-- **The children of a node are the slots that its child link leads through.** -/
theorem children_eq_of_leads {parent : Slot} {slots : List Slot}
    (leads : store.Leads (store.node parent).child slots none)
    (made : ∀ slot ∈ slots, slot < store.slots) : store.children parent = slots :=
  chain_eq_of_leads leads made

theorem Leads.eq_head? {first : Option Slot} {slots : List Slot}
    (leads : store.Leads first slots none) : first = slots.head? := by
  cases slots with
  | nil => exact leads
  | cons slot rest => exact leads.1

/-- The sibling link of a slot leads to the slot behind it. -/
theorem Leads.next_eq_head? {first : Option Slot} {slot : Slot} {front back : List Slot}
    (leads : store.Leads first (front ++ slot :: back) none) :
    (store.node slot).next = back.head? := by
  obtain ⟨_, _, _, goes⟩ := (leads_append front (slot :: back)).mp leads
  exact goes.eq_head?

/-- A node without a child link has no children. -/
theorem children_eq_nil {parent : Slot} (childless : (store.node parent).child = none) :
    store.children parent = [] :=
  children_eq_of_leads childless (by simp)

end SqlDraft.Store
