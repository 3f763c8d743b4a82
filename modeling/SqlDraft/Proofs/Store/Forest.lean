/-
**Stores that hold forests.**

In a forest every node in use hangs below a top node, no node hangs below two others, and the
released slots are empty and on the stack once:

* `Store.Forest`: the links of a store form a forest.
* `Store.Forest.not_below_self`: no node is below itself.
* `Store.Forest.comparable`: of two nodes above a third one, one is above the other.

Acyclicity is not assumed: a node in use is reached from a top node, and a way into a cycle would
give one of its members two parents.
-/

import Mathlib.Logic.Relation
import SqlDraft.Proofs.Store.Siblings

namespace SqlDraft.Store

open Relation

/-- A node is another one or hangs below it at any depth. -/
def Reaches (store : Store) : Slot → Slot → Prop :=
  ReflTransGen fun parent child => child ∈ store.children parent

/-- A node hangs below another one at any depth. -/
def Below (store : Store) : Slot → Slot → Prop :=
  TransGen fun parent child => child ∈ store.children parent

/-- A node in use that hangs below no other one. -/
def IsTop (store : Store) (slot : Slot) : Prop :=
  store.InUse slot ∧ ∀ parent, slot ∉ store.children parent

/-- The links of a store form a forest. -/
structure Forest (store : Store) : Prop where
  /-- Every row of siblings ends. -/
  ends : ∀ parent, store.Leads (store.node parent).child (store.children parent) none
  inUse_child : ∀ parent child, child ∈ store.children parent → store.InUse child
  /-- No node is shared. -/
  sole_parent : ∀ parent other child, child ∈ store.children parent →
    child ∈ store.children other → parent = other
  /-- No node in use is lost. -/
  grounded : ∀ slot, store.InUse slot → ∃ top, store.IsTop top ∧ store.Reaches top slot
  released_nodup : store.released.Nodup
  released_made : ∀ slot ∈ store.released, slot < store.slots
  released_blank : ∀ slot ∈ store.released, store.node slot = {}

variable {store : Store}

/-- A child is reached from its parent. -/
theorem reaches_child {parent child : Slot} (member : child ∈ store.children parent) :
    store.Reaches parent child :=
  ReflTransGen.single member

theorem Reaches.trans {first second third : Slot} (reaches : store.Reaches first second)
    (further : store.Reaches second third) : store.Reaches first third :=
  ReflTransGen.trans reaches further

theorem Below.reaches {first second : Slot} (below : store.Below first second) :
    store.Reaches first second :=
  TransGen.to_reflTransGen below

/-- Every way stays one when no child is taken away. -/
theorem Reaches.mono {other : Store} {first second : Slot} (reaches : store.Reaches first second)
    (kept : ∀ parent child, child ∈ store.children parent → child ∈ other.children parent) :
    other.Reaches first second :=
  ReflTransGen.mono kept _ _ reaches

namespace Forest

theorem children_nodup (forest : store.Forest) (parent : Slot) :
    (store.children parent).Nodup :=
  (forest.ends parent).nodup

theorem firstChild?_eq_head? (forest : store.Forest) (parent : Slot) :
    store.firstChild? parent = (store.children parent).head? :=
  (forest.ends parent).eq_head?

theorem mem_of_firstChild? (forest : store.Forest) {parent slot : Slot}
    (first : store.firstChild? parent = some slot) : slot ∈ store.children parent := by
  rw [forest.firstChild?_eq_head?] at first
  exact List.mem_of_head? first

theorem next_eq_head? (forest : store.Forest) {parent slot : Slot} {front back : List Slot}
    (split : store.children parent = front ++ slot :: back) :
    (store.node slot).next = back.head? := by
  have ends := forest.ends parent
  rw [split] at ends
  exact ends.next_eq_head?

theorem node_of_not_inUse (forest : store.Forest) {slot : Slot} (idle : ¬ store.InUse slot) :
    store.node slot = {} := by
  by_cases made : slot < store.slots
  · have given : slot ∈ store.released := by
      by_contra kept
      exact idle ⟨made, kept⟩
    exact forest.released_blank slot given
  · exact node_of_not_made store slot (Nat.not_lt.mp made)

theorem children_of_not_inUse (forest : store.Forest) {slot : Slot} (idle : ¬ store.InUse slot) :
    store.children slot = [] :=
  children_eq_nil (by rw [forest.node_of_not_inUse idle])

theorem inUse_parent (forest : store.Forest) {parent child : Slot}
    (member : child ∈ store.children parent) : store.InUse parent := by
  by_contra idle
  rw [forest.children_of_not_inUse idle] at member
  exact absurd member List.not_mem_nil

theorem inUse_of_reaches (forest : store.Forest) {above below : Slot}
    (reaches : store.Reaches above below) (inUse : store.InUse above) : store.InUse below := by
  induction reaches with
  | refl => exact inUse
  | tail _ member _ => exact forest.inUse_child _ _ member

theorem inUse_of_below (forest : store.Forest) {above below : Slot}
    (hangs : store.Below above below) : store.InUse below := by
  obtain ⟨parent, _, member⟩ := TransGen.tail'_iff.mp hangs
  exact forest.inUse_child _ _ member

/-- Only a top node itself is above it. -/
theorem eq_of_reaches_top {above top : Slot} (isTop : store.IsTop top)
    (reaches : store.Reaches above top) : above = top := by
  cases ReflTransGen.cases_tail reaches with
  | inl same => exact same.symm
  | inr found =>
    obtain ⟨parent, _, member⟩ := found
    exact absurd member (isTop.2 parent)

/-- A node below another one is below one of its children, or is that child. -/
theorem exists_child_of_below {above below : Slot} (hangs : store.Below above below) :
    ∃ child ∈ store.children above, store.Reaches child below := by
  obtain ⟨child, member, reaches⟩ := TransGen.head'_iff.mp hangs
  exact ⟨child, member, reaches⟩

theorem parent_of_below (forest : store.Forest) {above child parent : Slot}
    (hangs : store.Below above child) (member : child ∈ store.children parent) :
    store.Reaches above parent := by
  obtain ⟨between, reaches, memberToo⟩ := TransGen.tail'_iff.mp hangs
  rw [forest.sole_parent parent between child member memberToo]
  exact reaches

/-- **No node is below itself.** -/
theorem not_below_self (forest : store.Forest) (slot : Slot) : ¬ store.Below slot slot := by
  intro cycle
  obtain ⟨top, isTop, reaches⟩ := forest.grounded slot (forest.inUse_of_below cycle)
  -- The way from the top node to the cycle is walked backwards: it never leaves the cycle.
  have onCycle : ∀ other, store.Reaches other slot → store.Below other other := by
    intro other leadsIn
    induction leadsIn using ReflTransGen.head_induction_on with
    | refl => exact cycle
    | head member _ round =>
      have back := forest.parent_of_below round member
      exact TransGen.head' member back
  obtain ⟨parent, _, member⟩ := TransGen.tail'_iff.mp (onCycle top reaches)
  exact isTop.2 parent member

theorem ne_of_mem_children (forest : store.Forest) {parent child : Slot}
    (member : child ∈ store.children parent) : child ≠ parent := by
  intro same
  subst same
  exact forest.not_below_self child (TransGen.single member)

theorem not_reaches_of_below (forest : store.Forest) {above below : Slot}
    (hangs : store.Below above below) : ¬ store.Reaches below above := fun back =>
  forest.not_below_self above (TransGen.trans_left hangs back)

/-- **Of two nodes above a third one, one is above the other.** -/
theorem comparable (forest : store.Forest) {first second below : Slot}
    (reachesFirst : store.Reaches first below) (reachesSecond : store.Reaches second below) :
    store.Reaches first second ∨ store.Reaches second first := by
  induction reachesFirst with
  | refl => exact Or.inr reachesSecond
  | tail reaches member step =>
    cases ReflTransGen.cases_tail reachesSecond with
    | inl same =>
      subst same
      exact Or.inl (ReflTransGen.tail reaches member)
    | inr found =>
      obtain ⟨parent, reachesParent, memberToo⟩ := found
      rw [forest.sole_parent _ _ _ memberToo member] at reachesParent
      exact step reachesParent

end Forest

/-! ### The empty store -/

theorem forest_empty (chunkSize : Nat) : (empty chunkSize).Forest where
  ends parent := by
    rw [children_eq_nil (by rw [node_of_not_made _ _ (Nat.zero_le parent)]),
      node_of_not_made _ _ (Nat.zero_le parent)]
    rfl
  inUse_child parent child member := by
    rw [children_eq_nil (by rw [node_of_not_made _ _ (Nat.zero_le parent)])] at member
    exact absurd member List.not_mem_nil
  sole_parent parent other child member := by
    rw [children_eq_nil (by rw [node_of_not_made _ _ (Nat.zero_le parent)])] at member
    exact absurd member List.not_mem_nil
  grounded slot inUse := absurd inUse.1 (Nat.not_lt_zero slot)
  released_nodup := List.nodup_nil
  released_made slot member := absurd member List.not_mem_nil
  released_blank slot member := absurd member List.not_mem_nil

end SqlDraft.Store
