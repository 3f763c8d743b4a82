/-
**Allocating and linking in a forest.**

An allocation adds a top node, and each way of linking puts a top node into one row of children:

* `Store.Forest.of_same_links`: a forest in which the links of all rows stay.
* `Store.Forest.allocate`: the fresh slot becomes a top node and nothing else changes.
* `Store.Linked`: one top node was put into the children of one node.
* `Store.Linkable.linkFirst`, `Store.Linkable.linkAfter`, `Store.Linkable.linkLast`: the three ways
  to link are the list operations on that row.
-/

import SqlDraft.Proofs.Store.Forest

namespace SqlDraft.Store

open Relation

variable {store other : Store}

/-- The children of all nodes, where the links of each lead through a known row. -/
theorem children_eq_of_ends {rows : Slot → List Slot}
    (ends : ∀ parent, store.Leads (store.node parent).child (rows parent) none)
    (made : ∀ parent, ∀ child ∈ rows parent, child < store.slots) : store.children = rows :=
  funext fun parent => children_eq_of_leads (ends parent) (made parent)

/-! ### Links that stay -/

/-- A row of children that a change of links does not touch. -/
theorem Forest.ends_of_same (forest : store.Forest) {row : Slot}
    (child : (other.node row).child = (store.node row).child)
    (next : ∀ member ∈ store.children row, (other.node member).next = (store.node member).next) :
    other.Leads (other.node row).child (store.children row) none := by
  rw [child]
  exact (forest.ends row).congr next

/-- **A forest in which the links of all rows stay is a forest with the same rows.** -/
theorem Forest.of_same_links (forest : store.Forest) (slots : other.slots = store.slots)
    (released : other.released = store.released)
    (child : ∀ row, (other.node row).child = (store.node row).child)
    (next : ∀ row, ∀ member ∈ store.children row,
      (other.node member).next = (store.node member).next)
    (blank : ∀ idle ∈ store.released, other.node idle = store.node idle) :
    other.Forest ∧ other.children = store.children := by
  have inUse : other.InUse = store.InUse := by
    funext found
    rw [InUse, InUse, slots, released]
  have ends : ∀ row, other.Leads (other.node row).child (store.children row) none := fun row =>
    forest.ends_of_same (child row) (next row)
  have rows : other.children = store.children :=
    children_eq_of_ends ends fun row member inRow => by
      rw [slots]
      exact (forest.inUse_child row member inRow).1
  refine ⟨⟨fun row => rows ▸ ends row, ?_, ?_, fun found foundInUse => ?_,
    released ▸ forest.released_nodup, fun found member => ?_, fun found member => ?_⟩, rows⟩
  · rw [rows, inUse]
    exact forest.inUse_child
  · rw [rows]
    exact forest.sole_parent
  · rw [inUse] at foundInUse
    obtain ⟨top, isTop, reaches⟩ := forest.grounded found foundInUse
    refine ⟨top, ⟨inUse ▸ isTop.1, rows ▸ isTop.2⟩, reaches.mono fun row member inRow => ?_⟩
    rwa [rows]
  · rw [released] at member
    rw [slots]
    exact forest.released_made found member
  · rw [released] at member
    rw [blank found member]
    exact forest.released_blank found member

/-! ### Allocation -/

theorem made_of_allocate (store : Store) (payload : Payload) (slot : Slot)
    (made : slot < store.slots) : slot < (store.allocate payload).slots := by
  rw [slots_allocate]
  split
  · exact Nat.lt_succ_of_lt made
  · exact made

@[simp]
theorem chunkSize_allocate (store : Store) (payload : Payload) :
    (store.allocate payload).chunkSize = store.chunkSize := by
  unfold allocate
  split <;> rfl

theorem released_allocate (store : Store) (payload : Payload) :
    (store.allocate payload).released = store.released.tail := by
  unfold allocate
  split
  · next stack => rw [stack, List.tail_cons]
  · next stack => rw [stack, List.tail_nil]

/-- An allocation puts the fresh slot into use, and no other one. -/
theorem inUse_allocate_of_made (distinct : store.released.Nodup)
    (made : ∀ slot ∈ store.released, slot < store.slots) (payload : Payload) (slot : Slot) :
    (store.allocate payload).InUse slot ↔ store.InUse slot ∨ slot = store.fresh := by
  unfold InUse fresh
  rw [slots_allocate]
  unfold Store.allocate
  cases stack : store.released with
  | nil =>
    simp only [if_true, List.not_mem_nil, not_false_eq_true, and_true, List.head?_nil,
      Option.getD_none]
    exact Nat.lt_succ_iff_lt_or_eq
  | cons reused rest =>
    rw [stack] at distinct made
    have once := (List.nodup_cons.mp distinct).1
    have inside := made reused List.mem_cons_self
    simp only [List.cons_ne_nil, if_false, List.mem_cons, not_or, List.head?_cons,
      Option.getD_some]
    constructor
    · rintro ⟨small, kept⟩
      by_cases same : slot = reused
      · exact Or.inr same
      · exact Or.inl ⟨small, same, kept⟩
    · rintro (⟨small, _, kept⟩ | same)
      · exact ⟨small, kept⟩
      · subst same
        exact ⟨inside, once⟩

theorem fresh_not_inUse (store : Store) : ¬ store.InUse store.fresh := by
  rintro ⟨made, kept⟩
  unfold fresh at made kept
  cases stack : store.released with
  | nil =>
    rw [stack] at made
    exact Nat.lt_irrefl _ made
  | cons slot rest =>
    rw [stack] at kept
    exact kept List.mem_cons_self

theorem InUse.ne_fresh {slot : Slot} (inUse : store.InUse slot) : slot ≠ store.fresh := by
  rintro rfl
  exact store.fresh_not_inUse inUse

namespace Forest

theorem node_allocate (forest : store.Forest) (payload : Payload) :
    (store.allocate payload).node = Function.update store.node store.fresh { payload } := by
  funext slot
  by_cases same : slot = store.fresh
  · subst same
    rw [node_allocate_fresh store payload forest.released_made, Function.update_self]
  · rw [node_allocate_other store payload slot same, Function.update_of_ne same]

theorem payload_allocate (forest : store.Forest) (payload : Payload) :
    (store.allocate payload).payload = Function.update store.payload store.fresh payload := by
  funext slot
  simp only [Store.payload, forest.node_allocate]
  by_cases same : slot = store.fresh
  · subst same
    simp
  · simp [same, Store.payload]

theorem inUse_allocate (forest : store.Forest) (payload : Payload) (slot : Slot) :
    (store.allocate payload).InUse slot ↔ store.InUse slot ∨ slot = store.fresh :=
  inUse_allocate_of_made forest.released_nodup forest.released_made payload slot

theorem ends_allocate (forest : store.Forest) (payload : Payload) (parent : Slot) :
    (store.allocate payload).Leads ((store.allocate payload).node parent).child
      (store.children parent) none := by
  rw [forest.node_allocate]
  by_cases same : parent = store.fresh
  · subst same
    rw [Function.update_self, forest.children_of_not_inUse store.fresh_not_inUse]
    rfl
  · rw [Function.update_of_ne same]
    refine (forest.ends parent).congr fun child member => ?_
    rw [forest.node_allocate,
      Function.update_of_ne (forest.inUse_child parent child member).ne_fresh]

/-- **An allocation links the fresh slot nowhere.** -/
theorem children_allocate (forest : store.Forest) (payload : Payload) :
    (store.allocate payload).children = store.children :=
  children_eq_of_ends (forest.ends_allocate payload) fun parent child member =>
    made_of_allocate store payload child (forest.inUse_child parent child member).1

theorem allocate (forest : store.Forest) (payload : Payload) :
    (store.allocate payload).Forest where
  ends parent := by
    rw [forest.children_allocate]
    exact forest.ends_allocate payload parent
  inUse_child parent child member := by
    rw [forest.children_allocate] at member
    exact (forest.inUse_allocate payload child).mpr (Or.inl (forest.inUse_child _ _ member))
  sole_parent parent second child member memberToo := by
    rw [forest.children_allocate] at member memberToo
    exact forest.sole_parent _ _ _ member memberToo
  grounded slot inUse := by
    have kept : ∀ parent child, child ∈ store.children parent →
        child ∈ (store.allocate payload).children parent := by
      intro parent child member
      rwa [forest.children_allocate]
    cases (forest.inUse_allocate payload slot).mp inUse with
    | inl before =>
      obtain ⟨top, isTop, reaches⟩ := forest.grounded slot before
      refine ⟨top, ⟨(forest.inUse_allocate payload top).mpr (Or.inl isTop.1), ?_⟩,
        reaches.mono kept⟩
      rw [forest.children_allocate]
      exact isTop.2
    | inr same =>
      subst same
      refine ⟨store.fresh, ⟨inUse, fun parent member => ?_⟩, ReflTransGen.refl⟩
      rw [forest.children_allocate] at member
      exact store.fresh_not_inUse (forest.inUse_child _ _ member)
  released_nodup := by
    have distinct := forest.released_nodup
    unfold Store.allocate
    split
    · next slot rest stack =>
      rw [stack] at distinct
      exact (List.nodup_cons.mp distinct).2
    · next stack => exact distinct
  released_made slot member := by
    refine made_of_allocate store payload slot (forest.released_made slot ?_)
    unfold Store.allocate at member
    split at member
    · next reused rest stack =>
      rw [stack]
      exact List.mem_cons_of_mem reused member
    · next stack => exact member
  released_blank slot member := by
    have idle : ¬ (store.allocate payload).InUse slot := fun inUse => inUse.2 member
    rw [forest.inUse_allocate, not_or] at idle
    rw [forest.node_allocate, Function.update_of_ne idle.2]
    exact forest.node_of_not_inUse idle.1

theorem isTop_fresh (forest : store.Forest) (payload : Payload) :
    (store.allocate payload).IsTop store.fresh := by
  refine ⟨(forest.inUse_allocate payload _).mpr (Or.inr rfl), fun parent member => ?_⟩
  rw [forest.children_allocate] at member
  exact store.fresh_not_inUse (forest.inUse_child _ _ member)

end Forest

/-! ### Linking -/

theorem IsTop.ne_child {top parent child : Slot} (isTop : store.IsTop top)
    (member : child ∈ store.children parent) : top ≠ child := by
  rintro rfl
  exact isTop.2 parent member

/-- A node that is put into one row is there, and the rows have no other new member. -/
theorem mem_row_inserted {rows : Slot → List Slot} {parent : Slot} {before after : List Slot}
    (split : rows parent = before ++ after) (slot row child : Slot) :
    child ∈ Function.update rows parent (before ++ slot :: after) row ↔
      child ∈ rows row ∨ (row = parent ∧ child = slot) := by
  by_cases same : row = parent
  · subst same
    rw [Function.update_self, split]
    simp only [List.mem_append, List.mem_cons, true_and]
    tauto
  · rw [Function.update_of_ne same]
    simp [same]

/-- One top node was put into the children of one node, and nothing else changed. -/
structure Linked (store other : Store) (parent slot : Slot) (before after : List Slot) : Prop where
  split : store.children parent = before ++ after
  forest : other.Forest
  children : other.children =
    Function.update store.children parent (before ++ slot :: after)
  payload : other.payload = store.payload
  slots : other.slots = store.slots
  released : other.released = store.released
  next : ∀ top, store.IsTop top → top ≠ slot → (other.node top).next = (store.node top).next

namespace Linked

variable {parent slot : Slot} {before after : List Slot}

theorem inUse (linked : store.Linked other parent slot before after) :
    other.InUse = store.InUse := by
  funext found
  rw [InUse, InUse, linked.slots, linked.released]

theorem mem_children (linked : store.Linked other parent slot before after) (row child : Slot) :
    child ∈ other.children row ↔ child ∈ store.children row ∨ (row = parent ∧ child = slot) := by
  rw [linked.children]
  exact mem_row_inserted linked.split slot row child

/-- Only the linked slot is a top node no more. -/
theorem isTop_iff (linked : store.Linked other parent slot before after) (top : Slot) :
    other.IsTop top ↔ store.IsTop top ∧ top ≠ slot := by
  rw [IsTop, IsTop, linked.inUse]
  constructor
  · rintro ⟨inUse, orphan⟩
    refine ⟨⟨inUse, fun row member => ?_⟩, ?_⟩
    · exact orphan row ((linked.mem_children row top).mpr (Or.inl member))
    · rintro rfl
      exact orphan parent ((linked.mem_children parent top).mpr (Or.inr ⟨rfl, rfl⟩))
  · rintro ⟨⟨inUse, orphan⟩, different⟩
    refine ⟨inUse, fun row member => ?_⟩
    cases (linked.mem_children row top).mp member with
    | inl old => exact orphan row old
    | inr added => exact different added.2

end Linked

/-- A node that may be linked below another one. -/
structure Linkable (store : Store) (parent slot : Slot) : Prop where
  isTop : store.IsTop slot
  inUse : store.InUse parent
  apart : ¬ store.Reaches slot parent

namespace Linkable

variable {parent slot : Slot}

theorem ne (linkable : store.Linkable parent slot) : slot ≠ parent := by
  rintro rfl
  exact linkable.apart ReflTransGen.refl

/-- **A forest with a top node linked below another node is a forest.** -/
theorem linked (linkable : store.Linkable parent slot) (forest : store.Forest)
    {before after : List Slot} (split : store.children parent = before ++ after)
    (payload : other.payload = store.payload) (slots : other.slots = store.slots)
    (released : other.released = store.released)
    (next : ∀ top, store.IsTop top → top ≠ slot →
      (other.node top).next = (store.node top).next)
    (blank : ∀ idle, ¬ store.InUse idle → other.node idle = store.node idle)
    (ends : ∀ row, other.Leads (other.node row).child
      (Function.update store.children parent (before ++ slot :: after) row) none) :
    store.Linked other parent slot before after := by
  have inUse : other.InUse = store.InUse := by
    funext found
    rw [InUse, InUse, slots, released]
  have member_iff := mem_row_inserted split slot
  have children : other.children =
      Function.update store.children parent (before ++ slot :: after) := by
    refine children_eq_of_ends ends fun row child member => ?_
    rw [slots]
    cases (member_iff row child).mp member with
    | inl old => exact (forest.inUse_child row child old).1
    | inr added =>
      obtain ⟨_, rfl⟩ := added
      exact linkable.isTop.1.1
  have kept : ∀ row child, child ∈ store.children row → child ∈ other.children row := by
    intro row child member
    rw [children]
    exact (member_iff row child).mpr (Or.inl member)
  refine ⟨split, ?_, children, payload, slots, released, next⟩
  refine ⟨fun row => children ▸ ends row, fun row child member => ?_,
    fun row second child member memberToo => ?_, fun found foundInUse => ?_,
    released ▸ forest.released_nodup, fun found member => ?_, fun found member => ?_⟩
  · rw [inUse]
    rw [children] at member
    cases (member_iff row child).mp member with
    | inl old => exact forest.inUse_child row child old
    | inr added =>
      obtain ⟨_, rfl⟩ := added
      exact linkable.isTop.1
  · rw [children] at member memberToo
    cases (member_iff row child).mp member with
    | inl old =>
      cases (member_iff second child).mp memberToo with
      | inl oldToo => exact forest.sole_parent row second child old oldToo
      | inr added =>
        obtain ⟨_, rfl⟩ := added
        exact absurd old (linkable.isTop.2 row)
    | inr added =>
      obtain ⟨rfl, rfl⟩ := added
      cases (member_iff second child).mp memberToo with
      | inl oldToo => exact absurd oldToo (linkable.isTop.2 second)
      | inr addedToo => exact addedToo.1.symm
  · -- What hung below the linked node is now reached through its new parent.
    rw [inUse] at foundInUse
    have stillTop : ∀ top, store.IsTop top → top ≠ slot → other.IsTop top := by
      intro top isTop different
      refine ⟨inUse ▸ isTop.1, fun row member => ?_⟩
      rw [children] at member
      cases (member_iff row top).mp member with
      | inl old => exact isTop.2 row old
      | inr added => exact different added.2
    obtain ⟨top, isTop, reaches⟩ := forest.grounded found foundInUse
    by_cases same : top = slot
    · subst same
      obtain ⟨above, aboveTop, reachesParent⟩ := forest.grounded parent linkable.inUse
      have different : above ≠ top := by
        rintro rfl
        exact linkable.apart reachesParent
      have added : top ∈ other.children parent := by
        rw [children]
        exact (member_iff parent top).mpr (Or.inr ⟨rfl, rfl⟩)
      exact ⟨above, stillTop above aboveTop different,
        ((reachesParent.mono kept).trans (reaches_child added)).trans (reaches.mono kept)⟩
    · exact ⟨top, stillTop top isTop same, reaches.mono kept⟩
  · rw [released] at member
    rw [slots]
    exact forest.released_made found member
  · rw [released] at member
    rw [blank found fun inUse => inUse.2 member]
    exact forest.released_blank found member

end Linkable

/-! ### Putting a slot into a row -/

section Rows

variable {parent slot previous found : Slot} {first : Option Slot} {row front back : List Slot}

theorem next_linkFirst_of_ne (different : found ≠ slot) :
    ((store.linkFirst parent slot).node found).next = (store.node found).next :=
  (next_setChild _ found).trans (next_setNext_of_ne different _)

theorem child_linkFirst_of_ne (different : found ≠ parent) :
    ((store.linkFirst parent slot).node found).child = (store.node found).child :=
  (child_setChild_of_ne different _).trans (child_setNext _ found)

theorem next_linkAfter_of_ne (different : found ≠ slot) (differentToo : found ≠ previous) :
    ((store.linkAfter previous slot).node found).next = (store.node found).next :=
  (next_setNext_of_ne differentToo _).trans (next_setNext_of_ne different _)

/-- A slot that is put behind another one changes no child link. -/
theorem child_linkAfter (previous slot found : Slot) :
    ((store.linkAfter previous slot).node found).child = (store.node found).child :=
  (child_setNext _ found).trans (child_setNext _ found)

/-- **A slot is put before a row.** -/
theorem Leads.linkFirst (leads : store.Leads (store.node parent).child row none)
    (absent : slot ∉ row) (made : slot < store.slots) (madeParent : parent < store.slots) :
    (store.linkFirst parent slot).Leads ((store.linkFirst parent slot).node parent).child
      (slot :: row) none := by
  have link : ((store.linkFirst parent slot).node slot).next = (store.node parent).child :=
    (next_setChild _ slot).trans (next_setNext made _)
  refine ⟨child_setChild (by rwa [slots_setNext]) _, ?_⟩
  rw [link]
  refine leads.congr fun child member => next_linkFirst_of_ne ?_
  exact fun same => absent (same ▸ member)

/-- **A slot is put behind a member of a row.** -/
theorem Leads.linkAfter (leads : store.Leads first (front ++ previous :: back) none)
    (absent : slot ∉ front ++ previous :: back) (made : slot < store.slots)
    (madePrevious : previous < store.slots) :
    (store.linkAfter previous slot).Leads first (front ++ previous :: slot :: back) none := by
  have once := (List.nodup_cons.mp (List.nodup_middle.mp leads.nodup)).1
  have same (found : Slot) (member : found ∈ front ++ back) :
      ((store.linkAfter previous slot).node found).next = (store.node found).next := by
    have behind : found ≠ previous := fun same => once (same ▸ member)
    have elsewhere : found ≠ slot := by
      rintro rfl
      exact absent (List.perm_middle.symm.subset (List.mem_cons_of_mem _ member))
    exact next_linkAfter_of_ne elsewhere behind
  have apart : slot ≠ previous := by
    rintro rfl
    exact absent (List.mem_append_right front List.mem_cons_self)
  have link : ((store.linkAfter previous slot).node previous).next = some slot :=
    next_setNext (by rwa [slots_setNext]) _
  have linkToo : ((store.linkAfter previous slot).node slot).next = (store.node previous).next :=
    (next_setNext_of_ne apart _).trans (next_setNext made _)
  obtain ⟨between, toFront, toPrevious, toBack⟩ := (leads_append front (previous :: back)).mp leads
  refine (leads_append front (previous :: slot :: back)).mpr ⟨between,
    toFront.congr fun found member => same found (List.mem_append_left back member), toPrevious,
    link, ?_⟩
  rw [linkToo]
  exact toBack.congr fun found member => same found (List.mem_append_right front member)

end Rows

/-! ### The three ways to link -/

namespace Linkable

variable {parent slot : Slot}

/-- **Linking at the front puts the node before the row.** -/
theorem linkFirst (linkable : store.Linkable parent slot) (forest : store.Forest) :
    store.Linked (store.linkFirst parent slot) parent slot [] (store.children parent) := by
  refine linkable.linked forest rfl (by simp [Store.linkFirst]) (by simp [Store.linkFirst]) rfl
    (fun top _ different => next_linkFirst_of_ne different) (fun idle notInUse => ?_) fun row => ?_
  · have different : idle ≠ parent := fun same => notInUse (same ▸ linkable.inUse)
    have differentToo : idle ≠ slot := fun same => notInUse (same ▸ linkable.isTop.1)
    exact (node_update_other _ _ _ _ different).trans (node_update_other _ _ _ _ differentToo)
  · by_cases same : row = parent
    · subst same
      rw [Function.update_self]
      exact (forest.ends row).linkFirst (linkable.isTop.2 row) linkable.isTop.1.1 linkable.inUse.1
    · rw [Function.update_of_ne same]
      exact forest.ends_of_same (child_linkFirst_of_ne same) fun member inRow =>
        next_linkFirst_of_ne (linkable.isTop.ne_child inRow).symm

/-- **Linking behind a node puts the new one next to it in its row.** -/
theorem linkAfter (linkable : store.Linkable parent slot) (forest : store.Forest)
    {previous : Slot} {front after : List Slot}
    (split : store.children parent = front ++ previous :: after) :
    store.Linked (store.linkAfter previous slot) parent slot (front ++ [previous]) after := by
  have isChild : previous ∈ store.children parent := by simp [split]
  have inUse := forest.inUse_child _ _ isChild
  refine linkable.linked forest (by rw [split, List.append_assoc, List.singleton_append])
    (by simp [Store.linkAfter]) (by simp [Store.linkAfter]) rfl
    (fun top isTop different => next_linkAfter_of_ne different (isTop.ne_child isChild))
    (fun idle notInUse => ?_) fun row => ?_
  · have different : idle ≠ previous := fun same => notInUse (same ▸ inUse)
    have differentToo : idle ≠ slot := fun same => notInUse (same ▸ linkable.isTop.1)
    exact (node_update_other _ _ _ _ different).trans (node_update_other _ _ _ _ differentToo)
  · rw [child_linkAfter]
    by_cases same : row = parent
    · subst same
      have ends := forest.ends row
      have absent := linkable.isTop.2 row
      rw [split] at ends absent
      rw [Function.update_self, List.append_assoc, List.singleton_append]
      exact ends.linkAfter absent linkable.isTop.1.1 inUse.1
    · rw [Function.update_of_ne same]
      refine (forest.ends row).congr fun member inRow =>
        next_linkAfter_of_ne (linkable.isTop.ne_child inRow).symm ?_
      rintro rfl
      exact same (forest.sole_parent _ _ _ inRow isChild)

/-- **Linking at the end appends to the row.** A node without a sibling link is linked behind the last
child as behind any other, and as the first child where there is none. -/
theorem linkLast (linkable : store.Linkable parent slot) (forest : store.Forest)
    (loose : (store.node slot).next = none) :
    store.Linked (store.linkLast parent slot) parent slot (store.children parent) [] := by
  cases final : store.lastChild? parent with
  | none =>
    have childless : store.children parent = [] := List.getLast?_eq_none_iff.mp final
    have same : store.linkLast parent slot = store.linkFirst parent slot := by
      rw [Store.linkLast, final, Store.linkFirst, forest.firstChild?_eq_head?, childless,
        List.head?_nil, setNext_eq_self loose]
    have linked := linkable.linkFirst forest
    rw [childless] at linked ⊢
    exact same ▸ linked
  | some last =>
    obtain ⟨front, split⟩ := List.getLast?_eq_some_iff.mp final
    have same : store.linkLast parent slot = store.linkAfter last slot := by
      rw [Store.linkLast, final, Store.linkAfter, forest.next_eq_head? split, List.head?_nil,
        setNext_eq_self loose]
    rw [same, split]
    exact linkable.linkAfter forest split

end Linkable

end SqlDraft.Store
