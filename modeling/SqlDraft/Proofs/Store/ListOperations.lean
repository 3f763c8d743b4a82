/-
**The operations on links are operations on lists.**

Each operation of a store that represents an ordered forest changes one row of the layout as a list
operation does, and the store represents the changed layout:

* `Store.Represents.allocate`: a detached slot is added.
* `Store.Represents.linkLast`, `Store.Represents.linkFirst`, `Store.Represents.linkAfter`: a detached
  slot is put at the end of a row, at its front or behind one of its members.
* `Store.Represents.detach`: a member of a row is deleted and detached. A slot that is no member is
  not found, by `Store.Represents.isChild_eq`, and then nothing changes.
* `Store.Represents.discard`, `Store.Represents.eraseChildren`: a loose slot, or all that hangs below
  a slot, is released with what hangs below.
-/

import SqlDraft.Proofs.Store.Layout

namespace SqlDraft.Store

open Relation

/-! ### Operations on layouts -/

/-- A row with a slot put right behind one of its members. -/
def insertBehind (previous slot : Slot) (row : List Slot) : List Slot :=
  row.flatMap fun child => if child = previous then [child, slot] else [child]

namespace Layout

variable (layout : Layout)

/-- A slot that was not in use is handed out. -/
def allocated (new : Slot) (payload : Payload) : Layout where
  made := max layout.made (new + 1)
  live slot := layout.live slot ∨ slot = new
  rows := Function.update layout.rows new []
  payload := Function.update layout.payload new payload
  stray := Function.update layout.stray new none

/-- A slot is put at the end of a row. -/
def appended (parent slot : Slot) : Layout :=
  { layout with rows := Function.update layout.rows parent (layout.rows parent ++ [slot]) }

/-- A slot is put at the front of a row. -/
def prepended (parent slot : Slot) : Layout :=
  { layout with rows := Function.update layout.rows parent (slot :: layout.rows parent) }

/-- A slot is put right behind another one, in whatever row this one stands. -/
def insertedAfter (previous slot : Slot) : Layout :=
  { layout with rows := fun parent => insertBehind previous slot (layout.rows parent) }

/-- A slot is deleted from a row and detached. -/
def removed (parent slot : Slot) : Layout :=
  { layout with
    rows := Function.update layout.rows parent ((layout.rows parent).erase slot)
    stray := Function.update layout.stray slot none }

/-- A slot is given back with all that hangs below it. -/
def discarded (slot : Slot) : Layout :=
  { layout with live := fun found => layout.live found ∧ ¬ layout.Reaches slot found }

/-- A row is emptied and given back with all that hangs below. -/
def emptied (parent : Slot) : Layout :=
  { layout with
    live := fun found => layout.live found ∧ ¬ layout.Below parent found
    rows := Function.update layout.rows parent [] }

variable {layout}

/-- A slot that is handed out stands in no row. -/
theorem IsForest.detached_allocated (forest : layout.IsForest) {new : Slot}
    (idle : ¬ layout.live new) (payload : Payload) :
    (layout.allocated new payload).Detached new := by
  refine ⟨⟨Or.inr rfl, fun parent child => ?_⟩, Function.update_self ..⟩
  obtain ⟨live, member⟩ := child
  simp only [allocated] at live member
  by_cases same : parent = new
  · subst same
    rw [Function.update_self] at member
    exact absurd member List.not_mem_nil
  · rw [Function.update_of_ne same] at member
    exact idle (forest.live_child parent new ⟨live.resolve_right same, member⟩)

/-- A slot whose row is empty is above no other one. -/
theorem not_reaches_of_row_nil {slot other : Slot} (row : layout.rows slot = [])
    (different : other ≠ slot) : ¬ layout.Reaches slot other := by
  intro reaches
  cases ReflTransGen.cases_head reaches with
  | inl same => exact different same.symm
  | inr found =>
    obtain ⟨child, ⟨_, member⟩, _⟩ := found
    rw [row] at member
    exact absurd member List.not_mem_nil

end Layout

/-- Nothing is put into a row in which the member it would go behind is missing. -/
theorem insertBehind_of_notMem {previous slot : Slot} {row : List Slot} (absent : previous ∉ row) :
    insertBehind previous slot row = row := by
  induction row with
  | nil => rfl
  | cons child rest step =>
    rw [List.mem_cons, not_or] at absent
    rw [insertBehind, List.flatMap_cons, if_neg (Ne.symm absent.1)]
    exact congrArg (child :: ·) (step absent.2)

/-- In a row without repetitions there is one place behind a member. -/
theorem insertBehind_split {previous slot : Slot} {row front back : List Slot} (distinct : row.Nodup)
    (split : row = front ++ previous :: back) :
    insertBehind previous slot row = front ++ previous :: slot :: back := by
  subst split
  have once := (List.nodup_cons.mp (List.nodup_middle.mp distinct)).1
  rw [List.mem_append, not_or] at once
  have sameFront : insertBehind previous slot front = front := insertBehind_of_notMem once.1
  have sameBack : insertBehind previous slot back = back := insertBehind_of_notMem once.2
  unfold insertBehind at sameFront sameBack ⊢
  rw [List.flatMap_append, List.flatMap_cons, if_pos rfl, sameFront, sameBack]
  rfl

/-- A member is deleted from a row without repetitions at its one place. -/
theorem erase_split {slot : Slot} {row front back : List Slot} (distinct : row.Nodup)
    (split : row = front ++ slot :: back) : row.erase slot = front ++ back := by
  subst split
  have once := (List.nodup_cons.mp (List.nodup_middle.mp distinct)).1
  rw [List.mem_append, not_or] at once
  rw [List.erase_append_right _ once.1, List.erase_cons_head]

/-! ### How many slots are made -/

section Slots

variable (store : Store)

@[simp]
theorem slots_detach (parent slot : Slot) : (store.detach parent slot).slots = store.slots := by
  unfold detach
  split
  · simp
  · split <;> simp

theorem slots_discardChain (bound : Nat) (first : Option Slot) (store : Store) :
    (discardChain bound first store).slots = store.slots := by
  induction bound generalizing first store with
  | zero => rfl
  | succ bound step =>
    cases first with
    | none => rfl
    | some slot => rw [discardChain, step, slots_discard, slots_setNext]

@[simp]
theorem slots_eraseChildren (parent : Slot) : (store.eraseChildren parent).slots = store.slots := by
  rw [eraseChildren, slots_discardChain, slots_setChild]

end Slots

/-! ### Looking for a child -/

section Finding

variable {store : Store} {parent slot : Slot}

/-- A slot that is linked as a child is one, and the other way round. -/
theorem Forest.isChild_iff (forest : store.Forest) :
    store.isChild parent slot = true ↔ slot ∈ store.children parent := by
  constructor
  · intro linked
    rw [isChild, Bool.or_eq_true, decide_eq_true_iff, forest.firstChild?_eq_head?] at linked
    cases linked with
    | inl first => exact List.mem_of_head? first
    | inr follows =>
      obtain ⟨previous, found⟩ := Option.isSome_iff_exists.mp follows
      rw [childBefore?] at found
      have holds := List.find?_some found
      have next := of_decide_eq_true holds
      obtain ⟨front, back, split⟩ := List.append_of_mem (List.mem_of_find?_eq_some found)
      rw [forest.next_eq_head? split] at next
      rw [split]
      exact List.mem_append_right _ (List.mem_cons_of_mem previous (List.mem_of_head? next))
  · intro member
    obtain ⟨before, after, split⟩ := List.append_of_mem member
    exact (forest.detached_detach split).2

/-- A slot that is not found as a child stays as it is, and so does everything else. -/
theorem detach_of_not_isChild (absent : store.isChild parent slot = false) :
    store.detach parent slot = store := by
  rw [isChild, Bool.or_eq_false_iff, decide_eq_false_iff_not, Option.isSome_eq_false_iff,
    Option.isNone_iff_eq_none] at absent
  rw [detach, if_neg absent.1, absent.2]

/-- A slot that was taken out of a row has no sibling link. -/
theorem next_detach (made : slot < store.slots) (found : store.isChild parent slot = true) :
    ((store.detach parent slot).node slot).next = none := by
  unfold detach
  split
  · exact next_setNext (by rwa [slots_setChild]) none
  · next notFirst =>
    rw [isChild, decide_eq_false notFirst, Bool.false_or] at found
    obtain ⟨previous, before⟩ := Option.isSome_iff_exists.mp found
    rw [before]
    exact next_setNext (by rwa [slots_setNext]) none

end Finding

/-! ### The operations -/

namespace Represents

variable {store other : Store} {layout : Layout} (represents : store.Represents layout)

include represents

theorem not_live_fresh : ¬ layout.live store.fresh := by
  rw [← represents.inUse_iff]
  exact store.fresh_not_inUse

theorem released_made : ∀ slot ∈ store.released, slot < store.slots := by
  intro slot member
  rw [represents.slots]
  exact ((represents.mem_released slot).mp member).1

/-- A slot is made when none was released. -/
theorem slots_allocate (payload : Payload) :
    (store.allocate payload).slots = (layout.allocated store.fresh payload).made := by
  rw [Store.slots_allocate, represents.slots]
  simp only [Layout.allocated, fresh]
  cases stack : store.released with
  | nil => simp [represents.slots]
  | cons reused rest =>
    have room := represents.released_made reused (by simp [stack])
    rw [represents.slots] at room
    simp only [List.cons_ne_nil, if_false, List.head?_cons, Option.getD_some]
    exact (max_eq_left room).symm

/-- **An allocation adds a detached slot.** -/
theorem allocate (payload : Payload) :
    (store.allocate payload).Represents (layout.allocated store.fresh payload) := by
  have forest := represents.forest
  have tidy := tidied_allocate represents.released_nodup represents.released_made payload
  have inUse := forest.inUse_allocate payload
  rw [fresh_tidied] at inUse
  have nodes := forest.node_allocate payload
  rw [fresh_tidied] at nodes
  have payloads := forest.payload_allocate payload
  rw [fresh_tidied] at payloads
  have liveIff : ∀ slot, (store.tidied.allocate payload).InUse slot ↔
      (layout.allocated store.fresh payload).live slot := by
    intro slot
    rw [inUse, represents.inUse_tidied_iff]
    exact Iff.rfl
  refine of_tidied ?_
  rw [tidy]
  refine (forest.allocate payload).represents ?_ liveIff (fun slot live => ?_)
    (fun slot live => ?_) fun slot isTop => ?_
  · rw [← tidy, slots_tidied, represents.slots_allocate]
  · rw [forest.children_allocate]
    simp only [Layout.allocated] at live ⊢
    by_cases same : slot = store.fresh
    · subst same
      rw [Function.update_self, forest.children_of_not_inUse]
      rw [represents.inUse_tidied_iff]
      exact represents.not_live_fresh
    · rw [Function.update_of_ne same, represents.children_tidied (live.resolve_right same)]
  · rw [payloads]
    simp only [Layout.allocated] at live ⊢
    by_cases same : slot = store.fresh
    · subst same
      rw [Function.update_self, Function.update_self]
    · rw [Function.update_of_ne same, Function.update_of_ne same,
        represents.payload_tidied (live.resolve_right same)]
  · rw [nodes]
    simp only [Layout.allocated]
    by_cases same : slot = store.fresh
    · subst same
      rw [Function.update_self, Function.update_self]
    · have wasTop : store.tidied.IsTop slot := by
        refine ⟨((inUse slot).mp isTop.1).resolve_right same, ?_⟩
        rw [← forest.children_allocate payload]
        exact isTop.2
      rw [Function.update_of_ne same, Function.update_of_ne same]
      exact represents.stray_tidied ((represents.isTop_tidied slot).mp wasTop)

theorem linkable {parent slot : Slot} (live : layout.live parent) (loose : layout.Loose slot)
    (apart : ¬ layout.Reaches slot parent) : store.tidied.Linkable parent slot where
  isTop := (represents.isTop_tidied slot).mpr loose
  inUse := (represents.inUse_tidied_iff parent).mpr live
  apart := by rwa [represents.reaches_tidied]

/-- A store in which one slot was linked represents a layout in which one row has it more. -/
theorem linked {parent slot : Slot} {before after : List Slot}
    (linked : store.tidied.Linked other parent slot before after) {rows : Slot → List Slot}
    (row : rows parent = before ++ slot :: after)
    (others : ∀ found, found ≠ parent → layout.live found → rows found = layout.rows found) :
    other.Represents { layout with rows } := by
  have inUse : ∀ found, other.InUse found ↔ layout.live found := by
    intro found
    rw [← represents.inUse_tidied_iff, linked.inUse]
  refine linked.forest.represents ?_ inUse (fun found live => ?_) (fun found live => ?_)
    fun found isTop => ?_
  · rw [linked.slots, slots_tidied, represents.slots]
  · rw [linked.children]
    by_cases same : found = parent
    · subst same
      rw [Function.update_self]
      exact row.symm
    · rw [Function.update_of_ne same, represents.children_tidied live]
      exact (others found same live).symm
  · rw [linked.payload, represents.payload_tidied live]
  · obtain ⟨wasTop, different⟩ := (linked.isTop_iff found).mp isTop
    rw [linked.next found wasTop different]
    exact represents.stray_tidied ((represents.isTop_tidied found).mp wasTop)

section Linking

variable {parent slot : Slot} (live : layout.live parent) (detached : layout.Detached slot)
  (apart : ¬ layout.Reaches slot parent)

include live detached apart

/-- **Linking at the end appends to one row.** -/
theorem linkLast : (store.linkLast parent slot).Represents (layout.appended parent slot) := by
  have forest := represents.forest
  have linkable := represents.linkable live detached.1 apart
  have loose : (store.tidied.node slot).next = none := by
    rw [represents.stray_tidied detached.1, detached.2]
  refine of_tidied ?_
  rw [tidied_linkLast forest ((represents.inUse_iff parent).mpr live)]
  refine represents.linked (linkable.linkLast forest loose) ?_ fun found different _ => ?_
  · rw [Function.update_self, represents.children_tidied live]
  · rw [Function.update_of_ne different]

/-- **Linking at the front puts the slot before one row.** -/
theorem linkFirst : (store.linkFirst parent slot).Represents (layout.prepended parent slot) := by
  have forest := represents.forest
  have linkable := represents.linkable live detached.1 apart
  refine of_tidied ?_
  rw [tidied_linkFirst ((represents.inUse_iff parent).mpr live)
    ((represents.inUse_iff slot).mpr detached.1.1)]
  refine represents.linked (linkable.linkFirst forest) ?_ fun found different _ => ?_
  · rw [Function.update_self, represents.children_tidied live, List.nil_append]
  · rw [Function.update_of_ne different]

end Linking

/-- **Linking behind a member of a row puts the slot next to it.** -/
theorem linkAfter {parent previous slot : Slot} (child : layout.Child parent previous)
    (detached : layout.Detached slot) (apart : ¬ layout.Reaches slot previous) :
    (store.linkAfter previous slot).Represents (layout.insertedAfter previous slot) := by
  have forest := represents.forest
  have livePrevious := represents.isForest.live_child parent previous child
  have linkable := represents.linkable child.1 detached.1 fun reaches =>
    apart (ReflTransGen.tail reaches child)
  obtain ⟨front, back, split⟩ := List.append_of_mem child.2
  have splitTidied : store.tidied.children parent = front ++ previous :: back := by
    rw [represents.children_tidied child.1, split]
  refine of_tidied ?_
  rw [tidied_linkAfter ((represents.inUse_iff previous).mpr livePrevious)
    ((represents.inUse_iff slot).mpr detached.1.1)]
  refine represents.linked (linkable.linkAfter forest splitTidied) ?_ fun found different live => ?_
  · rw [insertBehind_split (represents.isForest.distinct parent child.1) split, List.append_assoc,
      List.singleton_append]
  · have absent : previous ∉ layout.rows found := fun member =>
      different (represents.isForest.sole_parent found parent previous ⟨live, member⟩ child)
    rw [insertBehind_of_notMem absent]

/-- **Adding a child appends a new slot to one row.** -/
theorem addChild {parent : Slot} (live : layout.live parent) (payload : Payload) :
    (store.addChild parent payload).Represents
      ((layout.allocated store.fresh payload).appended parent store.fresh) := by
  have different : parent ≠ store.fresh := by
    rintro rfl
    exact represents.not_live_fresh live
  exact (represents.allocate payload).linkLast (Or.inl live)
    (represents.isForest.detached_allocated represents.not_live_fresh payload)
    (Layout.not_reaches_of_row_nil (Function.update_self ..) different)

/-! ### Taking out -/

/-- **A slot is found as a child exactly when it stands in the row.** -/
theorem isChild_eq {parent : Slot} (live : layout.live parent) (slot : Slot) :
    store.isChild parent slot = decide (slot ∈ layout.rows parent) := by
  rw [← isChild_tidied represents.forest ((represents.inUse_iff parent).mpr live),
    Bool.eq_iff_iff, represents.forest.isChild_iff, represents.children_tidied live,
    decide_eq_true_iff]

/-- A slot that is not in the row stays where it is, and so does everything else. -/
theorem detach_eq {parent slot : Slot} (live : layout.live parent)
    (absent : slot ∉ layout.rows parent) : store.detach parent slot = store :=
  detach_of_not_isChild (by rw [represents.isChild_eq live, decide_eq_false absent])

/-- **Detaching a member of a row deletes it.** -/
theorem detach {parent slot : Slot} (child : layout.Child parent slot) :
    (store.detach parent slot).Represents (layout.removed parent slot) := by
  have forest := represents.forest
  have liveSlot := represents.isForest.live_child parent slot child
  obtain ⟨before, after, split⟩ := List.append_of_mem child.2
  have splitTidied : store.tidied.children parent = before ++ slot :: after := by
    rw [represents.children_tidied child.1, split]
  obtain ⟨detached, isChild⟩ := forest.detached_detach splitTidied
  refine of_tidied ?_
  rw [tidied_detach forest ((represents.inUse_iff parent).mpr child.1)
    ((represents.inUse_iff slot).mpr liveSlot)]
  refine detached.forest.represents ?_ (fun found => ?_) (fun found live => ?_)
    (fun found live => ?_) fun found isTop => ?_
  · rw [slots_detach, slots_tidied, represents.slots]
    rfl
  · rw [detached.inUse, represents.inUse_tidied_iff]
    exact Iff.rfl
  · rw [detached.children]
    simp only [Layout.removed]
    by_cases same : found = parent
    · subst same
      rw [Function.update_self, Function.update_self,
        erase_split (represents.isForest.distinct found child.1) split]
    · rw [Function.update_of_ne same, Function.update_of_ne same, represents.children_tidied live]
  · rw [detached.payload]
    exact represents.payload_tidied live
  · simp only [Layout.removed]
    by_cases same : found = slot
    · subst same
      rw [Function.update_self]
      exact next_detach (represents.inUse_tidied_iff found |>.mpr liveSlot).1 isChild
    · have wasTop := detached.isTop_of_ne splitTidied isTop same
      rw [Function.update_of_ne same, detached.next found wasTop]
      exact represents.stray_tidied ((represents.isTop_tidied found).mp wasTop)

/-! ### Releasing -/

/-- **Releasing a loose slot gives back what it reaches and nothing else.** -/
theorem discard {slot : Slot} (loose : layout.Loose slot) :
    (store.discard slot).Represents (layout.discarded slot) := by
  have forest := represents.forest
  have isTop := (represents.isTop_tidied slot).mpr loose
  have pruned := forest.pruned_discard isTop
  rw [represents.reaches_tidied] at pruned
  refine of_tidied ?_
  rw [tidied_discard forest isTop]
  refine pruned.forest.represents ?_ (fun found => ?_) (fun found live => ?_)
    (fun found live => ?_) fun found isTop => ?_
  · rw [slots_discard, slots_tidied, represents.slots]
    rfl
  · rw [pruned.inUse, represents.inUse_tidied_iff]
    exact Iff.rfl
  · rw [pruned.children found live.2, represents.children_tidied live.1]
    rfl
  · rw [Store.payload, pruned.node found live.2]
    exact represents.payload_tidied live.1
  · obtain ⟨inUse, kept⟩ := (pruned.inUse found).mp isTop.1
    have wasTop : store.tidied.IsTop found := by
      refine ⟨inUse, fun above member => ?_⟩
      have child := (represents.mem_children_tidied above found).mp member
      by_cases gone : layout.Reaches slot above
      · exact kept (ReflTransGen.tail gone child)
      · exact isTop.2 above (by rwa [pruned.children above gone])
    rw [pruned.node found kept]
    exact represents.stray_tidied ((represents.isTop_tidied found).mp wasTop)

/-- **Releasing all children empties one row and gives back what hung below.** -/
theorem eraseChildren {parent : Slot} (live : layout.live parent) :
    (store.eraseChildren parent).Represents (layout.emptied parent) := by
  have forest := represents.forest
  have trimmed := forest.trimmed_eraseChildren ((represents.inUse_tidied_iff parent).mpr live)
  have tops := trimmed.isTop_iff (fun child member _ => TransGen.single member)
    fun above child gone member => TransGen.tail gone member
  rw [represents.below_tidied] at trimmed
  refine of_tidied ?_
  rw [tidied_eraseChildren forest ((represents.inUse_iff parent).mpr live)]
  refine trimmed.forest.represents ?_ (fun found => ?_) (fun found liveFound => ?_)
    (fun found liveFound => ?_) fun found isTop => ?_
  · rw [slots_eraseChildren, slots_tidied, represents.slots]
    rfl
  · rw [trimmed.inUse, represents.inUse_tidied_iff]
    exact Iff.rfl
  · rw [trimmed.children found liveFound.2]
    simp only [Layout.emptied]
    by_cases same : found = parent
    · subst same
      rw [Function.update_self, Function.update_self]
    · rw [Function.update_of_ne same, Function.update_of_ne same,
        represents.children_tidied liveFound.1]
  · rw [trimmed.payload found liveFound.2]
    exact represents.payload_tidied liveFound.1
  · have wasTop := (tops found).mp isTop
    rw [trimmed.next found wasTop]
    exact represents.stray_tidied ((represents.isTop_tidied found).mp wasTop)

end Represents

end SqlDraft.Store
