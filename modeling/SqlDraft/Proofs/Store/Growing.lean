/-
**Forests that grow by one leaf, and forests that are retagged.**

All that is ever added to a tree is a fresh leaf in one row of children, and all that is ever
changed in place is a payload:

* `Store.Grown`: a fresh leaf was put into one row.
* `Store.Retagged`: one payload was changed.
* `Store.grown_addChild`, `Store.grown_addFirst`, `Store.grown_addClause`: the ways to add a leaf.
* `Store.named`: putting a name behind a node adds two leaves, one below the other.
-/

import SqlDraft.Proofs.Store.Linking
import SqlDraft.Store.Clauses

namespace SqlDraft.Store

open Relation

variable {store other : Store} {parent : Slot}

/-- A fresh leaf was put into the children of one node, and nothing else changed. -/
structure Grown (store other : Store) (parent : Slot) (content : Payload)
    (before after : List Slot) : Prop where
  split : store.children parent = before ++ after
  inUse_parent : store.InUse parent
  forest : other.Forest
  children : other.children = Function.update store.children parent (before ++ store.fresh :: after)
  payload : other.payload = Function.update store.payload store.fresh content
  inUse : ∀ slot, other.InUse slot ↔ store.InUse slot ∨ slot = store.fresh
  next : ∀ top, store.IsTop top → (other.node top).next = (store.node top).next

/-- One payload was changed, and nothing else. -/
structure Retagged (store other : Store) (slot : Slot) (content : Payload) : Prop where
  inUse_slot : store.InUse slot
  forest : other.Forest
  children : other.children = store.children
  payload : other.payload = Function.update store.payload slot content
  inUse : other.InUse = store.InUse
  next : ∀ top, (other.node top).next = (store.node top).next

/-! ### Growing -/

namespace Grown

variable {content : Payload} {before after : List Slot}

theorem mem_children (grown : store.Grown other parent content before after) (row child : Slot) :
    child ∈ other.children row ↔
      child ∈ store.children row ∨ (row = parent ∧ child = store.fresh) := by
  rw [grown.children]
  exact mem_row_inserted grown.split store.fresh row child

theorem children_of_ne (grown : store.Grown other parent content before after) {row : Slot}
    (different : row ≠ parent) : other.children row = store.children row := by
  rw [grown.children, Function.update_of_ne different]

theorem children_parent (grown : store.Grown other parent content before after) :
    other.children parent = before ++ store.fresh :: after := by
  rw [grown.children, Function.update_self]

theorem children_fresh (grown : store.Grown other parent content before after)
    (forest : store.Forest) : other.children store.fresh = [] := by
  rw [grown.children_of_ne grown.inUse_parent.ne_fresh.symm]
  exact forest.children_of_not_inUse store.fresh_not_inUse

theorem payload_of_inUse (grown : store.Grown other parent content before after) {slot : Slot}
    (inUse : store.InUse slot) : other.payload slot = store.payload slot := by
  rw [grown.payload, Function.update_of_ne inUse.ne_fresh]

theorem payload_fresh (grown : store.Grown other parent content before after) :
    other.payload store.fresh = content := by
  rw [grown.payload, Function.update_self]

theorem inUse_of_inUse (grown : store.Grown other parent content before after) {slot : Slot}
    (inUse : store.InUse slot) : other.InUse slot :=
  (grown.inUse slot).mpr (Or.inl inUse)

theorem inUse_fresh (grown : store.Grown other parent content before after) :
    other.InUse store.fresh :=
  (grown.inUse _).mpr (Or.inr rfl)

theorem fresh_mem (grown : store.Grown other parent content before after) :
    store.fresh ∈ other.children parent :=
  (grown.mem_children _ _).mpr (Or.inr ⟨rfl, rfl⟩)

theorem isTop_iff (grown : store.Grown other parent content before after) (top : Slot) :
    other.IsTop top ↔ store.IsTop top := by
  unfold IsTop
  rw [grown.inUse]
  constructor
  · rintro ⟨inUse, orphan⟩
    have kept : ∀ row, top ∉ store.children row := fun row member =>
      orphan row ((grown.mem_children row top).mpr (Or.inl member))
    cases inUse with
    | inl old => exact ⟨old, kept⟩
    | inr same => exact absurd (same ▸ grown.fresh_mem) (orphan parent)
  · rintro ⟨inUse, orphan⟩
    refine ⟨Or.inl inUse, fun row member => ?_⟩
    cases (grown.mem_children row top).mp member with
    | inl old => exact orphan row old
    | inr added => exact inUse.ne_fresh added.2

end Grown

/-- A freshly allocated node may be linked below any other one. -/
theorem Forest.linkable_fresh (forest : store.Forest) (content : Payload)
    (inUse : store.InUse parent) : (store.allocate content).Linkable parent store.fresh where
  isTop := forest.isTop_fresh content
  inUse := (forest.inUse_allocate content parent).mpr (Or.inl inUse)
  apart reaches := by
    cases ReflTransGen.cases_head reaches with
    | inl same => exact inUse.ne_fresh same.symm
    | inr found =>
      obtain ⟨child, member, _⟩ := found
      rw [forest.children_allocate,
        forest.children_of_not_inUse store.fresh_not_inUse] at member
      exact absurd member List.not_mem_nil

theorem Linked.fresh_eq {slot : Slot} {before after : List Slot}
    (linked : store.Linked other parent slot before after) : other.fresh = store.fresh := by
  rw [fresh, fresh, linked.released, linked.slots]

/-- **Allocating a node and linking it adds a leaf.** -/
theorem Linked.grown {content : Payload} {before after : List Slot}
    (linked : (store.allocate content).Linked other parent store.fresh before after)
    (forest : store.Forest) (inUse : store.InUse parent) :
    store.Grown other parent content before after where
  split := by
    rw [← forest.children_allocate content]
    exact linked.split
  inUse_parent := inUse
  forest := linked.forest
  children := by rw [linked.children, forest.children_allocate]
  payload := by rw [linked.payload, forest.payload_allocate]
  inUse slot := by
    rw [← forest.inUse_allocate content, linked.inUse]
  next top isTop := by
    have different := isTop.1.ne_fresh
    have stillTop : (store.allocate content).IsTop top := by
      refine ⟨(forest.inUse_allocate content top).mpr (Or.inl isTop.1), ?_⟩
      rw [forest.children_allocate]
      exact isTop.2
    rw [linked.next top stillTop different, forest.node_allocate, Function.update_of_ne different]

theorem grown_addChild (forest : store.Forest) (inUse : store.InUse parent) (content : Payload) :
    store.Grown (store.addChild parent content) parent content (store.children parent) [] := by
  have linkable := forest.linkable_fresh content inUse
  have loose : ((store.allocate content).node store.fresh).next = none := by
    rw [forest.node_allocate, Function.update_self]
  have linked := linkable.linkLast (forest.allocate content) loose
  rw [forest.children_allocate] at linked
  exact linked.grown forest inUse

theorem grown_addFirst (forest : store.Forest) (inUse : store.InUse parent) (content : Payload) :
    store.Grown ((store.allocate content).linkFirst parent store.fresh) parent content []
      (store.children parent) := by
  have linked := (forest.linkable_fresh content inUse).linkFirst (forest.allocate content)
  rw [forest.children_allocate] at linked
  exact linked.grown forest inUse

/-- The children that a new clause goes behind. -/
def clauseFront (store : Store) (parent : Slot) (keyword : Keyword) : List Slot :=
  (store.children parent).takeWhile fun child => store.passRank child ≤ placeRank keyword

/-- The children that a new clause goes before. -/
def clauseBack (store : Store) (parent : Slot) (keyword : Keyword) : List Slot :=
  (store.children parent).dropWhile fun child => store.passRank child ≤ placeRank keyword

theorem clauseFront_append_clauseBack (store : Store) (parent : Slot) (keyword : Keyword) :
    store.clauseFront parent keyword ++ store.clauseBack parent keyword = store.children parent :=
  List.takeWhile_append_dropWhile

theorem takeWhile_of_agree {first second : Slot → Bool} {row : List Slot}
    (agree : ∀ member ∈ row, first member = second member) :
    row.takeWhile first = row.takeWhile second := by
  induction row with
  | nil => rfl
  | cons slot rest step =>
    rw [List.takeWhile_cons, List.takeWhile_cons, agree slot List.mem_cons_self,
      step fun member inRest => agree member (List.mem_cons_of_mem slot inRest)]

/-- The allocation of a clause is not felt by the search for its place. -/
theorem Forest.clauseFront_allocate (forest : store.Forest) (content : Payload) (parent : Slot)
    (keyword : Keyword) :
    (store.allocate content).clauseFront parent keyword = store.clauseFront parent keyword := by
  unfold clauseFront
  rw [forest.children_allocate]
  refine takeWhile_of_agree fun child member => ?_
  have inUse := forest.inUse_child parent child member
  rw [passRank, passRank, forest.node_allocate, Function.update_of_ne inUse.ne_fresh]

/-- **A clause goes behind all clauses of its rank or a lower one.** -/
theorem grown_addClause (forest : store.Forest) (inUse : store.InUse parent) (keyword : Keyword) :
    store.Grown (store.addClause parent keyword) parent (.keyword keyword)
      (store.clauseFront parent keyword) (store.clauseBack parent keyword) := by
  have linkable := forest.linkable_fresh (.keyword keyword) inUse
  have allocated := forest.allocate (.keyword keyword)
  have sameFront := forest.clauseFront_allocate (.keyword keyword) parent keyword
  have row := store.clauseFront_append_clauseBack parent keyword
  have found : (store.allocate (.keyword keyword)).clauseBefore? parent keyword =
      (store.clauseFront parent keyword).getLast? := congrArg List.getLast? sameFront
  simp only [addClause, found]
  cases final : (store.clauseFront parent keyword).getLast? with
  | none =>
    have nothing : store.clauseFront parent keyword = [] := List.getLast?_eq_none_iff.mp final
    rw [nothing, List.nil_append] at row
    rw [nothing, row]
    exact grown_addFirst forest inUse _
  | some previous =>
    obtain ⟨front, front_eq⟩ := List.getLast?_eq_some_iff.mp final
    have split : (store.allocate (.keyword keyword)).children parent =
        front ++ previous :: store.clauseBack parent keyword := by
      rw [forest.children_allocate, ← row, front_eq, List.append_assoc, List.singleton_append]
    rw [front_eq]
    exact (linkable.linkAfter allocated split).grown forest inUse

/-! ### Naming -/

/-- **A name behind a node is a leaf in its row, with a leaf of its own.** The two leaves are made
in the other order than they are described here: the store between them never occurs. -/
theorem named (forest : store.Forest) {target : Slot} {front after : List Slot}
    (split : store.children parent = front ++ target :: after) (label content : Payload) :
    ∃ between, store.Grown between parent label (front ++ [target]) after ∧
      between.Grown (((store.allocate label).addChild store.fresh content).linkAfter target
        store.fresh) store.fresh content [] [] := by
  have isChild : target ∈ store.children parent := by simp [split]
  have inUse := forest.inUse_parent isChild
  have allocated := forest.allocate label
  have inUseFresh : (store.allocate label).InUse store.fresh := (forest.isTop_fresh label).1
  have rowAllocated : (store.allocate label).children store.fresh = [] := by
    rw [forest.children_allocate]
    exact forest.children_of_not_inUse store.fresh_not_inUse
  have labelled := (forest.linkable_fresh label inUse).linkAfter allocated
    (by rw [forest.children_allocate]; exact split)
  have filled := grown_addChild allocated inUseFresh content
  rw [rowAllocated] at filled
  have different : parent ≠ store.fresh := inUse.ne_fresh
  have linkable : ((store.allocate label).addChild store.fresh content).Linkable parent
      store.fresh := by
    refine ⟨(filled.isTop_iff _).mpr (forest.isTop_fresh label), filled.inUse_of_inUse
      ((forest.inUse_allocate label parent).mpr (Or.inl inUse)), fun reaches => ?_⟩
    -- Below the new label there is only its own leaf, which nothing hangs below.
    cases ReflTransGen.cases_head reaches with
    | inl same => exact different same.symm
    | inr found =>
      obtain ⟨leaf, member, further⟩ := found
      rw [filled.children_parent, List.nil_append, List.mem_singleton] at member
      cases ReflTransGen.cases_head further with
      | inl same =>
        rw [member] at same
        have inUseParent := (forest.inUse_allocate label parent).mpr (Or.inl inUse)
        exact inUseParent.ne_fresh same.symm
      | inr foundBelow =>
        obtain ⟨_, memberBelow, _⟩ := foundBelow
        rw [member, filled.children_fresh allocated] at memberBelow
        exact absurd memberBelow List.not_mem_nil
  have linked := linkable.linkAfter filled.forest
    (by rw [filled.children_of_ne different, forest.children_allocate]; exact split)
  have freshBetween : ((store.allocate label).linkAfter target store.fresh).fresh =
      (store.allocate label).fresh := labelled.fresh_eq
  refine ⟨(store.allocate label).linkAfter target store.fresh, labelled.grown forest inUse, ?_⟩
  refine ⟨?_, ?_, linked.forest, ?_, ?_, fun slot => ?_, fun top isTop => ?_⟩
  · rw [labelled.children, Function.update_of_ne different.symm, rowAllocated, List.nil_append]
  · rw [labelled.inUse]
    exact inUseFresh
  · rw [linked.children, filled.children, labelled.children, freshBetween, List.nil_append]
    exact Function.update_comm different.symm _ _ _
  · rw [linked.payload, filled.payload, labelled.payload, freshBetween]
  · rw [linked.inUse, filled.inUse, freshBetween, labelled.inUse]
  · obtain ⟨oldTop, differentTop⟩ := (labelled.isTop_iff top).mp isTop
    rw [linked.next top ((filled.isTop_iff top).mpr oldTop) differentTop,
      filled.next top oldTop, labelled.next top oldTop differentTop]

/-! ### Retagging -/

theorem Forest.retagged (forest : store.Forest) {slot : Slot} (inUse : store.InUse slot)
    (content : Payload) : store.Retagged (store.setPayload slot content) slot content := by
  obtain ⟨retagged, rows⟩ := @Forest.of_same_links store (store.setPayload slot content) forest
    (slots_update store slot _) rfl (child_setPayload content)
    (fun row member _ => next_setPayload content member) fun idle member =>
      node_update_other _ _ _ _ fun same => inUse.2 (same ▸ member)
  refine ⟨inUse, retagged, rows, ?_, inUse_update _ _ _, next_setPayload content⟩
  funext row
  by_cases same : row = slot
  · subst same
    rw [Function.update_self]
    exact congrArg Node.payload (node_update_same store row _ inUse.1)
  · rw [Function.update_of_ne same]
    exact congrArg Node.payload (node_update_other store slot row _ same)

theorem Retagged.isTop_iff {slot : Slot} {content : Payload}
    (retagged : store.Retagged other slot content) (top : Slot) :
    other.IsTop top ↔ store.IsTop top := by
  rw [IsTop, IsTop, retagged.inUse, retagged.children]

end SqlDraft.Store
