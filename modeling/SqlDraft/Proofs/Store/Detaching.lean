/-
**Taking a child out of its row.**

A child is found by its parent's child link or by the sibling link of the child before it. Either
way one link is bent around it, and it becomes a top node:

* `Store.Detached`: one node was taken out of the children of another one.
* `Store.Forest.next_eq_some_iff`: sibling links tell which child another one follows.
* `Store.Forest.detached_detach`: a child is always found and taken out.
-/

import SqlDraft.Proofs.Store.Linking

namespace SqlDraft.Store

open Relation

variable {store other : Store}

/-- A way in a forest still exists without the links to one node, or it passed this node. -/
theorem reaches_without {slot : Slot}
    (kept : ∀ row child, child ∈ store.children row → child ≠ slot → child ∈ other.children row)
    {first last : Slot} (reaches : store.Reaches first last) :
    other.Reaches first last ∨ other.Reaches slot last := by
  induction reaches using ReflTransGen.head_induction_on with
  | refl => exact Or.inl ReflTransGen.refl
  | @head above child member _ step =>
    cases step with
    | inr passed => exact Or.inr passed
    | inl further =>
      by_cases same : child = slot
      · exact Or.inr (same ▸ further)
      · exact Or.inl (ReflTransGen.head (kept above child member same) further)

/-- One node was taken out of the children of another one and is a top node now. -/
structure Detached (store other : Store) (parent slot : Slot) (before after : List Slot) :
    Prop where
  forest : other.Forest
  children : other.children = Function.update store.children parent (before ++ after)
  payload : other.payload = store.payload
  inUse : other.InUse = store.InUse
  isTop : other.IsTop slot
  next : ∀ top, store.IsTop top → (other.node top).next = (store.node top).next

namespace Detached

variable {parent slot : Slot} {before after : List Slot}
  (detached : store.Detached other parent slot before after)
  (split : store.children parent = before ++ slot :: after)

include detached split

/-- The detached node is the only one that is missing in a row. -/
theorem mem_children (row child : Slot) :
    child ∈ other.children row ↔ child ∈ store.children row ∧ child ≠ slot := by
  constructor
  · intro member
    refine ⟨?_, fun same => detached.isTop.2 row (same ▸ member)⟩
    rw [detached.children] at member
    by_cases same : row = parent
    · subst same
      rw [Function.update_self, List.mem_append] at member
      rw [split, List.mem_append, List.mem_cons]
      tauto
    · rwa [Function.update_of_ne same] at member
  · rintro ⟨member, different⟩
    rw [detached.children]
    by_cases same : row = parent
    · subst same
      rw [split, List.mem_append, List.mem_cons] at member
      rw [Function.update_self, List.mem_append]
      tauto
    · rwa [Function.update_of_ne same]

/-- The subtree is the same before and after it was taken out. -/
theorem reaches_iff (found : Slot) : other.Reaches slot found ↔ store.Reaches slot found := by
  have member := detached.mem_children split
  constructor
  · exact fun reaches => reaches.mono fun row child inRow => ((member row child).mp inRow).1
  · intro reaches
    have kept : ∀ row child, child ∈ store.children row → child ≠ slot →
        child ∈ other.children row := fun row child inRow different =>
      (member row child).mpr ⟨inRow, different⟩
    exact (reaches_without kept reaches).elim id id

/-- No other node becomes a top node. -/
theorem isTop_of_ne {top : Slot} (isTop : other.IsTop top) (different : top ≠ slot) :
    store.IsTop top :=
  ⟨detached.inUse ▸ isTop.1, fun row member =>
    isTop.2 row ((detached.mem_children split row top).mpr ⟨member, different⟩)⟩

end Detached

/-- The sibling links of a row tell which child another one follows. -/
theorem Forest.next_eq_some_iff (forest : store.Forest) {parent previous slot : Slot}
    {before after : List Slot}
    (split : store.children parent = before ++ previous :: slot :: after) {child : Slot}
    (member : child ∈ store.children parent) :
    (store.node child).next = some slot ↔ child = previous := by
  constructor
  · intro follows
    obtain ⟨front, back, row⟩ := List.append_of_mem member
    rw [forest.next_eq_head? row] at follows
    obtain ⟨rest, rfl⟩ := List.head?_eq_some_iff.mp follows
    -- A row without repetitions has one place for the slot only.
    have twice : (front ++ [child]) ++ slot :: rest = (before ++ [previous]) ++ slot :: after := by
      rw [List.append_assoc, List.append_assoc, List.singleton_append, List.singleton_append,
        ← row, split]
    have distinct : ((front ++ [child]) ++ slot :: rest).Nodup := by
      rw [List.append_assoc, List.singleton_append, ← row]
      exact forest.children_nodup parent
    have absent := (List.nodup_cons.mp (List.nodup_middle.mp distinct)).1
    rw [List.mem_append, not_or] at absent
    have same := (List.append_cons_inj_of_notMem absent.1 absent.2).mp twice
    have last := congrArg List.getLast? same.1
    simpa using last
  · rintro rfl
    exact forest.next_eq_head? split

/-- **A forest with one node taken out of its row is a forest.** -/
theorem Forest.detached (forest : store.Forest) {parent slot : Slot} {before after : List Slot}
    (split : store.children parent = before ++ slot :: after)
    (payload : other.payload = store.payload) (slots : other.slots = store.slots)
    (released : other.released = store.released)
    (next : ∀ top, store.IsTop top → (other.node top).next = (store.node top).next)
    (blank : ∀ idle, ¬ store.InUse idle → other.node idle = store.node idle)
    (ends : ∀ row, other.Leads (other.node row).child
      (Function.update store.children parent (before ++ after) row) none) :
    store.Detached other parent slot before after := by
  have inUse : other.InUse = store.InUse := by
    funext found
    rw [InUse, InUse, slots, released]
  have isChild : slot ∈ store.children parent := by simp [split]
  have distinct := forest.children_nodup parent
  rw [split] at distinct
  have absent := (List.nodup_cons.mp (List.nodup_middle.mp distinct)).1
  have member_iff : ∀ row child, child ∈ Function.update store.children parent (before ++ after) row ↔
      child ∈ store.children row ∧ child ≠ slot := by
    intro row child
    by_cases same : row = parent
    · subst same
      rw [Function.update_self, split]
      simp only [List.mem_append, List.mem_cons]
      constructor
      · intro member
        refine ⟨by tauto, ?_⟩
        rintro rfl
        exact absent (List.mem_append.mpr member)
      · tauto
    · rw [Function.update_of_ne same]
      refine ⟨fun member => ⟨member, ?_⟩, fun member => member.1⟩
      rintro rfl
      exact same (forest.sole_parent _ _ _ member isChild)
  have children : other.children = Function.update store.children parent (before ++ after) := by
    refine children_eq_of_ends ends fun row child member => ?_
    rw [slots]
    exact (forest.inUse_child row child ((member_iff row child).mp member).1).1
  have isTop : other.IsTop slot := by
    refine ⟨inUse ▸ forest.inUse_child _ _ isChild, fun row member => ?_⟩
    rw [children] at member
    exact ((member_iff row slot).mp member).2 rfl
  refine ⟨⟨fun row => children ▸ ends row, fun row child member => ?_,
    fun row second child member memberToo => ?_, fun found foundInUse => ?_,
    released ▸ forest.released_nodup, fun found member => ?_, fun found member => ?_⟩,
    children, payload, inUse, isTop, next⟩
  · rw [inUse]
    rw [children] at member
    exact forest.inUse_child row child ((member_iff row child).mp member).1
  · rw [children] at member memberToo
    exact forest.sole_parent row second child ((member_iff row child).mp member).1
      ((member_iff second child).mp memberToo).1
  · -- A way that passed the slot starts at it now.
    rw [inUse] at foundInUse
    obtain ⟨top, wasTop, reaches⟩ := forest.grounded found foundInUse
    have kept : ∀ row child, child ∈ store.children row → child ≠ slot →
        child ∈ other.children row := by
      intro row child member different
      rw [children]
      exact (member_iff row child).mpr ⟨member, different⟩
    cases reaches_without kept reaches with
    | inl further =>
      refine ⟨top, ⟨inUse ▸ wasTop.1, fun row member => ?_⟩, further⟩
      rw [children] at member
      exact wasTop.2 row ((member_iff row top).mp member).1
    | inr further => exact ⟨slot, isTop, further⟩
  · rw [released] at member
    rw [slots]
    exact forest.released_made found member
  · rw [released] at member
    rw [blank found fun inUse => inUse.2 member]
    exact forest.released_blank found member

/-- The first child is detached by moving the child link on. -/
theorem Forest.detached_first (forest : store.Forest) {parent slot : Slot} {after : List Slot}
    (split : store.children parent = slot :: after) :
    store.Detached (store.detach parent slot) parent slot [] after ∧
      store.isChild parent slot = true := by
  have isChild : slot ∈ store.children parent := by simp [split]
  have inUse := forest.inUse_child _ _ isChild
  have inUseParent := forest.inUse_parent isChild
  have ends := forest.ends parent
  rw [split] at ends
  have first : store.firstChild? parent = some slot := ends.1
  have sibling (member : Slot) (different : member ≠ slot) :
      (((store.setChild parent (store.node slot).next).setNext slot none).node member).next =
        (store.node member).next :=
    (next_setNext_of_ne different none).trans (next_setChild _ member)
  refine ⟨?_, by simp [Store.isChild, first]⟩
  rw [detach, if_pos first]
  refine forest.detached split (by simp) (by simp) rfl
    (fun top isTop => sibling top (isTop.ne_child isChild)) (fun idle notInUse => ?_) fun row => ?_
  · have notSlot : idle ≠ slot := fun same => notInUse (same ▸ inUse)
    have notParent : idle ≠ parent := fun same => notInUse (same ▸ inUseParent)
    exact (node_update_other _ _ _ _ notSlot).trans (node_update_other _ _ _ _ notParent)
  · rw [child_setNext]
    by_cases same : row = parent
    · subst same
      rw [Function.update_self, child_setChild inUseParent.1]
      refine ends.2.congr fun member inAfter => sibling member ?_
      rintro rfl
      exact (List.nodup_cons.mp ends.nodup).1 inAfter
    · rw [Function.update_of_ne same, child_setChild_of_ne same]
      refine (forest.ends row).congr fun member inRow => sibling member ?_
      rintro rfl
      exact same (forest.sole_parent _ _ _ inRow isChild)

/-- The search for the child before another one finds it. -/
theorem Forest.childBefore?_eq (forest : store.Forest) {parent previous slot : Slot}
    {front after : List Slot}
    (split : store.children parent = front ++ previous :: slot :: after) :
    store.childBefore? parent slot = some previous := by
  have isChild : previous ∈ store.children parent := by simp [split]
  have follows : ∀ child ∈ store.children parent,
      ((store.node child).next = some slot ↔ child = previous) := fun _ member =>
    forest.next_eq_some_iff split member
  have search : ((store.children parent).find? fun child =>
      decide ((store.node child).next = some slot)).isSome := by
    refine List.find?_isSome.mpr ⟨previous, isChild, ?_⟩
    exact decide_eq_true ((follows previous isChild).mpr rfl)
  obtain ⟨child, found⟩ := Option.isSome_iff_exists.mp search
  have holds := List.find?_some found
  have member := List.mem_of_find?_eq_some found
  rw [childBefore?, found, (follows child member).mp (of_decide_eq_true holds)]

/-- A later child is detached by moving on the link of the child before it. -/
theorem Forest.detached_middle (forest : store.Forest) {parent previous slot : Slot}
    {front after : List Slot}
    (split : store.children parent = front ++ previous :: slot :: after) :
    store.Detached (store.detach parent slot) parent slot (front ++ [previous]) after ∧
      store.isChild parent slot = true := by
  have isChild : slot ∈ store.children parent := by simp [split]
  have previousIsChild : previous ∈ store.children parent := by simp [split]
  have inUse := forest.inUse_child _ _ isChild
  have inUsePrevious := forest.inUse_child _ _ previousIsChild
  have ends := forest.ends parent
  have distinct := forest.children_nodup parent
  rw [split] at ends distinct
  obtain ⟨between, leads, reachesPrevious, _, goes⟩ := (leads_append front _).mp ends
  have once := (List.nodup_cons.mp (List.nodup_middle.mp distinct))
  rw [List.mem_append, List.mem_cons, not_or, not_or] at once
  have different : previous ≠ slot := once.1.2.1
  have onceToo := (List.nodup_cons.mp (List.nodup_middle.mp once.2)).1
  rw [List.mem_append, not_or] at onceToo
  have first : store.firstChild? parent ≠ some slot := by
    intro same
    cases front with
    | nil => exact different (Option.some.inj (ends.1.symm.trans same))
    | cons head rest =>
      have headIs : head = slot := Option.some.inj (ends.1.symm.trans same)
      exact onceToo.1 (headIs ▸ List.mem_cons_self)
  have sibling (member : Slot) (notSlot : member ≠ slot) (notPrevious : member ≠ previous) :
      (((store.setNext previous (store.node slot).next).setNext slot none).node member).next =
        (store.node member).next :=
    (next_setNext_of_ne notSlot none).trans (next_setNext_of_ne notPrevious _)
  have found := forest.childBefore?_eq split
  refine ⟨?_, by simp [Store.isChild, found]⟩
  rw [detach, if_neg first, found]
  refine forest.detached (by rw [split, List.append_assoc, List.singleton_append]) (by simp)
    (by simp) rfl
    (fun top isTop => sibling top (isTop.ne_child isChild) (isTop.ne_child previousIsChild))
    (fun idle notInUse => ?_) fun row => ?_
  · have notSlot : idle ≠ slot := fun same => notInUse (same ▸ inUse)
    have notPrevious : idle ≠ previous := fun same => notInUse (same ▸ inUsePrevious)
    exact (node_update_other _ _ _ _ notSlot).trans (node_update_other _ _ _ _ notPrevious)
  · rw [child_setNext, child_setNext]
    by_cases same : row = parent
    · subst same
      rw [Function.update_self, List.append_assoc, List.singleton_append]
      refine (leads_append front _).mpr ⟨between, leads.congr fun member inFront => ?_,
        reachesPrevious, ?_⟩
      · refine sibling member ?_ ?_
        · rintro rfl
          exact onceToo.1 inFront
        · rintro rfl
          exact once.1.1 inFront
      · rw [next_setNext_of_ne different, next_setNext inUsePrevious.1]
        refine goes.congr fun member inAfter => sibling member ?_ ?_
        · rintro rfl
          exact onceToo.2 inAfter
        · rintro rfl
          exact once.1.2.2 inAfter
    · rw [Function.update_of_ne same]
      refine (forest.ends row).congr fun member inRow => sibling member ?_ ?_
      · rintro rfl
        exact same (forest.sole_parent _ _ _ inRow isChild)
      · rintro rfl
        exact same (forest.sole_parent _ _ _ inRow previousIsChild)

/-- **Detaching a child deletes it from its row.** -/
theorem Forest.detached_detach (forest : store.Forest) {parent slot : Slot}
    {before after : List Slot} (split : store.children parent = before ++ slot :: after) :
    store.Detached (store.detach parent slot) parent slot before after ∧
      store.isChild parent slot = true := by
  cases List.eq_nil_or_concat' before with
  | inl nothing =>
    subst nothing
    exact forest.detached_first split
  | inr found =>
    obtain ⟨front, previous, rfl⟩ := found
    rw [List.append_assoc, List.singleton_append] at split
    exact forest.detached_middle split

end SqlDraft.Store
