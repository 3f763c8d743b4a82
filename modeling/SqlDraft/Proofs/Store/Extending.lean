/-
**Forests that are extended at one node.**

What one call adds to a statement is often one subtree, behind all that a node had. It is made leaf by
leaf and may be filled by further calls, and still nothing else changes:

* `Store.KeepsBut`: all slots in use are as they were, but for the row of one node.
* `Store.Extends`: a subtree was added behind the children of one node.
* `Store.Grown.extends_`: a leaf is such a subtree.
* **`Store.Extends.trans`**, **`Store.Extends.within`**: it stays one when it is extended and changes
  inside.
-/

import SqlDraft.Proofs.Store.Traversal
import SqlDraft.Proofs.Store.Within

namespace SqlDraft.Store

open Relation

variable {store between other : Store} {parent top slot : Slot}

/-- All slots in use are as they were, but for the children of one node. -/
structure KeepsBut (store other : Store) (parent : Slot) : Prop where
  inUse : ∀ slot, store.InUse slot → other.InUse slot
  payload : ∀ slot, store.InUse slot → other.payload slot = store.payload slot
  children : ∀ slot, store.InUse slot → slot ≠ parent → other.children slot = store.children slot

/-- **A subtree was added behind the children of one node.** The slots that are newly in use are those
of the subtree, and all others are as they were. -/
structure Extends (store other : Store) (parent top : Slot) : Prop
    extends store.KeepsBut other parent where
  forest : other.Forest
  inUse_parent : store.InUse parent
  added : ∀ slot, other.Reaches top slot ↔ other.InUse slot ∧ ¬ store.InUse slot
  children_parent : other.children parent = store.children parent ++ [top]

namespace KeepsBut

theorem refl (store : Store) (parent : Slot) : store.KeepsBut store parent :=
  ⟨fun _ inUse => inUse, fun _ _ => rfl, fun _ _ _ => rfl⟩

theorem trans (first : store.KeepsBut between parent) (second : between.KeepsBut other parent) :
    store.KeepsBut other parent where
  inUse slot inUse := second.inUse slot (first.inUse slot inUse)
  payload slot inUse :=
    (second.payload slot (first.inUse slot inUse)).trans (first.payload slot inUse)
  children slot inUse different :=
    (second.children slot (first.inUse slot inUse) different).trans
      (first.children slot inUse different)

end KeepsBut

/-- A leaf that is added last extends its parent. -/
theorem Grown.extends_ {content : Payload}
    (grown : store.Grown other parent content (store.children parent) []) (forest : store.Forest) :
    store.Extends other parent store.fresh where
  inUse _ := grown.inUse_of_inUse
  payload _ := grown.payload_of_inUse
  children _ _ := grown.children_of_ne
  forest := grown.forest
  inUse_parent := grown.inUse_parent
  added slot := by
    constructor
    · intro reaches
      rcases ReflTransGen.cases_head reaches with rfl | ⟨child, member, -⟩
      · exact ⟨grown.inUse_fresh, store.fresh_not_inUse⟩
      · rw [grown.children_fresh forest] at member
        exact absurd member List.not_mem_nil
    · rintro ⟨inUse, idle⟩
      rw [((grown.inUse slot).mp inUse).resolve_left idle]
      exact ReflTransGen.refl
  children_parent := grown.children_parent

namespace Extends

theorem reaches_top (extended : store.Extends other parent top) : other.InUse top ∧ ¬ store.InUse top :=
  (extended.added top).mp ReflTransGen.refl

/-- What was in use does not hang below the new subtree. -/
theorem not_reaches (extended : store.Extends other parent top) (inUse : store.InUse slot) :
    ¬ other.Reaches top slot := fun reaches => ((extended.added slot).mp reaches).2 inUse

/-- A way that was there is still there. -/
theorem reaches (extended : store.Extends other parent top) (forest : store.Forest)
    {first last : Slot} (reaches : store.Reaches first last) : other.Reaches first last := by
  refine reaches.mono fun above child member => ?_
  by_cases here : above = parent
  · subst here
    rw [extended.children_parent]
    exact List.mem_append_left _ member
  · rwa [extended.children above (forest.inUse_parent member) here]

theorem top_mem (extended : store.Extends other parent top) : top ∈ other.children parent := by
  rw [extended.children_parent]
  exact List.mem_append_right _ (List.mem_singleton_self top)

/-- **A new subtree is extended inside.** -/
theorem trans (first : store.Extends between parent top) {below inner : Slot}
    (reaches : between.Reaches top below) (second : between.Extends other below inner) :
    store.Extends other parent top := by
  have apart (slot : Slot) (inUse : store.InUse slot) : slot ≠ below := fun same =>
    first.not_reaches inUse (same ▸ reaches)
  refine ⟨⟨fun slot inUse => second.inUse slot (first.inUse slot inUse), fun slot inUse => ?_,
    fun slot inUse different => ?_⟩, second.forest, first.inUse_parent, fun slot => ⟨?_, ?_⟩, ?_⟩
  · rw [second.payload slot (first.inUse slot inUse), first.payload slot inUse]
  · rw [second.children slot (first.inUse slot inUse) (apart slot inUse),
      first.children slot inUse different]
  · -- A way from the top stays below it, and goes on below the inner top once it has reached that.
    intro inside
    have new : other.InUse slot ∧ (between.Reaches top slot ∨ other.Reaches inner slot) := by
      induction inside with
      | refl => exact ⟨second.inUse top first.reaches_top.1, .inl ReflTransGen.refl⟩
      | @tail above child _ member step =>
        refine ⟨second.forest.inUse_child above child member, ?_⟩
        rcases step.2 with before | behind
        · by_cases here : above = below
          · subst here
            rw [second.children_parent, List.mem_append, List.mem_singleton] at member
            rcases member with old | rfl
            · exact .inl (before.tail old)
            · exact .inr ReflTransGen.refl
          · have inUse := first.forest.inUse_of_reaches before first.reaches_top.1
            rw [second.children above inUse here] at member
            exact .inl (before.tail member)
        · exact .inr (behind.tail member)
    refine ⟨new.1, fun inUse => ?_⟩
    rcases new.2 with before | behind
    · exact first.not_reaches inUse before
    · exact second.not_reaches (first.inUse slot inUse) behind
  · rintro ⟨inUse, idle⟩
    by_cases before : between.InUse slot
    · exact second.reaches first.forest ((first.added slot).mpr ⟨before, idle⟩)
    · exact (second.reaches first.forest reaches).trans
        ((reaches_child second.top_mem).trans ((second.added slot).mpr ⟨inUse, before⟩))
  · rw [second.children parent (first.inUse parent first.inUse_parent)
      (apart parent first.inUse_parent), first.children_parent]

/-- **A new subtree changes inside.** -/
theorem within (extended : store.Extends between parent top) {inner : Slot}
    (reaches : between.Reaches top inner) (within : between.Within other inner) :
    store.Extends other parent top := by
  have outside (slot : Slot) (inUse : store.InUse slot) : between.Outside inner slot :=
    ⟨extended.inUse slot inUse, fun inside => extended.not_reaches inUse (reaches.trans inside)⟩
  have reachesStill := within.reaches_root extended.forest reaches
  have back := within.symm extended.forest
    (extended.forest.inUse_of_reaches reaches extended.reaches_top.1)
  refine ⟨⟨fun slot inUse => ?_, fun slot inUse => ?_, fun slot inUse different => ?_⟩,
    within.forest, extended.inUse_parent, fun slot => ⟨fun inside => ⟨?_, fun inUse => ?_⟩, ?_⟩, ?_⟩
  · exact ((within.outside slot).mpr (outside slot inUse)).1
  · have node := within.node slot (outside slot inUse)
    exact (congrArg Node.payload node).trans (extended.payload slot inUse)
  · rw [within.children_eq extended.forest (outside slot inUse),
      extended.children slot inUse different]
  · refine within.forest.inUse_of_reaches inside ?_
    rcases ReflTransGen.cases_head reachesStill with rfl | ⟨child, member, -⟩
    · exact within.inUse_root
    · exact within.forest.inUse_parent member
  · have outsideStill := (within.outside slot).mpr (outside slot inUse)
    exact extended.not_reaches inUse (back.reaches_outside within.forest inside outsideStill)
  · rintro ⟨inUse, idle⟩
    by_cases inside : other.Reaches inner slot
    · exact reachesStill.trans inside
    · have before := (within.outside slot).mp ⟨inUse, inside⟩
      exact within.reaches_outside extended.forest ((extended.added slot).mpr ⟨before.1, idle⟩)
        before
  · rw [within.children_eq extended.forest (outside parent extended.inUse_parent),
      extended.children_parent]

/-- What is read below the node is what was there, and the new subtree behind it. -/
theorem payloadsBelow_parent (extended : store.Extends other parent top) :
    other.payloadsBelow parent = ((store.children parent).flatMap fun child =>
      other.payload child :: other.payloadsBelow child) ++
        other.payload top :: other.payloadsBelow top := by
  rw [extended.forest.payloadsBelow_eq_flatMap parent, extended.children_parent,
    List.flatMap_append, List.flatMap_singleton]

end Extends

end SqlDraft.Store
