/-
**Changes within a subtree.**

A change stays within the subtree of a root when all nodes outside of it are as they were, links
included, and no others are added there. What is added and released inside may well be slots that
were handed out before:

* `Store.Outside`: the slots in use that a root does not reach.
* `Store.Within`: all that changed hangs below a root.
* `Store.Within.mono`: what changed below a root changed below all roots above it.
* `Store.Tended`: a change within a subtree that cuts nothing off.
* `Store.Grown.tended`, `Store.Retagged.tended`, `Store.Trimmed.within`: the ways to change a forest.
-/

import SqlDraft.Proofs.Store.Erasing
import SqlDraft.Proofs.Store.Growing

namespace SqlDraft.Store

open Relation

variable {store between other : Store} {root inner slot : Slot}

/-- A slot in use that a root does not reach. -/
def Outside (store : Store) (root slot : Slot) : Prop := store.InUse slot ∧ ¬ store.Reaches root slot

/-- **All that changed hangs below a root.** The same slots are outside, and their nodes are the
same. The root itself stays linked where it is. -/
structure Within (store other : Store) (root : Slot) : Prop where
  forest : other.Forest
  inUse_root : other.InUse root
  next_root : (other.node root).next = (store.node root).next
  outside : ∀ slot, other.Outside root slot ↔ store.Outside root slot
  node : ∀ slot, store.Outside root slot → other.node slot = store.node slot

/-- A change below a root after which the root still reaches all slots that it reached. -/
structure Tended (store other : Store) (root : Slot) : Prop extends store.Within other root where
  reaches : ∀ slot, store.Reaches root slot → other.Reaches root slot

/-! ### Slots outside of a subtree -/

/-- What is above a slot outside of a subtree is outside of it too. -/
theorem Outside.of_reaches (forest : store.Forest) (outside : store.Outside root slot) {above : Slot}
    (reaches : store.Reaches above slot) : store.Outside root above := by
  refine ⟨?_, fun inside => outside.2 (inside.trans reaches)⟩
  rcases ReflTransGen.cases_head reaches with rfl | ⟨child, member, _⟩
  · exact outside.1
  · exact forest.inUse_parent member

/-- The children of a slot outside of a subtree are outside of it, but for its root. -/
theorem Outside.child (forest : store.Forest) (outside : store.Outside root slot) {child : Slot}
    (member : child ∈ store.children slot) : child = root ∨ store.Outside root child := by
  by_cases same : child = root
  · exact Or.inl same
  · refine Or.inr ⟨forest.inUse_child slot child member, fun reaches => ?_⟩
    rcases reflTransGen_iff_eq_or_transGen.mp reaches with here | hangs
    · exact same here
    · exact outside.2 (forest.parent_of_below hangs member)

/-- A root is outside of the subtrees below it. -/
theorem Forest.outside_of_below (forest : store.Forest) (hangs : store.Below root inner) :
    store.Outside inner root := by
  refine ⟨?_, forest.not_reaches_of_below hangs⟩
  obtain ⟨child, member, _⟩ := TransGen.head'_iff.mp hangs
  exact forest.inUse_parent member

/-! ### Changes within a subtree -/

namespace Within

theorem refl (forest : store.Forest) (inUse : store.InUse root) : store.Within store root :=
  ⟨forest, inUse, rfl, fun _ => Iff.rfl, fun _ _ => rfl⟩

theorem trans (first : store.Within between root) (second : between.Within other root) :
    store.Within other root where
  forest := second.forest
  inUse_root := second.inUse_root
  next_root := second.next_root.trans first.next_root
  outside slot := (second.outside slot).trans (first.outside slot)
  node slot outside :=
    (second.node slot ((first.outside slot).mpr outside)).trans (first.node slot outside)

theorem symm (within : store.Within other root) (forest : store.Forest)
    (inUse : store.InUse root) : other.Within store root where
  forest := forest
  inUse_root := inUse
  next_root := within.next_root.symm
  outside slot := (within.outside slot).symm
  node slot outside := (within.node slot ((within.outside slot).mp outside)).symm

/-- A row outside of the subtree is the same. -/
theorem children_eq (within : store.Within other root) (forest : store.Forest)
    (outside : store.Outside root slot) : other.children slot = store.children slot := by
  have leads := forest.ends slot
  rw [← within.node slot outside] at leads
  refine children_eq_of_leads (leads.congr fun child member => ?_) fun child member => ?_
  · rcases outside.child forest member with rfl | outsideToo
    · exact within.next_root
    · rw [within.node child outsideToo]
  · rcases outside.child forest member with rfl | outsideToo
    · exact within.inUse_root.1
    · exact ((within.outside child).mpr outsideToo).1.1

/-- A way to a slot outside of the subtree still exists. -/
theorem reaches_outside (within : store.Within other root) (forest : store.Forest) {first : Slot}
    (reaches : store.Reaches first slot) (outside : store.Outside root slot) :
    other.Reaches first slot := by
  induction reaches using ReflTransGen.head_induction_on with
  | refl => exact ReflTransGen.refl
  | @head above child member further step =>
    refine ReflTransGen.head ?_ step
    have outsideToo := outside.of_reaches forest (ReflTransGen.head member further)
    rwa [within.children_eq forest outsideToo]

/-- What is above the root still reaches it. -/
theorem reaches_root (within : store.Within other inner) (forest : store.Forest)
    (above : store.Reaches root inner) : other.Reaches root inner := by
  rcases ReflTransGen.cases_tail above with rfl | ⟨parent, reaches, member⟩
  · exact ReflTransGen.refl
  · have outside := forest.outside_of_below (TransGen.single member)
    refine ReflTransGen.tail (within.reaches_outside forest reaches outside) ?_
    rwa [within.children_eq forest outside]

/-- What is outside of a subtree above is what was outside of it. -/
theorem outside_of_above (within : store.Within other inner) (forest : store.Forest)
    (above : store.Reaches root inner) (outside : other.Outside root slot) :
    store.Outside root slot := by
  have aboveStill := within.reaches_root forest above
  have apart := (within.outside slot).mp
    ⟨outside.1, fun inside => outside.2 (aboveStill.trans inside)⟩
  exact ⟨apart.1, fun inside => outside.2 (within.reaches_outside forest inside apart)⟩

/-- **What changed below a root changed below all roots above it.** -/
theorem mono (within : store.Within other inner) (forest : store.Forest)
    (inUse : store.InUse root) (above : store.Reaches root inner) : store.Within other root := by
  rcases reflTransGen_iff_eq_or_transGen.mp above with rfl | hangs
  · exact within
  · have inUseInner := forest.inUse_of_reaches above inUse
    have outsideRoot := forest.outside_of_below hangs
    have aboveStill := within.reaches_root forest above
    refine ⟨within.forest, ((within.outside root).mpr outsideRoot).1, ?_, fun slot => ⟨?_, ?_⟩,
      fun slot outside => ?_⟩
    · rw [within.node root outsideRoot]
    · exact within.outside_of_above forest above
    · exact (within.symm forest inUseInner).outside_of_above within.forest aboveStill
    · exact within.node slot ⟨outside.1, fun inside => outside.2 (above.trans inside)⟩

end Within

namespace Tended

theorem refl (forest : store.Forest) (inUse : store.InUse root) : store.Tended store root :=
  ⟨.refl forest inUse, fun _ => id⟩

theorem trans (first : store.Tended between root) (second : between.Tended other root) :
    store.Tended other root :=
  ⟨first.toWithin.trans second.toWithin, fun slot reaches =>
    second.reaches slot (first.reaches slot reaches)⟩

end Tended

/-! ### Nodes from rows -/

/-- The sibling link of a slot tells its row, or it is in none. -/
theorem Forest.next_eq (forest : store.Forest) (forestToo : other.Forest) (inUse : store.InUse slot)
    (rows : ∀ row, slot ∈ store.children row → other.children row = store.children row)
    (loose : store.IsTop slot → (other.node slot).next = (store.node slot).next) :
    (other.node slot).next = (store.node slot).next := by
  by_cases isTop : store.IsTop slot
  · exact loose isTop
  · have placed : ∃ row, slot ∈ store.children row := by
      by_contra orphan
      exact isTop ⟨inUse, fun row member => orphan ⟨row, member⟩⟩
    obtain ⟨row, member⟩ := placed
    obtain ⟨front, back, split⟩ := List.append_of_mem member
    rw [forest.next_eq_head? split, forestToo.next_eq_head? ((rows row member).trans split)]

/-- A node is its payload, its row and its place in a row. -/
theorem Forest.node_eq (forest : store.Forest) (forestToo : other.Forest)
    (payload : other.payload slot = store.payload slot)
    (row : other.children slot = store.children slot)
    (next : (other.node slot).next = (store.node slot).next) :
    other.node slot = store.node slot := by
  have child : (other.node slot).child = (store.node slot).child := by
    have first := forest.firstChild?_eq_head? slot
    rw [← row, ← forestToo.firstChild?_eq_head?] at first
    exact first.symm
  have parts : ∀ node : Node, node = ⟨node.payload, node.next, node.child⟩ := fun _ => rfl
  rw [parts (other.node slot), parts (store.node slot), next, child]
  exact congrArg (Node.mk · _ _) payload

/-- The row of a root is not below it. -/
theorem Forest.row_ne_of_reaches (forest : store.Forest) {parent row : Slot}
    (reaches : store.Reaches root parent) (member : root ∈ store.children row) : row ≠ parent := by
  rintro rfl
  exact forest.not_reaches_of_below (TransGen.single member) reaches

/-! ### The ways to change a forest -/

variable {parent : Slot} {content : Payload} {before after row : List Slot}

/-- A new leaf is reached where its parent is, and hides nothing. -/
theorem Grown.reaches_iff (grown : store.Grown other parent content before after)
    (forest : store.Forest) {first last : Slot} (old : last ≠ store.fresh) :
    other.Reaches first last ↔ store.Reaches first last := by
  constructor
  · intro reaches
    have way : store.Reaches first last ∨ last = store.fresh := by
      induction reaches with
      | refl => exact Or.inl ReflTransGen.refl
      | @tail above below _ member step =>
        rcases (grown.mem_children above below).mp member with before | ⟨-, added⟩
        · by_cases leaf : above = store.fresh
          · rw [leaf, forest.children_of_not_inUse store.fresh_not_inUse] at before
            exact absurd before List.not_mem_nil
          · exact Or.inl (ReflTransGen.tail (step leaf |>.resolve_right leaf) before)
        · exact Or.inr added
    exact way.resolve_right old
  · exact fun reaches => reaches.mono fun above below member =>
      (grown.mem_children above below).mpr (Or.inl member)

/-- **A leaf is added below a root.** -/
theorem Grown.tended (grown : store.Grown other parent content before after)
    (forest : store.Forest) (inUse : store.InUse root) (reaches : store.Reaches root parent) :
    store.Tended other root := by
  have kept : ∀ slot, store.Reaches root slot → other.Reaches root slot := fun slot inside =>
    (grown.reaches_iff forest (forest.inUse_of_reaches inside inUse).ne_fresh).mpr inside
  refine ⟨⟨grown.forest, grown.inUse_of_inUse inUse, ?_, fun slot => ?_, fun slot outside => ?_⟩,
    kept⟩
  · refine forest.next_eq grown.forest inUse (fun row member => ?_) (grown.next root)
    exact grown.children_of_ne (forest.row_ne_of_reaches reaches member)
  · constructor
    · rintro ⟨inUseSlot, apart⟩
      have old : slot ≠ store.fresh := by
        rintro rfl
        exact apart (ReflTransGen.tail (kept parent reaches) grown.fresh_mem)
      exact ⟨((grown.inUse slot).mp inUseSlot).resolve_right old, fun inside =>
        apart (kept slot inside)⟩
    · rintro ⟨inUseSlot, apart⟩
      exact ⟨grown.inUse_of_inUse inUseSlot, fun inside =>
        apart ((grown.reaches_iff forest inUseSlot.ne_fresh).mp inside)⟩
  · have notParent : slot ≠ parent := by
      rintro rfl
      exact outside.2 reaches
    refine forest.node_eq grown.forest (grown.payload_of_inUse outside.1)
      (grown.children_of_ne notParent) ?_
    refine forest.next_eq grown.forest outside.1 (fun row member => ?_) (grown.next slot)
    refine grown.children_of_ne ?_
    rintro rfl
    exact outside.2 (reaches.trans (reaches_child member))

theorem Grown.reaches_fresh (grown : store.Grown other parent content before after)
    (forest : store.Forest) (inUse : store.InUse root) (reaches : store.Reaches root parent) :
    other.Reaches root store.fresh :=
  ReflTransGen.tail ((grown.tended forest inUse reaches).reaches parent reaches) grown.fresh_mem

/-- **A payload is changed below a root.** -/
theorem Retagged.tended (retagged : store.Retagged other slot content) (forest : store.Forest)
    (inUse : store.InUse root) (reaches : store.Reaches root slot) : store.Tended other root := by
  have sameWays : other.Reaches = store.Reaches := by
    unfold Reaches
    rw [retagged.children]
  refine ⟨⟨retagged.forest, retagged.inUse ▸ inUse, retagged.next root, fun found => ?_,
    fun found outside => ?_⟩, fun found inside => sameWays ▸ inside⟩
  · rw [Outside, Outside, retagged.inUse, sameWays]
  · have different : found ≠ slot := by
      rintro rfl
      exact outside.2 reaches
    refine forest.node_eq retagged.forest ?_ (congrFun retagged.children found)
      (retagged.next found)
    rw [retagged.payload, Function.update_of_ne different]

section Trimming

variable {gone : Slot → Prop} (trimmed : store.Trimmed other parent row gone)
  (whole : ∀ child ∈ store.children parent, child ∉ row → gone child)
  (closed : ∀ above child, gone above → child ∈ store.children above → gone child)

include trimmed whole closed

/-- What was not released is reached as before. -/
theorem Trimmed.reaches_iff {first last : Slot} (kept : ¬ gone last) :
    other.Reaches first last ↔ store.Reaches first last := by
  constructor
  · refine fun reaches => reaches.mono fun above below member => ?_
    have inUseAbove := (trimmed.inUse above).mp (trimmed.forest.inUse_parent member)
    rw [trimmed.children above inUseAbove.2] at member
    by_cases same : above = parent
    · subst same
      rw [Function.update_self] at member
      exact trimmed.row_subset below member
    · rwa [Function.update_of_ne same] at member
  · intro reaches
    -- What is above something that was kept was kept as well, so the way back is followed.
    have way : other.Reaches first last ∧ ¬ gone first := by
      induction reaches using ReflTransGen.head_induction_on with
      | refl => exact ⟨ReflTransGen.refl, kept⟩
      | @head above below member _ step =>
        obtain ⟨further, keptBelow⟩ := step
        have keptAbove : ¬ gone above := fun goneAbove =>
          keptBelow (closed above below goneAbove member)
        refine ⟨ReflTransGen.head ?_ further, keptAbove⟩
        rw [trimmed.children above keptAbove]
        by_cases same : above = parent
        · subst same
          rw [Function.update_self]
          by_contra dropped
          exact keptBelow (whole below member dropped)
        · rwa [Function.update_of_ne same]
    exact way.1

/-- **A row is shortened below a root**, and what hung below its lost members is released. -/
theorem Trimmed.within (forest : store.Forest) (inUse : store.InUse root)
    (reaches : store.Reaches root parent) : store.Within other root := by
  have goneInside : ∀ slot, gone slot → store.Reaches root slot := fun slot goneSlot =>
    reaches.trans (trimmed.below slot goneSlot).reaches
  have keptRoot : ¬ gone root := fun goneRoot =>
    forest.not_reaches_of_below (trimmed.below root goneRoot) reaches
  have sameRow : ∀ slot, ¬ gone slot → slot ≠ parent →
      other.children slot = store.children slot := fun slot kept different => by
    rw [trimmed.children slot kept, Function.update_of_ne different]
  have outsideKept : ∀ slot, store.Outside root slot → ¬ gone slot := fun slot outside goneSlot =>
    outside.2 (goneInside slot goneSlot)
  refine ⟨trimmed.forest, (trimmed.inUse root).mpr ⟨inUse, keptRoot⟩, ?_, fun slot => ?_,
    fun slot outside => ?_⟩
  · refine forest.next_eq trimmed.forest inUse (fun above member => ?_) (trimmed.next root)
    exact sameRow above (fun goneAbove => keptRoot (closed above root goneAbove member))
      (forest.row_ne_of_reaches reaches member)
  · constructor
    · rintro ⟨inUseSlot, apart⟩
      obtain ⟨inUseBefore, kept⟩ := (trimmed.inUse slot).mp inUseSlot
      exact ⟨inUseBefore, fun inside =>
        apart ((trimmed.reaches_iff whole closed kept).mpr inside)⟩
    · intro outside
      have kept := outsideKept slot outside
      exact ⟨(trimmed.inUse slot).mpr ⟨outside.1, kept⟩, fun inside =>
        outside.2 ((trimmed.reaches_iff whole closed kept).mp inside)⟩
  · have kept := outsideKept slot outside
    have notParent : slot ≠ parent := by
      rintro rfl
      exact outside.2 reaches
    refine forest.node_eq trimmed.forest (trimmed.payload slot kept)
      (sameRow slot kept notParent) ?_
    refine forest.next_eq trimmed.forest outside.1 (fun above member => ?_) (trimmed.next slot)
    refine sameRow above (fun goneAbove => kept (closed above slot goneAbove member)) ?_
    rintro rfl
    exact outside.2 (reaches.trans (reaches_child member))

end Trimming

end SqlDraft.Store
