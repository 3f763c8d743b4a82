/-
**Ordered forests without links.**

A layout says which slots are in use, which row of children each of these has and which payload,
and says it with lists. A store represents a layout when its links lead through these rows:

* `Store.Layout`, `Store.Layout.IsForest`: rows of children, and when they make an ordered forest.
* `Store.Represents`: a store holds an ordered forest in its links. Nothing is asked of the links of
  released slots.
* `Store.Represents.forest`: with its released slots emptied, such a store is a forest.
* `Store.Forest.represents`: the other way round, to find the layout after an operation.
-/

import Mathlib.Data.Fintype.Card
import Mathlib.Data.Fintype.EquivFin
import SqlDraft.Proofs.Store.Tidy

namespace SqlDraft.Store

open Relation

/-- What a store holds, with lists in the place of links. -/
structure Layout where
  /-- The number of slots ever made. -/
  made : Nat
  live : Slot → Prop
  /-- The children of a slot in use, from left to right. -/
  rows : Slot → List Slot
  payload : Slot → Payload
  /-- The sibling link of a node that is in no row. -/
  stray : Slot → Option Slot

namespace Layout

variable (layout : Layout)

/-- A slot stands in the row of another one. -/
def Child (parent child : Slot) : Prop := layout.live parent ∧ child ∈ layout.rows parent

/-- A slot is another one or hangs below it at any depth. -/
def Reaches : Slot → Slot → Prop := ReflTransGen layout.Child

/-- A slot hangs below another one at any depth. -/
def Below : Slot → Slot → Prop := TransGen layout.Child

/-- A slot in use that stands in no row. -/
def Loose (slot : Slot) : Prop := layout.live slot ∧ ∀ parent, ¬ layout.Child parent slot

/-- A slot in use that stands in no row and has no link to a sibling. -/
def Detached (slot : Slot) : Prop := layout.Loose slot ∧ layout.stray slot = none

/-- The rows make an ordered forest. -/
structure IsForest : Prop where
  live_made : ∀ slot, layout.live slot → slot < layout.made
  live_child : ∀ parent child, layout.Child parent child → layout.live child
  distinct : ∀ parent, layout.live parent → (layout.rows parent).Nodup
  sole_parent : ∀ parent other child, layout.Child parent child → layout.Child other child →
    parent = other
  acyclic : ∀ slot, ¬ layout.Below slot slot

variable {layout}

/-- **Every slot in use hangs below one that stands in no row**: a way up passes no slot twice, and
there are finitely many. -/
theorem IsForest.exists_loose (forest : layout.IsForest) {slot : Slot} (live : layout.live slot) :
    ∃ top, layout.Loose top ∧ layout.Reaches top slot := by
  let Above : Fin layout.made → Fin layout.made → Prop := fun first second =>
    layout.Below first second
  have transitive : IsTrans (Fin layout.made) Above := ⟨fun _ _ _ => TransGen.trans⟩
  have irreflexive : Std.Irrefl Above := ⟨fun found => forest.acyclic found⟩
  have wellFounded : WellFounded Above := Finite.wellFounded_of_trans_of_irrefl Above
  have climbs : ∀ found : Fin layout.made, layout.live found →
      ∃ top, layout.Loose top ∧ layout.Reaches top found := by
    intro found
    induction found using wellFounded.induction with
    | h found step =>
      intro liveFound
      by_cases loose : ∀ parent, ¬ layout.Child parent found
      · exact ⟨found, ⟨liveFound, loose⟩, ReflTransGen.refl⟩
      · obtain ⟨parent, child⟩ := not_forall_not.mp loose
        obtain ⟨top, isLoose, reaches⟩ :=
          step ⟨parent, forest.live_made parent child.1⟩ (TransGen.single child) child.1
        exact ⟨top, isLoose, ReflTransGen.tail reaches child⟩
  exact climbs ⟨slot, forest.live_made slot live⟩ live

end Layout

/-- The links of a store lead through the rows of an ordered forest, and the released slots are the
ones that are not in use, each released once. -/
structure Represents (store : Store) (layout : Layout) : Prop where
  isForest : layout.IsForest
  slots : store.slots = layout.made
  released_nodup : store.released.Nodup
  mem_released : ∀ slot, slot ∈ store.released ↔ slot < layout.made ∧ ¬ layout.live slot
  row : ∀ slot, layout.live slot →
    store.Leads (store.node slot).child (layout.rows slot) none
  payload : ∀ slot, layout.live slot → store.payload slot = layout.payload slot
  stray : ∀ slot, layout.Loose slot → (store.node slot).next = layout.stray slot

variable {store : Store} {layout : Layout}

/-! ### From rows to links -/

namespace Represents

theorem inUse_iff (represents : store.Represents layout) (slot : Slot) :
    store.InUse slot ↔ layout.live slot := by
  rw [InUse, represents.mem_released, represents.slots]
  constructor
  · rintro ⟨made, kept⟩
    by_contra idle
    exact kept ⟨made, idle⟩
  · intro live
    exact ⟨represents.isForest.live_made slot live, fun released => released.2 live⟩

/-- Two stores that differ in released slots only represent the same layouts. -/
theorem of_tidied (represents : store.tidied.Represents layout) : store.Represents layout := by
  have inUse : ∀ slot, layout.live slot → store.InUse slot := by
    intro slot live
    rw [← inUse_tidied]
    exact (represents.inUse_iff slot).mpr live
  refine ⟨represents.isForest, ?_, represents.released_nodup, represents.mem_released,
    fun slot live => ?_, fun slot live => ?_, fun slot loose => ?_⟩
  · rw [← represents.slots, slots_tidied]
  · have leads := represents.row slot live
    rw [(inUse slot live).node_tidied] at leads
    exact (leads_tidied fun child member =>
      inUse child (represents.isForest.live_child slot child ⟨live, member⟩)).mp leads
  · rw [← represents.payload slot live, Store.payload, Store.payload,
      (inUse slot live).node_tidied]
  · rw [← represents.stray slot loose, (inUse slot loose.1).node_tidied]

variable (represents : store.Represents layout)

include represents

theorem children {parent : Slot} (live : layout.live parent) :
    store.children parent = layout.rows parent := by
  refine children_eq_of_leads (represents.row parent live) fun child member => ?_
  rw [represents.slots]
  exact represents.isForest.live_made child
    (represents.isForest.live_child parent child ⟨live, member⟩)

theorem leads_tidied {parent : Slot} (live : layout.live parent) :
    store.tidied.Leads (store.tidied.node parent).child (layout.rows parent) none := by
  rw [((represents.inUse_iff parent).mpr live).node_tidied]
  refine (Store.leads_tidied fun child member => ?_).mpr (represents.row parent live)
  exact (represents.inUse_iff child).mpr
    (represents.isForest.live_child parent child ⟨live, member⟩)

theorem children_tidied {parent : Slot} (live : layout.live parent) :
    store.tidied.children parent = layout.rows parent := by
  refine children_eq_of_leads (represents.leads_tidied live) fun child member => ?_
  rw [slots_tidied, represents.slots]
  exact represents.isForest.live_made child
    (represents.isForest.live_child parent child ⟨live, member⟩)

theorem node_tidied_of_not_live {slot : Slot} (idle : ¬ layout.live slot) :
    store.tidied.node slot = {} := by
  by_cases made : slot < store.slots
  · have released : slot ∈ store.released :=
      (represents.mem_released slot).mpr ⟨represents.slots ▸ made, idle⟩
    rw [node_tidied, if_pos released]
  · exact node_of_not_made _ slot (by rw [slots_tidied]; exact Nat.not_lt.mp made)

theorem mem_children_tidied (parent child : Slot) :
    child ∈ store.tidied.children parent ↔ layout.Child parent child := by
  by_cases live : layout.live parent
  · rw [represents.children_tidied live, Layout.Child]
    exact (and_iff_right live).symm
  · rw [children_eq_nil (by rw [represents.node_tidied_of_not_live live])]
    simp [Layout.Child, live]

theorem reaches_tidied : store.tidied.Reaches = layout.Reaches := by
  have same : (fun parent child => child ∈ store.tidied.children parent) = layout.Child := by
    funext parent child
    exact propext (represents.mem_children_tidied parent child)
  rw [Layout.Reaches, ← same]
  rfl

theorem below_tidied : store.tidied.Below = layout.Below := by
  have same : (fun parent child => child ∈ store.tidied.children parent) = layout.Child := by
    funext parent child
    exact propext (represents.mem_children_tidied parent child)
  rw [Layout.Below, ← same]
  rfl

theorem inUse_tidied_iff (slot : Slot) : store.tidied.InUse slot ↔ layout.live slot := by
  rw [inUse_tidied, represents.inUse_iff]

theorem isTop_tidied (slot : Slot) : store.tidied.IsTop slot ↔ layout.Loose slot := by
  rw [IsTop, Layout.Loose, represents.inUse_tidied_iff]
  exact and_congr_right fun _ => forall_congr' fun parent =>
    not_congr (represents.mem_children_tidied parent slot)

/-- **With its released slots emptied, a store that represents an ordered forest is a forest.** -/
theorem forest : store.tidied.Forest where
  ends parent := by
    by_cases live : layout.live parent
    · rw [represents.children_tidied live]
      exact represents.leads_tidied live
    · have blank := represents.node_tidied_of_not_live live
      rw [children_eq_nil (by rw [blank]), blank]
      rfl
  inUse_child parent child member :=
    (represents.inUse_tidied_iff child).mpr (represents.isForest.live_child parent child
      ((represents.mem_children_tidied parent child).mp member))
  sole_parent parent other child member memberToo :=
    represents.isForest.sole_parent parent other child
      ((represents.mem_children_tidied parent child).mp member)
      ((represents.mem_children_tidied other child).mp memberToo)
  grounded slot inUse := by
    obtain ⟨top, loose, reaches⟩ :=
      represents.isForest.exists_loose ((represents.inUse_tidied_iff slot).mp inUse)
    exact ⟨top, (represents.isTop_tidied top).mpr loose, represents.reaches_tidied ▸ reaches⟩
  released_nodup := represents.released_nodup
  released_made slot member := by
    rw [slots_tidied, represents.slots]
    exact ((represents.mem_released slot).mp member).1
  released_blank slot member :=
    represents.node_tidied_of_not_live ((represents.mem_released slot).mp member).2

theorem payload_tidied {slot : Slot} (live : layout.live slot) :
    store.tidied.payload slot = layout.payload slot := by
  rw [← represents.payload slot live, Store.payload, Store.payload,
    ((represents.inUse_iff slot).mpr live).node_tidied]

theorem stray_tidied {slot : Slot} (loose : layout.Loose slot) :
    (store.tidied.node slot).next = layout.stray slot := by
  rw [← represents.stray slot loose, ((represents.inUse_iff slot).mpr loose.1).node_tidied]

end Represents

/-! ### From links to rows -/

/-- **A forest represents the layout that is read off it.** -/
theorem Forest.represents (forest : store.Forest) (slots : store.slots = layout.made)
    (live : ∀ slot, store.InUse slot ↔ layout.live slot)
    (rows : ∀ slot, layout.live slot → store.children slot = layout.rows slot)
    (payload : ∀ slot, layout.live slot → store.payload slot = layout.payload slot)
    (stray : ∀ slot, store.IsTop slot → (store.node slot).next = layout.stray slot) :
    store.Represents layout := by
  have member : ∀ parent child, layout.Child parent child ↔ child ∈ store.children parent := by
    intro parent child
    constructor
    · rintro ⟨liveParent, inRow⟩
      rwa [rows parent liveParent]
    · intro inRow
      have liveParent := (live parent).mp (forest.inUse_parent inRow)
      rw [rows parent liveParent] at inRow
      exact ⟨liveParent, inRow⟩
  have below : layout.Below = store.Below := by
    have same : layout.Child = fun parent child => child ∈ store.children parent := by
      funext parent child
      exact propext (member parent child)
    rw [Layout.Below, same]
    rfl
  refine ⟨⟨fun slot isLive => ?_, fun parent child inRow => ?_, fun parent isLive => ?_,
    fun parent second child inRow inRowToo => ?_, fun slot => ?_⟩, slots, forest.released_nodup,
    fun slot => ?_, fun slot isLive => ?_, payload, fun slot loose => ?_⟩
  · rw [← slots]
    exact ((live slot).mpr isLive).1
  · exact (live child).mp (forest.inUse_child parent child ((member parent child).mp inRow))
  · rw [← rows parent isLive]
    exact forest.children_nodup parent
  · exact forest.sole_parent parent second child ((member parent child).mp inRow)
      ((member second child).mp inRowToo)
  · rw [below]
    exact forest.not_below_self slot
  · rw [← live, ← slots, InUse]
    constructor
    · exact fun released => ⟨forest.released_made slot released, fun kept => kept.2 released⟩
    · rintro ⟨made, idle⟩
      by_contra kept
      exact idle ⟨made, kept⟩
  · rw [← rows slot isLive]
    exact forest.ends slot
  · exact stray slot ⟨(live slot).mpr loose.1, fun parent inRow =>
      loose.2 parent ((member parent slot).mpr inRow)⟩

end SqlDraft.Store
