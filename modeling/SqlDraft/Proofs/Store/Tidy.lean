/-
**Stores whose released slots are not empty.**

A released slot is emptied when it is given back, but its number is still known, and a link can be
written into it later. Such a link is never followed: an operation on slots in use reads slots in
use only, and an allocation fills a released slot anew.

* `Store.tidied`: the same store with all released slots emptied.
* `Store.tidied_detach`, `Store.tidied_discard`, `Store.tidied_eraseChildren` and the like: where
  the tidied store is a forest, an operation and the emptying of released slots commute.
-/

import Mathlib.Data.List.Find
import SqlDraft.Proofs.Store.Erasing

namespace SqlDraft.Store

open Relation

variable {store : Store}

/-- The store with all released slots emptied. -/
def tidied (store : Store) : Store :=
  { store with
    nodes := store.nodes.mapIdx fun slot node => if slot ∈ store.released then {} else node }

@[simp]
theorem slots_tidied (store : Store) : store.tidied.slots = store.slots := by
  simp [tidied, slots]

@[simp]
theorem released_tidied (store : Store) : store.tidied.released = store.released := rfl

@[simp]
theorem fresh_tidied (store : Store) : store.tidied.fresh = store.fresh := by
  rw [fresh, fresh, released_tidied, slots_tidied]

@[simp]
theorem inUse_tidied (store : Store) : store.tidied.InUse = store.InUse := by
  funext slot
  rw [InUse, InUse, slots_tidied, released_tidied]

theorem node_tidied (store : Store) (slot : Slot) :
    store.tidied.node slot = if slot ∈ store.released then {} else store.node slot := by
  by_cases made : slot < store.nodes.size
  · simp [tidied, node, Array.getD_eq_getD_getElem?, made]
  · simp [tidied, node, Array.getD_eq_getD_getElem?, made]

theorem InUse.node_tidied {slot : Slot} (inUse : store.InUse slot) :
    store.tidied.node slot = store.node slot := by
  rw [Store.node_tidied, if_neg inUse.2]

/-- Two stores with the same counts, stack and nodes are the same. -/
theorem eq_of_nodes {first second : Store} (chunkSize : first.chunkSize = second.chunkSize)
    (chunks : first.chunks = second.chunks) (released : first.released = second.released)
    (slots : first.slots = second.slots) (nodes : ∀ slot, first.node slot = second.node slot) :
    first = second := by
  obtain ⟨_, firstNodes, _, _⟩ := first
  obtain ⟨_, secondNodes, _, _⟩ := second
  simp only at chunkSize chunks released
  subst chunkSize chunks released
  have same : firstNodes = secondNodes := by
    refine Array.ext slots fun slot made madeToo => ?_
    simpa [node, Array.getD_eq_getD_getElem?, made, madeToo] using nodes slot
  rw [same]

/-! ### Changes of one node -/

theorem tidied_update {slot : Slot} (inUse : store.InUse slot) (change : Node → Node) :
    (store.update slot change).tidied = store.tidied.update slot change := by
  refine eq_of_nodes rfl rfl rfl (by simp) fun other => ?_
  have made : slot < store.tidied.slots := by rw [slots_tidied]; exact inUse.1
  rw [node_tidied, released_update, node_update _ _ _ inUse.1, node_update _ _ _ made]
  by_cases same : other = slot
  · subst same
    rw [if_neg inUse.2, Function.update_self, Function.update_self, inUse.node_tidied]
  · rw [Function.update_of_ne same, Function.update_of_ne same, node_tidied]

theorem tidied_setNext {slot : Slot} (inUse : store.InUse slot) (next : Option Slot) :
    (store.setNext slot next).tidied = store.tidied.setNext slot next :=
  tidied_update inUse _

theorem tidied_setChild {slot : Slot} (inUse : store.InUse slot) (child : Option Slot) :
    (store.setChild slot child).tidied = store.tidied.setChild slot child :=
  tidied_update inUse _

theorem inUse_setNext (store : Store) (slot : Slot) (next : Option Slot) :
    (store.setNext slot next).InUse = store.InUse :=
  inUse_update store slot _

theorem inUse_setChild (store : Store) (slot : Slot) (child : Option Slot) :
    (store.setChild slot child).InUse = store.InUse :=
  inUse_update store slot _

/-- A slot that is given back is empty either way. -/
theorem tidied_giveBack {slot : Slot} (inUse : store.InUse slot) :
    (store.giveBack slot).tidied = store.tidied.giveBack slot := by
  have slots : (store.giveBack slot).tidied.slots = (store.tidied.giveBack slot).slots := by
    rw [slots_tidied]
    simp [giveBack, Store.slots, update, tidied]
  refine eq_of_nodes rfl rfl rfl slots fun other => ?_
  have made : slot < store.tidied.slots := by rw [slots_tidied]; exact inUse.1
  rw [node_tidied, Forest.node_giveBack store slot inUse.1, Forest.node_giveBack _ slot made]
  have stack : (store.giveBack slot).released = slot :: store.released := rfl
  by_cases same : other = slot
  · subst same
    rw [Function.update_self, Function.update_self, ite_self]
  · rw [Function.update_of_ne same, Function.update_of_ne same, node_tidied, stack]
    simp only [List.mem_cons, same, false_or]

/-- A chunk is reserved where no slot is released and all reserved ones are made. -/
theorem chunks_allocate (store : Store) (payload : Payload) :
    (store.allocate payload).chunks =
      if store.released = [] ∧ store.slots = store.chunks * store.chunkSize then store.chunks + 1
      else store.chunks := by
  unfold allocate
  split
  · next slot rest stack => simp [stack]
  · next stack => simp [stack]

/-- A released slot is filled anew when it is handed out. -/
theorem tidied_allocate (distinct : store.released.Nodup)
    (made : ∀ slot ∈ store.released, slot < store.slots) (payload : Payload) :
    (store.allocate payload).tidied = store.tidied.allocate payload := by
  have madeTidied : ∀ slot ∈ store.tidied.released, slot < store.tidied.slots := by
    rwa [released_tidied, slots_tidied]
  have releasedTidied : (store.tidied.allocate payload).released =
      (store.allocate payload).released := by
    unfold allocate
    rw [released_tidied]
    split <;> rfl
  have chunksTidied : (store.tidied.allocate payload).chunks = (store.allocate payload).chunks := by
    rw [chunks_allocate, chunks_allocate, released_tidied, slots_tidied]
    rfl
  refine eq_of_nodes ?_ ?_ ?_ ?_ fun slot => ?_
  · unfold tidied allocate
    dsimp only
    split <;> rfl
  · exact chunksTidied.symm
  · rw [released_tidied, releasedTidied]
  · rw [slots_tidied, slots_allocate, slots_allocate, slots_tidied, released_tidied]
  · rw [node_tidied]
    by_cases same : slot = store.fresh
    · subst same
      have taken : store.fresh ∉ (store.allocate payload).released := by
        unfold allocate fresh
        cases stack : store.released with
        | nil => exact List.not_mem_nil
        | cons reused rest =>
          rw [stack] at distinct
          exact (List.nodup_cons.mp distinct).1
      have tidiedNode := node_allocate_fresh store.tidied payload madeTidied
      rw [fresh_tidied] at tidiedNode
      rw [if_neg taken, node_allocate_fresh store payload made, tidiedNode]
    · have stack : slot ∈ (store.allocate payload).released ↔ slot ∈ store.released := by
        unfold allocate
        unfold fresh at same
        split
        · next reused rest found =>
          rw [found] at same ⊢
          have different : slot ≠ reused := same
          simp [different]
        · exact Iff.rfl
      have sameTidied : slot ≠ store.tidied.fresh := by rwa [fresh_tidied]
      rw [node_allocate_other store payload slot same,
        node_allocate_other store.tidied payload slot sameTidied, node_tidied]
      simp only [stack]

/-! ### Reading children -/

/-- Sibling links that lead through slots in use are read from these. -/
theorem leads_tidied {first last : Option Slot} {slots : List Slot}
    (inUse : ∀ slot ∈ slots, store.InUse slot) :
    store.tidied.Leads first slots last ↔ store.Leads first slots last := by
  constructor
  · exact fun leads => leads.congr fun slot member => by rw [(inUse slot member).node_tidied]
  · exact fun leads => leads.congr fun slot member => by rw [(inUse slot member).node_tidied]

section Reading

variable {parent : Slot}

theorem children_tidied (forest : store.tidied.Forest) (inUse : store.InUse parent) :
    store.tidied.children parent = store.children parent := by
  have inRow : ∀ child ∈ store.tidied.children parent, store.InUse child := by
    intro child member
    rw [← inUse_tidied]
    exact forest.inUse_child parent child member
  have leads := (leads_tidied inRow).mp (forest.ends parent)
  rw [inUse.node_tidied] at leads
  exact (children_eq_of_leads leads fun child member => (inRow child member).1).symm

theorem firstChild?_tidied (inUse : store.InUse parent) :
    store.tidied.firstChild? parent = store.firstChild? parent := by
  rw [firstChild?, firstChild?, inUse.node_tidied]

theorem lastChild?_tidied (forest : store.tidied.Forest) (inUse : store.InUse parent) :
    store.tidied.lastChild? parent = store.lastChild? parent := by
  rw [lastChild?, lastChild?, children_tidied forest inUse]

theorem inUse_of_mem_children (forest : store.tidied.Forest) (inUse : store.InUse parent)
    {child : Slot} (member : child ∈ store.children parent) : store.InUse child := by
  rw [← children_tidied forest inUse] at member
  rw [← inUse_tidied]
  exact forest.inUse_child parent child member

theorem childBefore?_tidied (forest : store.tidied.Forest) (inUse : store.InUse parent)
    (slot : Slot) : store.tidied.childBefore? parent slot = store.childBefore? parent slot := by
  rw [childBefore?, childBefore?, children_tidied forest inUse]
  refine List.find?_congr fun child member => ?_
  rw [(inUse_of_mem_children forest inUse member).node_tidied]

theorem isChild_tidied (forest : store.tidied.Forest) (inUse : store.InUse parent) (slot : Slot) :
    store.tidied.isChild parent slot = store.isChild parent slot := by
  rw [isChild, isChild, firstChild?_tidied inUse, childBefore?_tidied forest inUse]

end Reading

/-! ### Linking -/

theorem tidied_linkLast (forest : store.tidied.Forest) {parent : Slot}
    (inUse : store.InUse parent) (slot : Slot) :
    (store.linkLast parent slot).tidied = store.tidied.linkLast parent slot := by
  unfold linkLast
  rw [lastChild?_tidied forest inUse]
  cases final : store.lastChild? parent with
  | none => exact tidied_setChild inUse _
  | some last =>
    have member : last ∈ store.children parent := List.mem_of_getLast? final
    exact tidied_setNext (inUse_of_mem_children forest inUse member) _

theorem tidied_linkFirst {parent slot : Slot} (inUse : store.InUse parent)
    (inUseSlot : store.InUse slot) :
    (store.linkFirst parent slot).tidied = store.tidied.linkFirst parent slot := by
  have stillInUse : (store.setNext slot (store.firstChild? parent)).InUse parent := by
    rwa [inUse_setNext]
  unfold linkFirst
  rw [tidied_setChild stillInUse, tidied_setNext inUseSlot, firstChild?_tidied inUse]

theorem tidied_linkAfter {previous slot : Slot} (inUse : store.InUse previous)
    (inUseSlot : store.InUse slot) :
    (store.linkAfter previous slot).tidied = store.tidied.linkAfter previous slot := by
  have stillInUse : (store.setNext slot (store.node previous).next).InUse previous := by
    rwa [inUse_setNext]
  unfold linkAfter
  rw [tidied_setNext stillInUse, tidied_setNext inUseSlot, inUse.node_tidied]

/-! ### Detaching -/

theorem tidied_detach (forest : store.tidied.Forest) {parent slot : Slot}
    (inUse : store.InUse parent) (inUseSlot : store.InUse slot) :
    (store.detach parent slot).tidied = store.tidied.detach parent slot := by
  unfold detach
  simp only [firstChild?_tidied inUse, childBefore?_tidied forest inUse, inUseSlot.node_tidied]
  split
  · have stillInUse : (store.setChild parent (store.node slot).next).InUse slot := by
      rwa [inUse_setChild]
    rw [tidied_setNext stillInUse, tidied_setChild inUse]
  · cases found : store.childBefore? parent slot with
    | none => rfl
    | some previous =>
      have member : previous ∈ store.children parent := List.mem_of_find?_eq_some found
      have stillInUse : (store.setNext previous (store.node slot).next).InUse slot := by
        rwa [inUse_setNext]
      exact (tidied_setNext stillInUse _).trans
        (congrArg (·.setNext slot none)
          (tidied_setNext (inUse_of_mem_children forest inUse member) _))

/-! ### Releasing -/

/-- A row is read after its parent was emptied, which no released slot takes part in. -/
theorem chain_emptied_tidied (forest : store.tidied.Forest) {slot : Slot}
    (isTop : store.tidied.IsTop slot) :
    (store.update slot fun _ => {}).chain (store.node slot).child =
      store.tidied.children slot := by
  have inUse : store.InUse slot := inUse_tidied store ▸ isTop.1
  have inRow : ∀ child ∈ store.tidied.children slot, store.InUse child := by
    intro child member
    rw [← inUse_tidied]
    exact forest.inUse_child slot child member
  have leads := (leads_tidied inRow).mp (forest.ends slot)
  rw [inUse.node_tidied] at leads
  refine chain_eq_of_leads (leads.congr fun child member => ?_) fun child member => ?_
  · rw [node_update_other store slot child _ (isTop.ne_child member).symm]
  · rw [slots_update]
    exact (inRow child member).1

theorem tidied_discardAll (bound : Nat) : ∀ {store : Store}, store.tidied.Forest →
    ∀ {pending : List Slot}, (∀ top ∈ pending, store.tidied.IsTop top) → pending.Nodup →
      (discardAll bound pending store).tidied = discardAll bound pending store.tidied := by
  induction bound with
  | zero => exact fun _ _ _ _ => rfl
  | succ bound step =>
    intro store forest pending tops distinct
    cases pending with
    | nil => rfl
    | cons slot pending =>
      have isTop := tops slot List.mem_cons_self
      have inUse : store.InUse slot := inUse_tidied store ▸ isTop.1
      have given := tidied_giveBack inUse
      have forestNext : (store.giveBack slot).tidied.Forest := given ▸ forest.giveBack isTop
      have topsNext := forest.isTop_of_pending tops distinct
      rw [← given] at topsNext
      rw [discardAll, discardAll, forest.chain_emptied isTop, chain_emptied_tidied forest isTop,
        ← given]
      exact step forestNext topsNext (forest.nodup_of_pending tops distinct)

theorem tidied_discard (forest : store.tidied.Forest) {slot : Slot}
    (isTop : store.tidied.IsTop slot) :
    (store.discard slot).tidied = store.tidied.discard slot := by
  have tops : ∀ top ∈ [slot], store.tidied.IsTop top := fun top member =>
    List.mem_singleton.mp member ▸ isTop
  unfold discard
  rw [slots_tidied]
  exact tidied_discardAll _ forest tops (List.nodup_singleton slot)

theorem tidied_discardChain (bound : Nat) : ∀ {store : Store}, store.tidied.Forest →
    ∀ {first : Option Slot} {row : List Slot}, store.tidied.Leads first row none →
      (∀ top ∈ row, store.tidied.IsTop top) →
        (discardChain bound first store).tidied = discardChain bound first store.tidied := by
  induction bound with
  | zero => exact fun _ _ _ _ _ => rfl
  | succ bound step =>
    intro store forest first row leads tops
    cases row with
    | nil =>
      have absent : first = none := leads
      subst absent
      rfl
    | cons slot rest =>
      have starts := leads.1
      subst starts
      have isTop := tops slot List.mem_cons_self
      have inUse : store.InUse slot := inUse_tidied store ▸ isTop.1
      have cut := tidied_setNext inUse none
      have loose := (forest.loosened isTop none).1
      have stillTop := (forest.isTop_loosened isTop none slot).mpr isTop
      rw [← cut] at loose stillTop
      have given := tidied_discard loose stillTop
      rw [cut] at given
      have forestNext := (forest.pruned_shed isTop).forest
      have leadsNext := forest.leads_shed leads tops
      have topsNext := forest.isTop_shed leads.nodup tops
      rw [← given] at forestNext leadsNext topsNext
      rw [inUse.node_tidied] at leadsNext
      rw [discardChain, discardChain, ← given, inUse.node_tidied]
      exact step forestNext leadsNext topsNext

/-- Nothing is read in released slots when a row is released. -/
theorem tidied_eraseChildren (forest : store.tidied.Forest) {parent : Slot}
    (inUse : store.InUse parent) :
    (store.eraseChildren parent).tidied = store.tidied.eraseChildren parent := by
  have inUseTidied : store.tidied.InUse parent := by rwa [inUse_tidied]
  have cut := forest.cut_off inUseTidied
  have tops : ∀ child ∈ store.tidied.children parent,
      (store.tidied.setChild parent none).IsTop child := fun _ => forest.isTop_cut_off inUseTidied
  have leads := forest.leads_cut_off parent
  rw [firstChild?_tidied inUse] at leads
  rw [← tidied_setChild inUse none] at cut leads tops
  unfold eraseChildren
  rw [slots_tidied, firstChild?_tidied inUse, ← tidied_setChild inUse none]
  exact tidied_discardChain _ cut leads tops

end SqlDraft.Store
