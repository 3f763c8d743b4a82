/-
**Forests that lose whole subtrees.**

A release empties a slot before its children are read, so the work left is always a row of top
nodes, and every step gives back one slot in use:

* `Store.reaches_cut`: what a way becomes when one row is cut off.
* `Store.Forest.giveBack`: a top node can be given back.
* `Store.Pruned`: some slots were given back, and the nodes of all others are as they were.
* `Store.Forest.pruned_discard`: releasing a top node gives back the slots it reaches.
* `Store.frame_discardAll`: a release makes no slot and reserves none, in a forest or not.
-/

import SqlDraft.Proofs.Store.Linking

namespace SqlDraft.Store

open Relation

variable {store other : Store}

/-! ### What a release never changes -/

/-- A release makes no slot and reserves none. -/
theorem frame_discardAll (bound : Nat) (pending : List Slot) (store : Store) :
    (discardAll bound pending store).slots = store.slots ∧
      (discardAll bound pending store).chunkSize = store.chunkSize ∧
      (discardAll bound pending store).chunks = store.chunks := by
  induction bound generalizing pending store with
  | zero => exact ⟨rfl, rfl, rfl⟩
  | succ bound step =>
    cases pending with
    | nil => exact ⟨rfl, rfl, rfl⟩
    | cons slot pending =>
      obtain ⟨slots, chunkSize, chunks⟩ := step _ (store.giveBack slot)
      exact ⟨slots.trans (slots_update store slot _), chunkSize, chunks⟩

@[simp]
theorem slots_discard (store : Store) (slot : Slot) : (store.discard slot).slots = store.slots :=
  (frame_discardAll _ _ store).1

@[simp]
theorem chunkSize_discard (store : Store) (slot : Slot) :
    (store.discard slot).chunkSize = store.chunkSize :=
  (frame_discardAll _ _ store).2.1

@[simp]
theorem chunks_discard (store : Store) (slot : Slot) : (store.discard slot).chunks = store.chunks :=
  (frame_discardAll _ _ store).2.2

/-! ### Cutting a row off -/

/-- A way in a forest still exists after one row was cut off, or it passed this row. -/
theorem reaches_cut {parent : Slot} (rows : other.children = Function.update store.children parent [])
    {first last : Slot} (reaches : store.Reaches first last) :
    other.Reaches first last ∨ ∃ child ∈ store.children parent, other.Reaches child last := by
  induction reaches using ReflTransGen.head_induction_on with
  | refl => exact Or.inl ReflTransGen.refl
  | @head above child member _ step =>
    cases step with
    | inr passed => exact Or.inr passed
    | inl further =>
      by_cases same : above = parent
      · subst same
        exact Or.inr ⟨child, member, further⟩
      · refine Or.inl (ReflTransGen.head ?_ further)
        rwa [rows, Function.update_of_ne same]

/-- A way after one row was cut off existed before. -/
theorem reaches_of_cut {parent : Slot}
    (rows : other.children = Function.update store.children parent [])
    {first last : Slot} (reaches : other.Reaches first last) : store.Reaches first last := by
  refine reaches.mono fun row child member => ?_
  rw [rows] at member
  by_cases same : row = parent
  · subst same
    rw [Function.update_self] at member
    exact absurd member List.not_mem_nil
  · rwa [Function.update_of_ne same] at member

/-! ### Giving back one slot -/

namespace Forest

theorem node_giveBack (store : Store) (slot : Slot) (made : slot < store.slots) :
    (store.giveBack slot).node = Function.update store.node slot {} :=
  node_update store slot (fun _ => {}) made

theorem inUse_giveBack (store : Store) (slot found : Slot) :
    (store.giveBack slot).InUse found ↔ store.InUse found ∧ found ≠ slot := by
  have sameSlots : (store.giveBack slot).slots = store.slots := slots_update store slot fun _ => {}
  rw [InUse, InUse, sameSlots]
  simp only [giveBack, List.mem_cons, not_or]
  tauto

theorem ends_giveBack (forest : store.Forest) {slot : Slot} (isTop : store.IsTop slot)
    (row : Slot) : (store.giveBack slot).Leads ((store.giveBack slot).node row).child
      (Function.update store.children slot [] row) none := by
  rw [node_giveBack store slot isTop.1.1]
  by_cases same : row = slot
  · subst same
    rw [Function.update_self, Function.update_self]
    rfl
  · rw [Function.update_of_ne same, Function.update_of_ne same]
    refine (forest.ends row).congr fun member inRow => ?_
    rw [node_giveBack store slot isTop.1.1, Function.update_of_ne (isTop.ne_child inRow).symm]

theorem children_giveBack (forest : store.Forest) {slot : Slot} (isTop : store.IsTop slot) :
    (store.giveBack slot).children = Function.update store.children slot [] := by
  refine children_eq_of_ends (forest.ends_giveBack isTop) fun row child member => ?_
  have sameSlots : (store.giveBack slot).slots = store.slots := slots_update store slot fun _ => {}
  rw [sameSlots]
  by_cases same : row = slot
  · subst same
    rw [Function.update_self] at member
    exact absurd member List.not_mem_nil
  · rw [Function.update_of_ne same] at member
    exact (forest.inUse_child row child member).1

theorem mem_children_giveBack (forest : store.Forest) {slot : Slot} (isTop : store.IsTop slot)
    {row child : Slot} (member : child ∈ (store.giveBack slot).children row) :
    row ≠ slot ∧ child ∈ store.children row := by
  rw [forest.children_giveBack isTop] at member
  by_cases same : row = slot
  · subst same
    rw [Function.update_self] at member
    exact absurd member List.not_mem_nil
  · rw [Function.update_of_ne same] at member
    exact ⟨same, member⟩

/-- The children of a top node that was given back are top nodes. -/
theorem isTop_giveBack (forest : store.Forest) {slot : Slot} (isTop : store.IsTop slot)
    (found : Slot) : (store.giveBack slot).IsTop found ↔
      (store.IsTop found ∧ found ≠ slot) ∨ found ∈ store.children slot := by
  constructor
  · rintro ⟨inUse, orphan⟩
    obtain ⟨before, different⟩ := (inUse_giveBack store slot found).mp inUse
    by_cases inRow : found ∈ store.children slot
    · exact Or.inr inRow
    · refine Or.inl ⟨⟨before, fun row member => ?_⟩, different⟩
      by_cases same : row = slot
      · exact inRow (same ▸ member)
      · refine orphan row ?_
        rwa [forest.children_giveBack isTop, Function.update_of_ne same]
  · rintro (⟨⟨inUse, orphan⟩, different⟩ | inRow)
    · refine ⟨(inUse_giveBack store slot found).mpr ⟨inUse, different⟩, fun row member => ?_⟩
      exact orphan row (forest.mem_children_giveBack isTop member).2
    · refine ⟨(inUse_giveBack store slot found).mpr
        ⟨forest.inUse_child _ _ inRow, (isTop.ne_child inRow).symm⟩, fun row member => ?_⟩
      obtain ⟨different, memberBefore⟩ := forest.mem_children_giveBack isTop member
      exact different (forest.sole_parent _ _ _ memberBefore inRow)

/-- **A top node can be given back**: what hung below it stays in use. -/
theorem giveBack (forest : store.Forest) {slot : Slot} (isTop : store.IsTop slot) :
    (store.giveBack slot).Forest where
  ends row := by
    rw [forest.children_giveBack isTop]
    exact forest.ends_giveBack isTop row
  inUse_child row child member := by
    have before := (forest.mem_children_giveBack isTop member).2
    exact (inUse_giveBack store slot child).mpr
      ⟨forest.inUse_child _ _ before, (isTop.ne_child before).symm⟩
  sole_parent row second child member memberToo :=
    forest.sole_parent row second child (forest.mem_children_giveBack isTop member).2
      (forest.mem_children_giveBack isTop memberToo).2
  grounded found inUse := by
    obtain ⟨before, different⟩ := (inUse_giveBack store slot found).mp inUse
    obtain ⟨top, topIsTop, reaches⟩ := forest.grounded found before
    cases reaches_cut (forest.children_giveBack isTop) reaches with
    | inr passed =>
      obtain ⟨child, inRow, further⟩ := passed
      exact ⟨child, (forest.isTop_giveBack isTop child).mpr (Or.inr inRow), further⟩
    | inl further =>
      by_cases same : top = slot
      · subst same
        cases ReflTransGen.cases_head further with
        | inl here => exact absurd here.symm different
        | inr foundBelow =>
          obtain ⟨child, member, _⟩ := foundBelow
          exact absurd rfl (forest.mem_children_giveBack isTop member).1
      · exact ⟨top, (forest.isTop_giveBack isTop top).mpr (Or.inl ⟨topIsTop, same⟩), further⟩
  released_nodup := List.nodup_cons.mpr ⟨isTop.1.2, forest.released_nodup⟩
  released_made found member := by
    have sameSlots : (store.giveBack slot).slots = store.slots :=
      slots_update store slot fun _ => {}
    rw [sameSlots]
    cases List.mem_cons.mp member with
    | inl same => exact same ▸ isTop.1.1
    | inr before => exact forest.released_made found before
  released_blank found member := by
    rw [node_giveBack store slot isTop.1.1]
    by_cases same : found = slot
    · subst same
      rw [Function.update_self]
    · rw [Function.update_of_ne same]
      have before : found ∈ store.released :=
        (List.mem_cons.mp member).resolve_left same
      exact forest.released_blank found before

theorem inUse_giveBack_lt (forest : store.Forest) {slot : Slot} (isTop : store.IsTop slot) :
    (store.giveBack slot).inUse + 1 = store.inUse := by
  have sameSlots : (store.giveBack slot).slots = store.slots := slots_update store slot fun _ => {}
  have distinct : (slot :: store.released).Nodup :=
    List.nodup_cons.mpr ⟨isTop.1.2, forest.released_nodup⟩
  have room : (slot :: store.released).length ≤ store.slots := by
    refine length_le_of_made distinct fun found member => ?_
    cases List.mem_cons.mp member with
    | inl same => exact same ▸ isTop.1.1
    | inr before => exact forest.released_made found before
  have longer : (store.giveBack slot).released.length = store.released.length + 1 := rfl
  rw [List.length_cons] at room
  rw [Store.inUse, Store.inUse, sameSlots, longer]
  omega

end Forest

/-! ### Releasing subtrees -/

/-- Some slots were given back, and the nodes in all others are as they were. -/
structure Pruned (store other : Store) (gone : Slot → Prop) : Prop where
  forest : other.Forest
  inUse : ∀ slot, other.InUse slot ↔ store.InUse slot ∧ ¬ gone slot
  node : ∀ slot, ¬ gone slot → other.node slot = store.node slot
  children : ∀ slot, ¬ gone slot → other.children slot = store.children slot

namespace Forest

/-- The children of a top node are read after it was emptied. -/
theorem chain_emptied (forest : store.Forest) {slot : Slot} (isTop : store.IsTop slot) :
    (store.update slot fun _ => {}).chain (store.node slot).child = store.children slot := by
  refine chain_eq_of_leads ((forest.ends slot).congr fun member inRow => ?_)
    fun member inRow => by
      rw [slots_update]
      exact (forest.inUse_child slot member inRow).1
  rw [node_update_other store slot member _ (isTop.ne_child inRow).symm]

/-- The work list stays one of top nodes. -/
theorem isTop_of_pending (forest : store.Forest) {slot : Slot} {pending : List Slot}
    (tops : ∀ top ∈ slot :: pending, store.IsTop top) (distinct : (slot :: pending).Nodup) :
    ∀ top ∈ (store.children slot).reverse ++ pending, (store.giveBack slot).IsTop top := by
  intro top member
  rw [forest.isTop_giveBack (tops slot List.mem_cons_self)]
  cases List.mem_append.mp member with
  | inl inRow => exact Or.inr (List.mem_reverse.mp inRow)
  | inr inRest =>
    refine Or.inl ⟨tops top (List.mem_cons_of_mem slot inRest), ?_⟩
    rintro rfl
    exact (List.nodup_cons.mp distinct).1 inRest

/-- The work list stays without repetitions. -/
theorem nodup_of_pending (forest : store.Forest) {slot : Slot} {pending : List Slot}
    (tops : ∀ top ∈ slot :: pending, store.IsTop top) (distinct : (slot :: pending).Nodup) :
    ((store.children slot).reverse ++ pending).Nodup := by
  refine List.nodup_append.mpr ⟨List.nodup_reverse.mpr (forest.children_nodup slot),
    (List.nodup_cons.mp distinct).2, fun child inRow top inRest same => ?_⟩
  subst same
  exact (tops child (List.mem_cons_of_mem slot inRest)).2 slot (List.mem_reverse.mp inRow)

/-- A step of the release does not change what is released in the end. -/
theorem reached_iff_of_pending (forest : store.Forest) {slot : Slot} (isTop : store.IsTop slot)
    (pending : List Slot) (found : Slot) :
    (found = slot ∨ ∃ top ∈ (store.children slot).reverse ++ pending,
      (store.giveBack slot).Reaches top found) ↔
      ∃ top ∈ slot :: pending, store.Reaches top found := by
  have rows := forest.children_giveBack isTop
  constructor
  · rintro (same | ⟨top, member, reaches⟩)
    · exact ⟨slot, List.mem_cons_self, same ▸ ReflTransGen.refl⟩
    · have before := reaches_of_cut rows reaches
      cases List.mem_append.mp member with
      | inl inRow =>
        exact ⟨slot, List.mem_cons_self,
          (reaches_child (List.mem_reverse.mp inRow)).trans before⟩
      | inr inRest => exact ⟨top, List.mem_cons_of_mem slot inRest, before⟩
  · rintro ⟨top, member, reaches⟩
    cases reaches_cut rows reaches with
    | inr passed =>
      obtain ⟨child, inRow, further⟩ := passed
      exact Or.inr ⟨child, List.mem_append_left _ (List.mem_reverse.mpr inRow), further⟩
    | inl further =>
      cases List.mem_cons.mp member with
      | inr inRest => exact Or.inr ⟨top, List.mem_append_right _ inRest, further⟩
      | inl same =>
        subst same
        cases ReflTransGen.cases_head further with
        | inl here => exact Or.inl here.symm
        | inr foundBelow =>
          obtain ⟨child, inRow, _⟩ := foundBelow
          exact absurd rfl (forest.mem_children_giveBack isTop inRow).1

end Forest

/-- **A work list of top nodes is released with all that hangs below them.** -/
theorem Forest.pruned_discardAll (bound : Nat) : ∀ {store : Store}, store.Forest →
    ∀ {pending : List Slot}, (∀ top ∈ pending, store.IsTop top) → pending.Nodup →
      store.inUse ≤ bound →
        store.Pruned (discardAll bound pending store)
          fun slot => ∃ top ∈ pending, store.Reaches top slot := by
  induction bound with
  | zero =>
    intro store forest pending tops _ enough
    -- A pending slot is in use, so there is none.
    have nothing : pending = [] := by
      cases pending with
      | nil => rfl
      | cons slot rest =>
        have counted := forest.inUse_giveBack_lt (tops slot List.mem_cons_self)
        omega
    subst nothing
    exact ⟨forest, by simp [discardAll], fun _ _ => rfl, fun _ _ => rfl⟩
  | succ bound step =>
    intro store forest pending tops distinct enough
    cases pending with
    | nil => exact ⟨forest, by simp [discardAll], fun _ _ => rfl, fun _ _ => rfl⟩
    | cons slot pending =>
      have isTop := tops slot List.mem_cons_self
      have counted := forest.inUse_giveBack_lt isTop
      have goneIff := forest.reached_iff_of_pending isTop pending
      have pruned := step (forest.giveBack isTop) (forest.isTop_of_pending tops distinct)
        (forest.nodup_of_pending tops distinct) (by omega)
      rw [discardAll, forest.chain_emptied isTop]
      refine ⟨pruned.forest, fun found => ?_, fun found kept => ?_, fun found kept => ?_⟩
      · rw [pruned.inUse, inUse_giveBack, ← goneIff, not_or, and_assoc]
      · rw [← goneIff, not_or] at kept
        rw [pruned.node found kept.2, node_giveBack store slot isTop.1.1,
          Function.update_of_ne kept.1]
      · rw [← goneIff, not_or] at kept
        rw [pruned.children found kept.2, forest.children_giveBack isTop,
          Function.update_of_ne kept.1]

/-- **Releasing a top node gives back the slots it reaches.** -/
theorem Forest.pruned_discard (forest : store.Forest) {slot : Slot} (isTop : store.IsTop slot) :
    store.Pruned (store.discard slot) (store.Reaches slot) := by
  have enough : store.inUse ≤ 1 + store.slots * store.slots := by
    have square := Nat.le_mul_self store.slots
    unfold Store.inUse
    omega
  have tops : ∀ top ∈ [slot], store.IsTop top := fun top member =>
    List.mem_singleton.mp member ▸ isTop
  have pruned := Forest.pruned_discardAll _ forest tops (List.nodup_singleton slot) enough
  have goneIff : ∀ found, (∃ top ∈ [slot], store.Reaches top found) ↔
      store.Reaches slot found := by simp
  refine ⟨pruned.forest, fun found => ?_, fun found kept => ?_, fun found kept => ?_⟩
  · rw [Store.discard, pruned.inUse, goneIff]
  · exact pruned.node found fun gone => kept ((goneIff found).mp gone)
  · exact pruned.children found fun gone => kept ((goneIff found).mp gone)

end SqlDraft.Store
