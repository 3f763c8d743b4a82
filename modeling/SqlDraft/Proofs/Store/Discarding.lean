/-
**Discarding a tree in any store.**

A discard reads the links of the slots that it gives back and no others. So it is known what it does
where these links lead through each slot once, whatever is linked elsewhere:

* `Store.Pends`: a work list of a discard, and the slots that it gives back.
* `Store.Visits.exists_pends`: the siblings that a link leads to are a work list.
* **`Store.Visits.released_discard`**: a discard gives back a tree, each slot of it once.
* `Store.Forest.exists_tree`: in a forest this is so for every slot in use.
-/

import SqlDraft.Proofs.Store.Traversal

namespace SqlDraft.Store

variable {store other : Store} {slot : Slot} {link : Option Slot}
  {visited row rest below gone further : List Slot}

/-! ### Work lists -/

/-- A work list of a discard, with the slots that are on it and those that hang below them. -/
inductive Pends (store : Store) : List Slot → List Slot → Prop
  | nil : Pends store [] []
  | cons {slot : Slot} {below rest gone : List Slot}
      (tree : store.Visits (store.node slot).child below) (later : Pends store rest gone) :
      Pends store (slot :: rest) (slot :: (below ++ gone))

/-- What a link leads to depends on the nodes that it leads to. -/
theorem Visits.congr (visits : store.Visits link visited)
    (same : ∀ slot ∈ visited, other.node slot = store.node slot) : other.Visits link visited := by
  induction visits with
  | nothing => exact .nothing
  | @node slot below behind _ _ stepBelow stepBehind =>
    have inBelow := stepBelow fun found member =>
      same found (List.mem_cons_of_mem slot (List.mem_append_left behind member))
    have inBehind := stepBehind fun found member =>
      same found (List.mem_cons_of_mem slot (List.mem_append_right below member))
    rw [← same slot List.mem_cons_self] at inBelow inBehind
    exact .node inBelow inBehind

theorem Pends.congr (pends : store.Pends row gone)
    (same : ∀ slot ∈ gone, other.node slot = store.node slot) : other.Pends row gone := by
  induction pends with
  | nil => exact .nil
  | @cons slot below rest gone tree _ step =>
    have treeToo : other.Visits (store.node slot).child below := tree.congr fun found member =>
      same found (List.mem_cons_of_mem slot (List.mem_append_left gone member))
    rw [← same slot List.mem_cons_self] at treeToo
    exact .cons treeToo (step fun found member =>
      same found (List.mem_cons_of_mem slot (List.mem_append_right below member)))

theorem Pends.append (first : store.Pends row gone) (second : store.Pends rest further) :
    store.Pends (row ++ rest) (gone ++ further) := by
  induction first with
  | nil => exact second
  | @cons slot below row gone tree _ step =>
    rw [List.cons_append, List.cons_append, List.append_assoc]
    exact .cons tree step

/-- A work list that is turned round gives back the same slots. -/
theorem Pends.exists_reverse (pends : store.Pends row gone) :
    ∃ turned, store.Pends row.reverse turned ∧ turned.Perm gone := by
  induction pends with
  | nil => exact ⟨[], .nil, .nil⟩
  | @cons slot below row gone tree _ step =>
    obtain ⟨turned, pends, perm⟩ := step
    rw [List.reverse_cons]
    refine ⟨_, pends.append (.cons tree .nil), ?_⟩
    rw [List.append_nil]
    exact List.perm_append_comm.trans ((perm.append_left below).cons slot)

theorem Pends.subset (pends : store.Pends row gone) : row ⊆ gone := by
  induction pends with
  | nil => exact List.Subset.refl []
  | @cons slot below row gone _ _ step =>
    exact List.cons_subset_cons slot fun found member => List.mem_append_right below (step member)

/-- **The siblings that a link leads to are a work list** for all that it leads to. -/
theorem Visits.exists_pends (visits : store.Visits link visited) :
    ∃ row, store.Leads link row none ∧ store.Pends row visited := by
  induction visits with
  | nothing => exact ⟨[], rfl, .nil⟩
  | @node slot below behind tree _ _ stepBehind =>
    obtain ⟨row, leads, pends⟩ := stepBehind
    exact ⟨slot :: row, ⟨rfl, leads⟩, .cons tree pends⟩

/-! ### Discards -/

/-- One step of a discard: the slot is emptied before its children are read, and they are not it. -/
theorem Visits.exists_step (tree : store.Visits (store.node slot).child below)
    (later : store.Pends rest gone) (apart : (slot :: (below ++ gone)).Nodup)
    (made : ∀ found ∈ below, found < store.slots) :
    ∃ turned, (store.giveBack slot).Pends
        (((store.update slot fun _ => {}).chain (store.node slot).child).reverse ++ rest) turned ∧
      turned.Perm (below ++ gone) := by
  obtain ⟨row, leads, pends⟩ := tree.exists_pends
  obtain ⟨idle, -⟩ := List.nodup_cons.mp apart
  have chain : (store.update slot fun _ => {}).chain (store.node slot).child = row := by
    refine chain_eq_of_leads (leads.congr fun child member => ?_) fun child member => ?_
    · have different : child ≠ slot := by
        rintro rfl
        exact idle (List.mem_append_left gone (pends.subset member))
      rw [node_update_other store slot child _ different]
    · rw [slots_update]
      exact made child (pends.subset member)
  obtain ⟨turned, reversed, perm⟩ := pends.exists_reverse
  rw [chain]
  refine ⟨turned ++ gone, (reversed.append later).congr fun found member => ?_,
    perm.append_right gone⟩
  have different : found ≠ slot := by
    rintro rfl
    exact idle ((perm.append_right gone).subset member)
  exact node_update_other store slot found _ different

/-- **A work list is given back**, each slot once. -/
theorem Pends.released_discardAll (bound : Nat) {store : Store} {row gone : List Slot}
    (pends : store.Pends row gone) (apart : gone.Nodup)
    (made : ∀ slot ∈ gone, slot < store.slots) (enough : gone.length ≤ bound) :
    (discardAll bound row store).released.Perm (gone ++ store.released) := by
  induction bound generalizing store row gone with
  | zero =>
    obtain rfl := List.length_eq_zero_iff.mp (Nat.le_zero.mp enough)
    exact .refl store.released
  | succ bound step =>
    cases pends with
    | nil => exact .refl store.released
    | @cons slot below rest gone tree later =>
      obtain ⟨turned, pends, perm⟩ := tree.exists_step later apart fun found member =>
        made found (List.mem_cons_of_mem slot (List.mem_append_left gone member))
      have slots : (store.giveBack slot).slots = store.slots := slots_update store slot _
      have length : turned.length ≤ bound := by
        rw [perm.length_eq]
        exact Nat.le_of_succ_le_succ enough
      have released := step pends (perm.nodup_iff.mpr (List.nodup_cons.mp apart).2)
        (fun found member =>
          slots ▸ made found (List.mem_cons_of_mem slot (perm.subset member))) length
      have whole : (turned ++ slot :: store.released).Perm
          (slot :: (below ++ gone ++ store.released)) :=
        List.perm_middle.trans ((perm.append_right store.released).cons slot)
      exact released.trans whole

/-- **A discard gives back the slot and what hangs below it**, each slot once. -/
theorem Visits.released_discard (tree : store.Visits (store.node slot).child below)
    (apart : (slot :: below).Nodup) (made : ∀ found ∈ slot :: below, found < store.slots) :
    (store.discard slot).released.Perm (slot :: below ++ store.released) := by
  have enough : (slot :: below).length ≤ 1 + store.slots * store.slots := by
    have bound := length_le_of_made apart made
    have square := Nat.le_mul_self store.slots
    omega
  have pends : store.Pends [slot] (slot :: (below ++ [])) := .cons tree .nil
  rw [List.append_nil] at pends
  exact pends.released_discardAll _ apart made enough

/-- **In a forest a tree hangs below every slot in use**, and all of it is in use. -/
theorem Forest.exists_tree (forest : store.Forest) (inUse : store.InUse slot) :
    ∃ below, store.Visits (store.node slot).child below ∧ (slot :: below).Nodup ∧
      ∀ found ∈ slot :: below, store.InUse found := by
  obtain ⟨below, visits⟩ := forest.exists_visits slot
  have inside := forest.mem_visits visits (forest.ends slot)
  refine ⟨below, visits, List.nodup_cons.mpr ⟨fun member => ?_, forest.nodup_visits visits
    (forest.ends slot) (forest.apart_children slot)⟩, fun found member => ?_⟩
  · obtain ⟨child, isChild, reaches⟩ := (inside slot).mp member
    exact forest.not_reaches_parent isChild reaches
  · rcases List.mem_cons.mp member with rfl | hangs
    · exact inUse
    · obtain ⟨child, isChild, reaches⟩ := (inside found).mp hangs
      exact forest.inUse_of_reaches reaches (forest.inUse_child slot child isChild)

end SqlDraft.Store
