/-
**The store of a draft is one tree and a stack.**

Whatever was called, the slots of a draft are those of one tree, below the statement, and those on
the stack of released slots, and none of them is both:

* `Store.OneTree`: a walk from a node visits what is not released, once.
* `Story.store_is_one_tree`: so does the walk from the statement.
-/

import SqlDraft.Proofs.Run.Kept

namespace SqlDraft

namespace Store

/-- The slots of a store are those of one tree and those on the stack of released ones. -/
structure OneTree (store : Store) (root : Slot) (below : List Slot) : Prop where
  /-- The walk along the child links and the sibling links ends. -/
  visits : store.Visits (some root) (root :: below)
  once : (root :: below).Nodup
  mem_iff : ∀ slot, slot ∈ root :: below ↔ slot < store.slots ∧ slot ∉ store.released
  released_nodup : store.released.Nodup
  released_made : ∀ slot ∈ store.released, slot < store.slots
  inUse_eq : store.inUse = (root :: below).length
  /-- The walk that writes the text is the same one, and its bound is never felt. -/
  preorder_eq : ∀ bound, store.slots ≤ bound →
    store.preorder bound (store.firstChild? root).toList = below

variable {store : Store} {base : Slot} {scopes : List Slot} {rows : Slot → List Tree}

/-- All slots in use hang below the one top node. -/
theorem Drawn.inUse_iff_reaches (drawn : store.Drawn base scopes rows) (slot : Slot) :
    store.InUse slot ↔ store.Reaches base slot := by
  have isTop : store.IsTop base := (drawn.isTop_iff base).mpr rfl
  constructor
  · intro inUse
    obtain ⟨top, isTopToo, reaches⟩ := drawn.forest.grounded slot inUse
    rwa [← (drawn.isTop_iff top).mp isTopToo]
  · exact fun reaches => drawn.forest.inUse_of_reaches reaches isTop.1

/-- The walk from the top node. -/
theorem Drawn.visits (drawn : store.Drawn base scopes rows) :
    store.Visits (some base) (base :: store.below base) := by
  have visits : store.Visits (some base) (base :: (store.below base ++ [])) :=
    Visits.node (drawn.forest.visits_below base) (by rw [drawn.loose]; exact Visits.nothing)
  rwa [List.append_nil] at visits

/-- The link to the top node leads to no other node. -/
theorem Drawn.leads (drawn : store.Drawn base scopes rows) : store.Leads (some base) [base] none :=
  ⟨rfl, drawn.loose⟩

theorem Drawn.mem_walk (drawn : store.Drawn base scopes rows) (slot : Slot) :
    slot ∈ base :: store.below base ↔ store.InUse slot := by
  rw [drawn.inUse_iff_reaches, drawn.forest.mem_visits drawn.visits drawn.leads]
  simp

theorem Drawn.walk_nodup (drawn : store.Drawn base scopes rows) :
    (base :: store.below base).Nodup :=
  drawn.forest.nodup_visits drawn.visits drawn.leads (apart_singleton base)

/-- Slots that are distinct, and just those that are not released, are as many as are in use. -/
theorem inUse_eq_length {visited : List Slot} (distinct : visited.Nodup)
    (member : ∀ slot, slot ∈ visited ↔ store.InUse slot) (releasedOnce : store.released.Nodup)
    (made : ∀ slot ∈ store.released, slot < store.slots) : store.inUse = visited.length := by
  have all : (visited ++ store.released).Perm (List.range store.slots) := by
    refine (List.perm_ext_iff_of_nodup ?_ List.nodup_range).mpr fun slot => ?_
    · refine List.nodup_append.mpr ⟨distinct, releasedOnce, fun slot inWalk other given same => ?_⟩
      exact ((member slot).mp inWalk).2 (same ▸ given)
    · rw [List.mem_append, member, List.mem_range]
      refine ⟨fun either => either.elim And.left (made slot), fun slotMade => ?_⟩
      by_cases given : slot ∈ store.released
      · exact Or.inr given
      · exact Or.inl ⟨slotMade, given⟩
  have lengths := all.length_eq
  rw [List.length_append, List.length_range] at lengths
  unfold inUse
  omega

/-- **A drawn store is one tree and a stack.** -/
theorem Drawn.oneTree (drawn : store.Drawn base scopes rows) :
    store.OneTree base (store.below base) where
  visits := drawn.visits
  once := drawn.walk_nodup
  mem_iff := drawn.mem_walk
  released_nodup := drawn.forest.released_nodup
  released_made := drawn.forest.released_made
  inUse_eq := inUse_eq_length drawn.walk_nodup drawn.mem_walk drawn.forest.released_nodup
    drawn.forest.released_made
  preorder_eq _ enough := drawn.forest.preorder_firstChild base enough

end Store

namespace Story

/-- **The store of a draft is one tree and a stack.** After any moves the walk from the statement
ends, and it visits every slot that is not released once and no other. -/
theorem store_is_one_tree (settings : Settings) (moves : List Move) :
    ∃ below, (after settings moves).draft.store.OneTree (after settings moves).draft.root below := by
  obtain ⟨scopes, outlines, kept⟩ := kept_after settings moves
  exact ⟨_, kept.sketched.drawn.oneTree⟩

end Story

end SqlDraft
