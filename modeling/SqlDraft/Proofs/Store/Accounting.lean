/-
**The counts of a store.**

A store counts the slots that were made, those that are released and the chunks that were reserved.
Whatever is written into its nodes, and whatever trees of them are discarded, the counts are known
from what was handed out and given back:

* `Store.Uses`: what is done to a store, and what is held then.
* `Store.Runs`: any number of uses, with the counts of slots in use since the last reset.
* `Store.Accounts`: what the counts are.
* `Store.Accounts.uses`: no use changes that.
* **`Store.Runs.counts_add_up`**: so they are the same after every run.
-/

import Mathlib.Algebra.Order.Floor.Div
import Mathlib.Order.Bounds.Basic
import SqlDraft.Proofs.Store.Discarding
import SqlDraft.Proofs.Store.Tidy

namespace SqlDraft.Store

/-! ### Runs -/

/-- **A store is used while some slots are held.** A slot is held from when it is handed out until it
is discarded. Anything may be written into any node, but what is discarded is a tree of held slots:
the links below the slot lead through each slot once. -/
inductive Uses : Store → Finset Slot → Store → Finset Slot → Prop
  | allocate {store : Store} {held : Finset Slot} (payload : Payload) :
      Uses store held (store.allocate payload) (insert store.fresh held)
  | update {store : Store} {held : Finset Slot} (slot : Slot) (change : Node → Node) :
      Uses store held (store.update slot change) held
  | discard {store : Store} {held : Finset Slot} {slot : Slot} {below : List Slot}
      (tree : store.Visits (store.node slot).child below) (apart : (slot :: below).Nodup)
      (owned : ∀ found ∈ slot :: below, found ∈ held) :
      Uses store held (store.discard slot) (held \ (slot :: below).toFinset)

/-- **A run of a store**, with the slots that are held at its end and the counts of slots in use
that there were since the last reset. -/
inductive Runs (chunkSize : Nat) : Store → Finset Slot → List Nat → Prop
  | start : Runs chunkSize (empty chunkSize) ∅ [0]
  | use {store other : Store} {held heldToo : Finset Slot} {counts : List Nat}
      (run : Runs chunkSize store held counts) (uses : Uses store held other heldToo) :
      Runs chunkSize other heldToo (other.inUse :: counts)
  | reset {store : Store} {held : Finset Slot} {counts : List Nat}
      (run : Runs chunkSize store held counts) : Runs chunkSize store.reset ∅ [0]

/-! ### What the counts are -/

/-- **What the counts of a store are**, given the slots that are held and the counts of slots in use
since the last reset. -/
structure Accounts (chunkSize : Nat) (store : Store) (held : Finset Slot) (counts : List Nat) :
    Prop where
  reserves : store.chunkSize = max chunkSize 1
  nodup : store.released.Nodup
  made : ∀ slot ∈ store.released, slot < store.slots
  held : ∀ slot, slot ∈ held ↔ store.InUse slot
  chunks : store.chunks = store.slots ⌈/⌉ max chunkSize 1
  greatest : IsGreatest {count | count ∈ counts} store.slots

/-- One more slot needs one more chunk just where all chunks are full. -/
theorem succ_ceilDiv (slots : Nat) {size : Nat} (positive : 0 < size) :
    (slots + 1) ⌈/⌉ size =
      if slots = (slots ⌈/⌉ size) * size then slots ⌈/⌉ size + 1 else slots ⌈/⌉ size := by
  rw [Nat.ceilDiv_eq_add_pred_div, Nat.ceilDiv_eq_add_pred_div, Nat.add_right_comm,
    Nat.add_sub_cancel]
  have least := Nat.div_mul_le_self (slots + size - 1) size
  have most := Nat.lt_div_mul_add (a := slots + size - 1) positive
  split
  · next full =>
    have whole : slots / size = (slots + size - 1) / size :=
      Nat.div_eq_of_eq_mul_left positive full
    rw [Nat.add_div_right slots positive, whole]
  · next room =>
    refine Nat.div_eq_of_lt_le ?_ ?_
    · omega
    · rw [Nat.succ_mul]
      omega

namespace Accounts

variable {store other : Store} {held heldToo : Finset Slot} {counts : List Nat} {chunkSize : Nat}
  {slot : Slot} {below : List Slot}

theorem empty (chunkSize : Nat) : Accounts chunkSize (empty chunkSize) ∅ [0] where
  reserves := rfl
  nodup := List.nodup_nil
  made := nofun
  held slot := iff_of_false (Finset.notMem_empty slot) fun inUse => Nat.not_lt_zero slot inUse.1
  chunks := (zero_ceilDiv _).symm
  greatest := ⟨List.mem_singleton_self 0, fun _ member => (List.mem_singleton.mp member).le⟩

section

variable (accounts : Accounts chunkSize store held counts)
include accounts

/-- The slots that are held are those that were made and not released. -/
theorem card_add_length : held.card + store.released.length = store.slots := by
  have whole : held ∪ store.released.toFinset = Finset.range store.slots := by
    ext slot
    rw [Finset.mem_union, accounts.held, List.mem_toFinset, Finset.mem_range, InUse]
    have made := accounts.made slot
    tauto
  have apart : Disjoint held store.released.toFinset := by
    rw [Finset.disjoint_left]
    exact fun slot isHeld member =>
      ((accounts.held slot).mp isHeld).2 (List.mem_toFinset.mp member)
  rw [← List.toFinset_card_of_nodup accounts.nodup, ← Finset.card_union_of_disjoint apart, whole,
    Finset.card_range]

/-- Where there are not more slots than before, there is no new greatest count. -/
theorem greatest_of_slots (slots : other.slots = store.slots) :
    IsGreatest {count | count ∈ other.inUse :: counts} other.slots := by
  rw [slots]
  refine ⟨List.mem_cons_of_mem _ accounts.greatest.1, fun count member => ?_⟩
  rcases List.mem_cons.mp member with rfl | before
  · rw [inUse, slots]
    exact Nat.sub_le _ _
  · exact accounts.greatest.2 before

theorem update (slot : Slot) (change : Node → Node) :
    Accounts chunkSize (store.update slot change) held
      ((store.update slot change).inUse :: counts) where
  reserves := accounts.reserves
  nodup := accounts.nodup
  made found member := (slots_update store slot change).symm ▸ accounts.made found member
  held found := (inUse_update store slot change).symm ▸ accounts.held found
  chunks := (slots_update store slot change).symm ▸ accounts.chunks
  greatest := accounts.greatest_of_slots (slots_update store slot change)

theorem reset : Accounts chunkSize store.reset ∅ [0] := by
  have same : store.reset = Store.empty chunkSize := by
    rw [Store.reset, accounts.reserves, Store.empty, Store.empty, max_assoc, max_self]
  rw [same]
  exact .empty chunkSize

/-- **A discard releases its slots**, which are then no longer held. -/
theorem discard (tree : store.Visits (store.node slot).child below) (apart : (slot :: below).Nodup)
    (owned : ∀ found ∈ slot :: below, found ∈ held) :
    Accounts chunkSize (store.discard slot) (held \ (slot :: below).toFinset)
      ((store.discard slot).inUse :: counts) := by
  have inUse (found : Slot) (member : found ∈ slot :: below) : store.InUse found :=
    (accounts.held found).mp (owned found member)
  have released := tree.released_discard apart fun found member => (inUse found member).1
  refine ⟨(chunkSize_discard store slot).trans accounts.reserves, ?_, fun found member => ?_,
    fun found => ?_, ?_, accounts.greatest_of_slots (slots_discard store slot)⟩
  · refine released.nodup_iff.mpr (List.nodup_append.mpr
      ⟨apart, accounts.nodup, fun found member other inStack same => ?_⟩)
    exact (inUse found member).2 (same ▸ inStack)
  · rw [slots_discard]
    rcases List.mem_append.mp (released.subset member) with gone | before
    · exact (inUse found gone).1
    · exact accounts.made found before
  · rw [Finset.mem_sdiff, List.mem_toFinset, accounts.held, InUse, InUse, slots_discard,
      released.mem_iff, List.mem_append, not_or]
    tauto
  · rw [chunks_discard, slots_discard, accounts.chunks]

/-- **An allocation takes a released slot**, or makes one where there is none. -/
theorem allocate (payload : Payload) :
    Accounts chunkSize (store.allocate payload) (insert store.fresh held)
      ((store.allocate payload).inUse :: counts) := by
  refine ⟨(chunkSize_allocate store payload).trans accounts.reserves, ?_, fun slot member => ?_,
    fun slot => ?_, ?_, ?_⟩
  · rw [released_allocate]
    exact accounts.nodup.tail
  · rw [released_allocate] at member
    exact made_of_allocate store payload slot (accounts.made slot (List.mem_of_mem_tail member))
  · rw [inUse_allocate_of_made accounts.nodup accounts.made, Finset.mem_insert, accounts.held,
      or_comm]
  · rw [chunks_allocate, slots_allocate, accounts.reserves]
    by_cases none : store.released = []
    · rw [if_pos none, succ_ceilDiv _ (by omega), ← accounts.chunks]
      simp only [none, true_and]
    · rw [if_neg none, if_neg fun both => none both.1, accounts.chunks]
  · by_cases none : store.released = []
    · have more : (store.allocate payload).slots = store.slots + 1 := by
        rw [slots_allocate, if_pos none]
      have all : (store.allocate payload).inUse = store.slots + 1 := by
        rw [inUse, released_allocate, none, more, List.tail_nil, List.length_nil, Nat.sub_zero]
      rw [all, more]
      refine ⟨List.mem_cons_self, fun count member => ?_⟩
      rcases List.mem_cons.mp member with rfl | before
      · exact le_rfl
      · exact (accounts.greatest.2 before).trans (Nat.le_succ _)
    · exact accounts.greatest_of_slots (by rw [slots_allocate, if_neg none])

/-- **No use changes what the counts are.** -/
theorem uses (uses : Uses store held other heldToo) :
    Accounts chunkSize other heldToo (other.inUse :: counts) := by
  cases uses with
  | allocate payload => exact accounts.allocate payload
  | update slot change => exact accounts.update slot change
  | discard tree apart owned => exact accounts.discard tree apart owned

end

end Accounts

namespace Runs

variable {store : Store} {held : Finset Slot} {counts : List Nat} {chunkSize : Nat}
  (run : Runs chunkSize store held counts)
include run

theorem accounts : Accounts chunkSize store held counts := by
  induction run with
  | start => exact .empty chunkSize
  | use _ uses step => exact step.uses uses
  | reset _ step => exact step.reset

/-- **The counts of a store add up after every run.** There are as many slots as were ever in use at
once since the last reset, those of them that are not held are released, and so many chunks are
reserved that the slots fit. The slot that is handed out next is not held, its node is filled anew,
and it is a new one only if no slot is released. Where the links form a forest every slot that is
held may be discarded. -/
theorem counts_add_up :
    IsGreatest {count | count ∈ counts} store.usage.slots ∧
      store.inUse = held.card ∧ held.card ≤ store.usage.slots ∧
      store.usage.released = store.usage.slots - held.card ∧
      store.usage.chunks = store.usage.slots ⌈/⌉ max chunkSize 1 ∧
      store.fresh ∉ held ∧
      (∀ payload, (store.allocate payload).node store.fresh = { payload }) ∧
      (∀ payload, (store.allocate payload).usage.slots =
        if store.released = [] then store.usage.slots + 1 else store.usage.slots) ∧
      (store.released ≠ [] → store.fresh ∈ store.released) ∧
      (store.Forest → ∀ slot ∈ held, ∃ heldToo, Uses store held (store.discard slot) heldToo) := by
  have accounts := run.accounts
  have total := accounts.card_add_length
  refine ⟨accounts.greatest, ?_, ?_, ?_, accounts.chunks, fun member => ?_,
    fun payload => node_allocate_fresh store payload accounts.made, store.slots_allocate,
    fun some_ => ?_, fun forest slot member => ?_⟩
  · rw [inUse]
    omega
  · show held.card ≤ store.slots
    omega
  · show store.released.length = store.slots - held.card
    omega
  · exact store.fresh_not_inUse ((accounts.held _).mp member)
  · obtain ⟨slot, rest, stack⟩ := List.exists_cons_of_ne_nil some_
    rw [fresh, stack]
    exact List.mem_cons_self
  · obtain ⟨below, tree, apart, inUse⟩ := forest.exists_tree ((accounts.held slot).mp member)
    exact ⟨_, .discard tree apart fun found hangs => (accounts.held found).mpr (inUse found hangs)⟩

end Runs

/-- A chunk is filled by a node with one below it, and a third node needs another chunk. -/
def twoChunks : Store :=
  ((((empty 2).allocate .blank).allocate .blank).update 0 fun node =>
    { node with child := some 1 }).allocate .blank

/-- The first two nodes are discarded as one tree, and one of their slots is handed out again. -/
theorem counts_add_up_recycled :
    Runs 2 ((twoChunks.discard 0).allocate .blank) {1, 2} [2, 1, 3, 2, 2, 1, 0] ∧
      ((twoChunks.discard 0).allocate .blank).usage = ⟨3, 1, 2⟩ ∧
      IsGreatest {count | count ∈ [2, 1, 3, 2, 2, 1, 0]} 3 ∧ 1 = 3 - 2 ∧ 2 = 3 ⌈/⌉ 2 := by
  have started : Runs 2 (empty 2) ∅ [0] := .start
  have before : Runs 2 twoChunks {2, 1, 0} [3, 2, 2, 1, 0] :=
    (((started.use (.allocate .blank)).use (.allocate .blank)).use (.update 0 _)).use
      (.allocate .blank)
  have discarded : Runs 2 (twoChunks.discard 0) {2} [1, 3, 2, 2, 1, 0] := by
    have tree : twoChunks.Visits (twoChunks.node 0).child [1] :=
      @Visits.node twoChunks 1 [] [] .nothing .nothing
    exact before.use (.discard tree (by decide) (by decide))
  have run : Runs 2 ((twoChunks.discard 0).allocate .blank) {1, 2} [2, 1, 3, 2, 2, 1, 0] :=
    discarded.use (.allocate .blank)
  obtain ⟨greatest, -, -, released, chunks, -⟩ := run.counts_add_up
  exact ⟨run, by decide, greatest, released, chunks⟩

end SqlDraft.Store
