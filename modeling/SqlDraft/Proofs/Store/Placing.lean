/-
**Clauses in any store.**

A clause is looked for and placed in one row of children, and only this row has to end and to be in
the order of its ranks. Whatever else is linked in the store, be it shared or in a circle, a fresh
slot stands in no such row if released slots are linked nowhere:

* `Store.Sealed`: no slot in use is linked to a released one.
* `Store.HasRow`: the children of a node are a row that ends.
* `Store.Leads.linkFirst`, `Store.Leads.linkAfter`: a slot is put into a row.
* **`Store.HasRow.addClause`**: a clause is put into a row, between its front and its back.
* `Store.Ranked.addClause`: the ranks in the row still never fall.
* **`Store.clauses_found_and_placed`**: a clause is found if there is one, is added behind the
  clauses of its rank or a lower one, and is added once at most.
-/

import SqlDraft.Proofs.Store.ListOperations
import SqlDraft.Proofs.Store.Overwriting
import SqlDraft.Proofs.Store.Ranks
import SqlDraft.Store.Script

namespace SqlDraft.Store

/-- No slot in use is linked to a released one, and all released slots were made. -/
structure Sealed (store : Store) : Prop where
  released_made : ∀ slot ∈ store.released, slot < store.slots
  next_kept : ∀ slot, store.InUse slot → ∀ next ∈ (store.node slot).next, next ∉ store.released
  child_kept : ∀ slot, store.InUse slot → ∀ child ∈ (store.node slot).child,
    child ∉ store.released

/-- The children of a node are a row that ends. A released node has none of them. -/
structure HasRow (store : Store) (parent : Slot) (row : List Slot) : Prop where
  made : parent < store.slots
  row_made : ∀ child ∈ row, child < store.slots
  childless : parent ∈ store.released → (store.node parent).child = none
  leads : store.Leads (store.node parent).child row none

variable {store : Store} {parent slot previous : Slot} {first : Option Slot}
  {row front back : List Slot}

/-! ### Allocating beside a row -/

theorem fresh_made (made : ∀ slot ∈ store.released, slot < store.slots) (payload : Payload) :
    store.fresh < (store.allocate payload).slots := by
  rw [slots_allocate, fresh]
  cases stack : store.released with
  | nil => exact Nat.lt_succ_self store.slots
  | cons reused rest => exact made reused (stack ▸ List.mem_cons_self)

/-- Sibling links that do not start with a released slot never come to one. -/
theorem Sealed.inUse_of_leads (isSealed : store.Sealed) (leads : store.Leads first row none)
    (made : ∀ child ∈ row, child < store.slots) (starts : ∀ slot ∈ first, slot ∉ store.released) :
    ∀ child ∈ row, store.InUse child := by
  induction row generalizing first with
  | nil => exact fun child member => absurd member List.not_mem_nil
  | cons slot rest step =>
    obtain ⟨rfl, further⟩ := leads
    obtain ⟨madeSlot, madeRest⟩ := List.forall_mem_cons.mp made
    have inUse : store.InUse slot := ⟨madeSlot, starts slot rfl⟩
    exact List.forall_mem_cons.mpr
      ⟨inUse, step further madeRest (isSealed.next_kept slot inUse)⟩

namespace HasRow

variable (hasRow : store.HasRow parent row)

include hasRow

theorem inUse_row (isSealed : store.Sealed) : ∀ child ∈ row, store.InUse child := by
  refine isSealed.inUse_of_leads hasRow.leads hasRow.row_made fun child starts => ?_
  by_cases released : parent ∈ store.released
  · rw [hasRow.childless released] at starts
    cases starts
  · exact isSealed.child_kept parent ⟨hasRow.made, released⟩ child starts

theorem children_eq : store.children parent = row :=
  children_eq_of_leads hasRow.leads hasRow.row_made

/-- A row does not feel an allocation, even where the node itself is what is handed out. -/
theorem leads_allocate (isSealed : store.Sealed) (payload : Payload) :
    (store.allocate payload).Leads ((store.allocate payload).node parent).child row none := by
  have kept : (store.allocate payload).Leads (store.node parent).child row none :=
    hasRow.leads.congr fun child member => by
      rw [node_allocate_other store payload child (hasRow.inUse_row isSealed child member).ne_fresh]
  by_cases same : parent = store.fresh
  · have released : parent ∈ store.released :=
      not_not.mp fun absent => store.fresh_not_inUse (same ▸ ⟨hasRow.made, absent⟩)
    rw [hasRow.childless released] at kept
    rw [same, node_allocate_fresh store payload isSealed.released_made]
    exact kept
  · rwa [node_allocate_other store payload parent same]

theorem children_allocate (isSealed : store.Sealed) (payload : Payload) :
    (store.allocate payload).children parent = row :=
  children_eq_of_leads (hasRow.leads_allocate isSealed payload) fun child member =>
    made_of_allocate store payload child (hasRow.inUse_row isSealed child member).1

theorem clauseFront_allocate (isSealed : store.Sealed) (payload : Payload) (word : Keyword) :
    (store.allocate payload).clauseFront parent word = store.clauseFront parent word := by
  unfold clauseFront
  rw [hasRow.children_allocate isSealed, hasRow.children_eq]
  refine takeWhile_of_agree fun child member => ?_
  have inUse := hasRow.inUse_row isSealed child member
  rw [passRank, passRank, node_allocate_other store payload child inUse.ne_fresh]

end HasRow

/-! ### Adding a clause -/

theorem slots_addClause (store : Store) (parent : Slot) (word : Keyword) :
    (store.addClause parent word).slots = (store.allocate (.keyword word)).slots := by
  simp only [addClause]
  split
  · rw [linkAfter, slots_setNext, slots_setNext]
  · rw [linkFirst, slots_setChild, slots_setNext]

namespace HasRow

variable (hasRow : store.HasRow parent row)

include hasRow

theorem row_eq (word : Keyword) :
    store.clauseFront parent word ++ store.clauseBack parent word = row :=
  (store.clauseFront_append_clauseBack parent word).trans hasRow.children_eq

/-- **A clause is put into its row**, between the children that it goes behind and the others. -/
theorem addClause (isSealed : store.Sealed) (word : Keyword) :
    (store.addClause parent word).Leads ((store.addClause parent word).node parent).child
      (store.clauseFront parent word ++ store.fresh :: store.clauseBack parent word) none := by
  have allocated := hasRow.leads_allocate isSealed (.keyword word)
  have absent : store.fresh ∉ row := fun member =>
    store.fresh_not_inUse (hasRow.inUse_row isSealed _ member)
  have made := made_of_allocate store (.keyword word)
  have madeFresh := fresh_made isSealed.released_made (.keyword word)
  have row_eq := hasRow.row_eq word
  have found : (store.allocate (.keyword word)).clauseBefore? parent word =
      (store.clauseFront parent word).getLast? :=
    congrArg List.getLast? (hasRow.clauseFront_allocate isSealed _ word)
  simp only [Store.addClause, found]
  cases final : (store.clauseFront parent word).getLast? with
  | none =>
    rw [List.getLast?_eq_none_iff.mp final, List.nil_append] at row_eq ⊢
    rw [row_eq]
    exact allocated.linkFirst absent madeFresh (made parent hasRow.made)
  | some previous =>
    obtain ⟨front, split⟩ := List.getLast?_eq_some_iff.mp final
    rw [split, List.append_assoc, List.singleton_append] at row_eq ⊢
    rw [← row_eq] at allocated absent
    have inUse := hasRow.inUse_row isSealed previous (by rw [← row_eq]; simp)
    have linked := allocated.linkAfter absent madeFresh (made previous inUse.1)
    rwa [← child_linkAfter previous store.fresh parent] at linked

theorem children_addClause (isSealed : store.Sealed) (word : Keyword) :
    (store.addClause parent word).children parent =
      store.clauseFront parent word ++ store.fresh :: store.clauseBack parent word := by
  refine children_eq_of_leads (hasRow.addClause isSealed word) fun child member => ?_
  rw [slots_addClause]
  rcases List.mem_cons.mp (List.perm_middle.subset member) with rfl | old
  · exact fresh_made isSealed.released_made _
  · rw [hasRow.row_eq] at old
    exact made_of_allocate store _ child (hasRow.inUse_row isSealed child old).1

end HasRow

/-- Linking changes no payload, so only the fresh slot gets one. -/
theorem Sealed.payload_addClause (isSealed : store.Sealed) (parent : Slot) (word : Keyword) :
    (store.addClause parent word).payload =
      Function.update store.payload store.fresh (.keyword word) := by
  have allocated : (store.allocate (.keyword word)).payload =
      Function.update store.payload store.fresh (.keyword word) := by
    funext slot
    by_cases same : slot = store.fresh
    · rw [same, Function.update_self, payload,
        node_allocate_fresh store _ isSealed.released_made]
    · rw [Function.update_of_ne same, payload, node_allocate_other store _ slot same, payload]
  rw [← allocated]
  simp only [Store.addClause]
  split
  · rw [linkAfter, payload_setNext, payload_setNext]
  · rw [linkFirst, payload_setChild, payload_setNext]

/-! ### The order of ranks -/

namespace Ranked

variable (ranked : store.Ranked row)

include ranked

/-- **A new clause goes behind the clauses of its rank or a lower one, and before those of a higher
rank.** -/
theorem low_or_high (row_eq : store.children parent = row) {word : Keyword} {rank : Nat}
    (known : word.rank? = some rank) :
    (∀ child ∈ store.clauseFront parent word, ∀ low ∈ (store.payload child).rank?, low ≤ rank) ∧
      ∀ child ∈ store.clauseBack parent word, ∀ high ∈ (store.payload child).rank?,
        rank < high := by
  have place : placeRank word = rank := by rw [placeRank, known, Option.getD_some]
  constructor
  · intro child member low found
    have passed := of_decide_eq_true (List.all_eq_true.mp List.all_takeWhile child member)
    rwa [place, passRank, ← payload, found, Option.getD_some] at passed
  · have sorted : store.Ranked (store.clauseBack parent word) := by
      rw [clauseBack, row_eq]
      exact List.Pairwise.sublist (List.dropWhile_sublist _) ranked
    -- The first child behind has a rank, since it was not passed over, and no later one is lower.
    have stops := List.head?_dropWhile_not (fun child => decide (store.passRank child ≤
      placeRank word)) (store.children parent)
    rw [← clauseBack, place] at stops
    cases back : store.clauseBack parent word with
    | nil => exact fun child member => absurd member List.not_mem_nil
    | cons first rest =>
      rw [back] at stops sorted
      have higher : rank < store.passRank first := Nat.lt_of_not_le (of_decide_eq_false stops)
      obtain ⟨least, isRank, above⟩ : ∃ least, (store.payload first).rank? = some least ∧
          rank < least := by
        rw [passRank, ← payload] at higher
        cases isRank : (store.payload first).rank? with
        | none => rw [isRank] at higher; exact absurd higher (Nat.not_lt_zero rank)
        | some least => exact ⟨least, rfl, by rwa [isRank] at higher⟩
      intro child member high found
      rcases List.mem_cons.mp member with rfl | behind
      · rw [found] at isRank
        exact Option.some.inj isRank ▸ above
      · exact above.trans_le ((List.pairwise_cons.mp sorted).1 child behind least isRank high found)

/-- **The ranks never fall in the row with the new clause.** -/
theorem addClause (isSealed : store.Sealed) (hasRow : store.HasRow parent row) {word : Keyword}
    {rank : Nat} (known : word.rank? = some rank) :
    (store.addClause parent word).Ranked
      (store.clauseFront parent word ++ store.fresh :: store.clauseBack parent word) := by
  obtain ⟨low, high⟩ := ranked.low_or_high (hasRow.children_eq) known
  have row_eq := hasRow.row_eq word
  have inUse := hasRow.inUse_row isSealed
  have payload_eq (child : Slot) (member : child ∈ row) :
      (store.addClause parent word).payload child = store.payload child := by
    rw [isSealed.payload_addClause, Function.update_of_ne (inUse child member).ne_fresh]
  have fresh_eq : ((store.addClause parent word).payload store.fresh).rank? = some rank := by
    rw [isSealed.payload_addClause, Function.update_self]
    exact known
  have still : (store.addClause parent word).Ranked row :=
    List.Pairwise.imp_of_mem (fun member memberToo sorted => by
      rwa [payload_eq _ member, payload_eq _ memberToo]) ranked
  rw [← row_eq] at still payload_eq
  obtain ⟨sortedFront, sortedBack, across⟩ := List.pairwise_append.mp still
  refine List.pairwise_append.mpr ⟨sortedFront, List.pairwise_cons.mpr ⟨?_, sortedBack⟩, ?_⟩
  · intro child member least isRank greatest found
    rw [fresh_eq] at isRank
    rw [payload_eq child (List.mem_append_right _ member)] at found
    exact Option.some.inj isRank ▸ (high child member greatest found).le
  · intro child member other memberToo
    rcases List.mem_cons.mp memberToo with rfl | behind
    · intro least found greatest isRank
      rw [fresh_eq] at isRank
      rw [payload_eq child (List.mem_append_left _ member)] at found
      exact Option.some.inj isRank ▸ low child member least found
    · exact across child member other behind

end Ranked

/-! ### Looking for a clause -/

/-- **A search that stops early finds the first child with the tag.** -/
theorem Ranked.clause?_eq_childWith? (ranked : store.Ranked (store.children parent))
    {word : Keyword} {rank : Nat} (known : word.rank? = some rank) :
    store.clause? parent word = store.childWith? parent word := by
  rw [clause?, known, Option.bind_some, ranked.scanClause?_eq_find? known]
  rfl

namespace HasRow

variable (hasRow : store.HasRow parent row) (ranked : store.Ranked row) {word : Keyword}
  {rank : Nat} (known : word.rank? = some rank)

include hasRow ranked known

theorem clause?_eq : store.clause? parent word = store.childWith? parent word :=
  Ranked.clause?_eq_childWith? (hasRow.children_eq ▸ ranked) known

/-- A clause that was added is found, since there was none in front of it. -/
theorem childWith?_addClause (isSealed : store.Sealed)
    (missing : store.clause? parent word = none) :
    (store.addClause parent word).childWith? parent word = some store.fresh := by
  rw [hasRow.clause?_eq ranked known, childWith?, List.find?_eq_none,
    hasRow.children_eq] at missing
  rw [childWith?, hasRow.children_addClause isSealed]
  refine List.find?_eq_some_iff_append.mpr ⟨?_, _, _, rfl, fun child member => ?_⟩
  · rw [← payload, isSealed.payload_addClause, Function.update_self]
    exact decide_eq_true rfl
  · have inRow : child ∈ row := by
      rw [← hasRow.row_eq word]
      exact List.mem_append_left _ member
    rw [← payload, isSealed.payload_addClause,
      Function.update_of_ne (hasRow.inUse_row isSealed child inRow).ne_fresh, Bool.not_eq_true']
    exact Bool.eq_false_iff.mpr (missing child inRow)

/-- **A clause that is ensured is there**, in the slot that was told. -/
theorem clause?_ensureClause (isSealed : store.Sealed) :
    (store.ensureClause parent word).clause? parent word = some (store.clauseSlot parent word) ∧
      (store.ensureClause parent word).childWith? parent word =
        some (store.clauseSlot parent word) := by
  cases found : store.clause? parent word with
  | some slot =>
    have there : store.clauseSlot parent word = slot := by rw [clauseSlot, found, Option.getD_some]
    rw [ensureClause, found, Option.isSome_some, if_pos rfl, there, found,
      ← hasRow.clause?_eq ranked known, found]
    exact ⟨rfl, rfl⟩
  | none =>
    have added := hasRow.childWith?_addClause ranked known isSealed found
    have sorted := ranked.addClause isSealed hasRow known
    rw [← hasRow.children_addClause isSealed] at sorted
    rw [ensureClause, clauseSlot, found, Option.isSome_none, if_neg Bool.false_ne_true,
      Option.getD_none, sorted.clause?_eq_childWith? known, added]
    exact ⟨rfl, rfl⟩

end HasRow

theorem all_named_ensureClause (made : parent < store.slots) (word : Keyword) :
    (Step.ensureClause parent word).named.all (· < store.slots) := by
  rw [Step.named, List.all_cons, List.all_nil, Bool.and_true, decide_eq_true made]

/-- To ensure a clause that is there changes nothing, however often it is done. -/
theorem exists_transcript?_ensureClause {word : Keyword}
    (found : store.clause? parent word = some slot) (made : parent < store.slots) (count : Nat) :
    ∃ remarks, store.transcript? (List.replicate count (.ensureClause parent word)) =
        some (remarks, store) ∧
      remarks.map Remark.reply = List.replicate count (.slot (some slot)) := by
  have performed : store.perform (.ensureClause parent word) = (.slot (some slot), store) := by
    rw [perform, clauseSlot, ensureClause, found, Option.isSome_some, if_pos rfl, Option.getD_some]
  induction count with
  | zero => exact ⟨[], rfl, rfl⟩
  | succ count step =>
    obtain ⟨remarks, ran, told⟩ := step
    refine ⟨⟨.slot (some slot), store.inUse, store.usage⟩ :: remarks, ?_, ?_⟩
    · rw [List.replicate_succ, transcript?, if_pos (all_named_ensureClause made word), performed]
      simp only [ran, Option.map_some]
    · rw [List.map_cons, told, List.replicate_succ]

/-- **Clauses are found and placed by their ranks**, in every row whose ranks never fall. A search
that stops early finds what a full search finds. A clause that is added leaves the others in their
order, goes behind those of its rank or a lower one and before those of a higher rank, so that the
ranks still never fall. A clause that is ensured any number of times is added once at most, and
always found in the same slot. -/
theorem clauses_found_and_placed (isSealed : store.Sealed) (hasRow : store.HasRow parent row)
    (ranked : store.Ranked row) {word : Keyword} {rank : Nat} (known : word.rank? = some rank) :
    store.clause? parent word = store.childWith? parent word ∧
      (∃ front back, row = front ++ back ∧
        (store.addClause parent word).children parent = front ++ store.fresh :: back ∧
        (store.addClause parent word).Leads ((store.addClause parent word).node parent).child
          (front ++ store.fresh :: back) none ∧
        (store.addClause parent word).payload =
          Function.update store.payload store.fresh (.keyword word) ∧
        (∀ child ∈ front, ∀ low ∈ (store.payload child).rank?, low ≤ rank) ∧
        (∀ child ∈ back, ∀ high ∈ (store.payload child).rank?, rank < high) ∧
        (store.addClause parent word).Ranked (front ++ store.fresh :: back)) ∧
      ∀ count, ∃ remarks other,
        store.transcript? (List.replicate count (.ensureClause parent word)) =
          some (remarks, other) ∧
        remarks.map Remark.reply =
          List.replicate count (.slot (some (store.clauseSlot parent word))) ∧
        (other = store ∨ other = store.addClause parent word) ∧
        (0 < count → other.childWith? parent word = some (store.clauseSlot parent word)) := by
  obtain ⟨low, high⟩ := ranked.low_or_high (hasRow.children_eq) known
  refine ⟨hasRow.clause?_eq ranked known, ⟨_, _, (hasRow.row_eq word).symm,
    hasRow.children_addClause isSealed word, hasRow.addClause isSealed word,
    isSealed.payload_addClause parent word, low, high, ranked.addClause isSealed hasRow known⟩,
    fun count => ?_⟩
  cases count with
  | zero => exact ⟨[], store, rfl, rfl, .inl rfl, fun positive => absurd positive (Nat.lt_irrefl 0)⟩
  | succ count =>
    obtain ⟨found, there⟩ := hasRow.clause?_ensureClause ranked known isSealed
    have made : parent < (store.ensureClause parent word).slots := by
      unfold ensureClause
      split
      · exact hasRow.made
      · rw [slots_addClause]
        exact made_of_allocate store _ parent hasRow.made
    obtain ⟨remarks, ran, told⟩ := exists_transcript?_ensureClause found made count
    let after := store.ensureClause parent word
    refine ⟨⟨.slot (some (store.clauseSlot parent word)), after.inUse, after.usage⟩ :: remarks,
      after, ?_, ?_, ?_, fun _ => there⟩
    · rw [List.replicate_succ, transcript?, if_pos (all_named_ensureClause hasRow.made word)]
      simp only [perform, ran, Option.map_some]
      rfl
    · rw [List.map_cons, told, List.replicate_succ]
    · simp only [after, ensureClause]
      split
      · exact .inl rfl
      · exact .inr rfl

/-- A row of a clause, a text and a clause. The clauses share a child, which is its own child, and
in a released slot stands a link to the row. -/
def sharedStore : Store where
  chunkSize := 8
  nodes := #[⟨.blank, none, some 1⟩, ⟨.keyword .select, some 2, some 4⟩,
    ⟨.literal "text", some 3, none⟩, ⟨.keyword .whereClause, none, some 4⟩,
    ⟨.literal "shared", none, some 4⟩, ⟨.blank, some 1, none⟩]
  released := [5]
  chunks := 1

theorem sharedStore_sealed : sharedStore.Sealed := by
  have nexts : ∀ slot < 6, sharedStore.InUse slot →
      ∀ next ∈ (sharedStore.node slot).next, next ∉ sharedStore.released := by decide
  have children : ∀ slot < 6, sharedStore.InUse slot →
      ∀ child ∈ (sharedStore.node slot).child, child ∉ sharedStore.released := by decide
  exact ⟨by decide, fun slot inUse => nexts slot inUse.1 inUse, fun slot inUse =>
    children slot inUse.1 inUse⟩

theorem clauses_found_and_placed_shared :
    sharedStore.HasRow 0 [1, 2, 3] ∧ sharedStore.Ranked [1, 2, 3] ∧
      Keyword.fromTable.rank? = some 1 ∧ sharedStore.clauseSlot 0 .fromTable = 5 ∧
      (∃ front back, [1, 2, 3] = front ++ back ∧
        (sharedStore.addClause 0 .fromTable).children 0 = front ++ 5 :: back) ∧
      ∀ count, ∃ remarks other,
        sharedStore.transcript? (List.replicate count (.ensureClause 0 .fromTable)) =
          some (remarks, other) ∧
        remarks.map Remark.reply = List.replicate count (.slot (some 5)) ∧
        (other = sharedStore ∨ other = sharedStore.addClause 0 .fromTable) := by
  have hasRow : sharedStore.HasRow 0 [1, 2, 3] :=
    ⟨by decide, by decide, by decide, rfl, rfl, rfl, rfl⟩
  have ranked : sharedStore.Ranked [1, 2, 3] := by
    unfold Ranked
    decide
  have known : Keyword.fromTable.rank? = some 1 := rfl
  obtain ⟨-, ⟨front, back, split, row, -⟩, ensured⟩ :=
    clauses_found_and_placed sharedStore_sealed hasRow ranked known
  refine ⟨hasRow, ranked, known, by decide, ⟨front, back, split, row⟩, fun count => ?_⟩
  obtain ⟨remarks, other, ran, told, once, -⟩ := ensured count
  exact ⟨remarks, other, ran, told, once⟩

end SqlDraft.Store
