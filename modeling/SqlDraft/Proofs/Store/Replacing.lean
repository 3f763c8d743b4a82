/-
**Numbers, directions and names that are set twice.**

A number of rows, a direction and a name each have one slot of their own, which the first call makes
and every later one finds again. So the store after two calls is the one after the second alone, in
all its nodes, slots and released slots:

* `Store.Limits`, `Store.Skips`, `Store.Directs`, `Store.Names`: where a call finds its slot.
* `Store.Forest.exists_setLimit` and its like: after a call the next one finds this slot.
* `Store.setLimit_setLimit`, `Store.setOffset_setOffset`, `Store.setDirection_setDirection`,
  `Store.setName_setName`, `Store.markRemoval_markRemoval`: the second of two calls is all that is
  left.
* `Store.setLimit_setOffset_setLimit`: an offset between two limits does not matter either.
-/

import Mathlib.Data.List.Find
import SqlDraft.Draft.Columns
import SqlDraft.Draft.Sources
import SqlDraft.Proofs.Store.Overwriting

namespace SqlDraft.Store

variable {store other : Store} {clause first slot leaf : Slot}

/-! ### Limits -/

/-- A clause is marked as having a limit, and its first child is the number. -/
structure Limits (store : Store) (clause first : Slot) : Prop where
  tag : store.payload clause = .keyword .limit
  isFirst : store.firstChild? clause = some first
  number : (store.payload first).isKeyword .offset = false

theorem Limits.setLimit_eq (limits : store.Limits clause first) (count : UInt64) :
    store.setLimit clause count = store.setPayload first (countPayload count) := by
  have number : (store.node first).payload.isKeyword .offset = false := limits.number
  unfold setLimit
  rw [setPayload_eq_self limits.tag]
  simp [limits.isFirst, Option.filter_some, number]

/-- **A limit that was set is found again.** -/
theorem Forest.exists_setLimit (forest : store.Forest) (inUse : store.InUse clause) :
    ∃ first, Varies (store.setLimit clause) first countPayload ∧
      ∀ count, (store.setLimit clause count).Limits clause first := by
  have marked := forest.retagged inUse (.keyword .limit)
  have tag : (store.setPayload clause (.keyword .limit)).payload clause = .keyword .limit := by
    rw [marked.payload, Function.update_self]
  have inUseMarked : (store.setPayload clause (.keyword .limit)).InUse clause := marked.inUse ▸ inUse
  cases found : ((store.setPayload clause (.keyword .limit)).firstChild? clause).filter fun first =>
      !((store.setPayload clause (.keyword .limit)).node first).payload.isKeyword .offset with
  | some first =>
    have same : store.setLimit clause = fun count =>
        (store.setPayload clause (.keyword .limit)).setPayload first (countPayload count) := by
      funext count
      simp only [setLimit, found]
    rw [same]
    obtain ⟨isFirst, -⟩ := Option.filter_eq_some_iff.mp found
    have member := marked.forest.mem_of_firstChild? isFirst
    have different := marked.forest.ne_of_mem_children member
    refine ⟨first, varies_setPayload _ first countPayload, fun count => ⟨?_, ?_, ?_⟩⟩
    · exact (payload_setPayload_of_ne different.symm _).trans tag
    · exact (firstChild?_setPayload _ clause).trans isFirst
    · have inUseFirst := marked.forest.inUse_child clause first member
      have numbered := marked.forest.retagged inUseFirst (countPayload count)
      show Payload.isKeyword (payload (setPayload _ first (countPayload count)) first) _ = false
      rw [numbered.payload, Function.update_self]
      rfl
  | none =>
    have same : store.setLimit clause = fun count =>
        ((store.setPayload clause (.keyword .limit)).allocate (countPayload count)).linkFirst clause
          (store.setPayload clause (.keyword .limit)).fresh := by
      funext count
      simp only [setLimit, found]
    rw [same]
    refine ⟨_, varies_addFirst _ clause countPayload, fun count => ?_⟩
    have grown := grown_addFirst marked.forest inUseMarked (countPayload count)
    refine ⟨(grown.payload_of_inUse inUseMarked).trans tag, ?_, ?_⟩
    · show firstChild? (linkFirst _ clause _) clause = _
      rw [grown.forest.firstChild?_eq_head?, grown.children_parent]
      rfl
    · show Payload.isKeyword (payload (linkFirst _ clause _) _) _ = false
      rw [grown.payload_fresh]
      rfl

/-- **The second of two limits is all that is left.** -/
theorem setLimit_setLimit (forest : store.Forest) (inUse : store.InUse clause)
    (former latter : UInt64) :
    (store.setLimit clause former).setLimit clause latter = store.setLimit clause latter := by
  obtain ⟨first, varies, limits⟩ := forest.exists_setLimit inUse
  rw [(limits former).setLimit_eq]
  exact varies former latter

/-! ### Offsets -/

/-- The offset of a clause has a node, whose first child is the number. -/
structure Skips (store : Store) (clause slot leaf : Slot) : Prop where
  mark : store.childWith? clause .offset = some slot
  leaf : store.firstChild? slot = some leaf

/-- A number was set below a node, and nothing else changed. -/
structure Counted (store other : Store) (parent leaf : Slot) : Prop where
  forest : other.Forest
  leaf : other.firstChild? parent = some leaf
  children : ∀ row, row ≠ parent → other.children row = store.children row
  payload : ∀ slot, store.InUse slot → slot ∉ store.children parent →
    other.payload slot = store.payload slot

theorem Skips.setOffset_eq (skips : store.Skips clause slot leaf) (count : UInt64) :
    store.setOffset clause count = store.setPayload leaf (countPayload count) := by
  simp only [setOffset, setCount, skips.mark, skips.leaf]

theorem Forest.exists_setCount {parent : Slot} (forest : store.Forest)
    (inUse : store.InUse parent) :
    ∃ leaf, Varies (store.setCount parent) leaf countPayload ∧
      ∀ count, store.Counted (store.setCount parent count) parent leaf := by
  unfold setCount
  cases found : store.firstChild? parent with
  | some leaf =>
    have member := forest.mem_of_firstChild? found
    refine ⟨leaf, varies_setPayload store leaf countPayload, fun count => ?_⟩
    have numbered := forest.retagged (forest.inUse_child parent leaf member) (countPayload count)
    refine ⟨numbered.forest, (firstChild?_setPayload _ parent).trans found, fun row _ => ?_,
      fun slot _ elsewhere => payload_setPayload_of_ne ?_ _⟩
    · exact congrFun numbered.children row
    · rintro rfl
      exact elsewhere member
  | none =>
    refine ⟨_, varies_addChild store parent countPayload, fun count => ?_⟩
    have grown := grown_addChild forest inUse (countPayload count)
    refine ⟨grown.forest, ?_, fun row different => grown.children_of_ne different,
      fun slot inUseSlot _ => grown.payload_of_inUse inUseSlot⟩
    have childless : store.children parent = [] := by
      rwa [forest.firstChild?_eq_head?, List.head?_eq_none_iff] at found
    show firstChild? (addChild _ parent _) parent = _
    rw [grown.forest.firstChild?_eq_head?, grown.children_parent, childless]
    rfl

/-- A child of a clause is no child of another child of it. -/
theorem Forest.not_mem_of_sibling (forest : store.Forest) (member : slot ∈ store.children clause)
    {child : Slot} (sibling : child ∈ store.children clause) : child ∉ store.children slot :=
  fun below => forest.ne_of_mem_children member (forest.sole_parent _ _ _ below sibling)

namespace Counted

variable (counted : store.Counted other slot leaf)
include counted

/-- A number below a child of a clause is not felt by a search in the clause. -/
theorem childWith?_eq (forest : store.Forest) (member : slot ∈ store.children clause)
    (word : Keyword) : other.childWith? clause word = store.childWith? clause word := by
  unfold childWith?
  rw [counted.children clause (forest.ne_of_mem_children member).symm]
  refine List.find?_congr fun child sibling => congrArg (Payload.isKeyword · word) ?_
  exact counted.payload child (forest.inUse_child _ _ sibling)
    (forest.not_mem_of_sibling member sibling)

theorem limits (forest : store.Forest) (member : slot ∈ store.children clause)
    (limits : store.Limits clause first) : other.Limits clause first := by
  have isFirst := forest.mem_of_firstChild? limits.isFirst
  have different := (forest.ne_of_mem_children member).symm
  refine ⟨?_, ?_, ?_⟩
  · rw [counted.payload clause (forest.inUse_parent member), limits.tag]
    intro below
    exact forest.not_below_self clause
      (Relation.TransGen.head member (Relation.TransGen.single below))
  · rw [counted.forest.firstChild?_eq_head?, counted.children clause different,
      ← forest.firstChild?_eq_head?, limits.isFirst]
  · rw [counted.payload first (forest.inUse_child _ _ isFirst)
      (forest.not_mem_of_sibling member isFirst), limits.number]

end Counted

/-- An offset is set in its node, which is found or else added. -/
theorem setOffset_eq (store : Store) (clause : Slot) : store.setOffset clause =
    match store.childWith? clause .offset with
    | some slot => store.setCount slot
    | none => (store.addChild clause (.keyword .offset)).setCount store.fresh := by
  funext count
  unfold setOffset
  cases store.childWith? clause .offset <;> rfl

/-- The node of an offset that is added is found. -/
theorem childWith?_addChild (forest : store.Forest) (inUse : store.InUse clause) {word : Keyword}
    (absent : store.childWith? clause word = none) :
    (store.addChild clause (.keyword word)).childWith? clause word = some store.fresh := by
  have grown := grown_addChild forest inUse (.keyword word)
  have before : (store.children clause).find? (fun child =>
      ((store.addChild clause (.keyword word)).payload child).isKeyword word) = none := by
    rw [← absent]
    refine List.find?_congr fun child member => congrArg (Payload.isKeyword · word) ?_
    exact grown.payload_of_inUse (forest.inUse_child _ _ member)
  unfold childWith?
  rw [grown.children_parent, List.find?_append]
  refine (congrArg (Option.or · _) before).trans ?_
  rw [Option.none_or]
  refine List.find?_cons_of_pos ?_
  show (payload _ store.fresh).isKeyword word = true
  rw [grown.payload_fresh]
  exact decide_eq_true rfl

/-- **An offset that was set is found again.** -/
theorem Forest.exists_setOffset (forest : store.Forest) (inUse : store.InUse clause) :
    ∃ slot leaf, Varies (store.setOffset clause) leaf countPayload ∧
      ∀ count, (store.setOffset clause count).Skips clause slot leaf := by
  rw [setOffset_eq]
  cases found : store.childWith? clause .offset with
  | some slot =>
    have member : slot ∈ store.children clause := List.mem_of_find?_eq_some found
    obtain ⟨leaf, varies, counted⟩ := forest.exists_setCount (forest.inUse_child _ _ member)
    exact ⟨slot, leaf, varies, fun count =>
      ⟨((counted count).childWith?_eq forest member .offset).trans found, (counted count).leaf⟩⟩
  | none =>
    have grown := grown_addChild forest inUse (.keyword .offset)
    have marked := childWith?_addChild forest inUse found
    obtain ⟨leaf, varies, counted⟩ := grown.forest.exists_setCount grown.inUse_fresh
    exact ⟨store.fresh, leaf, varies, fun count =>
      ⟨((counted count).childWith?_eq grown.forest grown.fresh_mem .offset).trans marked,
        (counted count).leaf⟩⟩

/-- **The second of two offsets is all that is left.** -/
theorem setOffset_setOffset (forest : store.Forest) (inUse : store.InUse clause)
    (former latter : UInt64) :
    (store.setOffset clause former).setOffset clause latter = store.setOffset clause latter := by
  obtain ⟨slot, leaf, varies, skips⟩ := forest.exists_setOffset inUse
  rw [(skips former).setOffset_eq]
  exact varies former latter

/-! ### Pages -/

/-- A limit that was set is still found behind an offset. -/
theorem Limits.setOffset (limits : store.Limits clause first) (forest : store.Forest)
    (count : UInt64) : (store.setOffset clause count).Limits clause first := by
  have isFirst := forest.mem_of_firstChild? limits.isFirst
  have inUse := forest.inUse_parent isFirst
  rw [setOffset_eq]
  cases found : store.childWith? clause .offset with
  | some slot =>
    have member : slot ∈ store.children clause := List.mem_of_find?_eq_some found
    obtain ⟨leaf, -, counted⟩ := forest.exists_setCount (forest.inUse_child _ _ member)
    exact (counted count).limits forest member limits
  | none =>
    have grown := grown_addChild forest inUse (.keyword .offset)
    obtain ⟨leaf, -, counted⟩ := grown.forest.exists_setCount grown.inUse_fresh
    refine (counted count).limits grown.forest grown.fresh_mem ⟨?_, ?_, ?_⟩
    · rw [grown.payload_of_inUse inUse, limits.tag]
    · have head := limits.isFirst
      rw [forest.firstChild?_eq_head?] at head
      rw [grown.forest.firstChild?_eq_head?, grown.children_parent, List.head?_append, head]
      rfl
    · rw [grown.payload_of_inUse (forest.inUse_child _ _ isFirst), limits.number]

theorem setCount_setPayload {parent : Slot} (different : leaf ≠ store.fresh)
    (elsewhere : store.firstChild? parent ≠ some leaf) (count : UInt64) (payload : Payload) :
    (store.setPayload leaf payload).setCount parent count =
      (store.setCount parent count).setPayload leaf payload := by
  unfold setCount
  rw [firstChild?_setPayload]
  cases found : store.firstChild? parent with
  | some child =>
    refine setPayload_comm store ?_ _ _
    rintro rfl
    exact elsewhere found
  | none => exact addChild_setPayload different parent _ payload

/-- An offset does not feel the number of the limit. -/
theorem Limits.setOffset_setPayload (limits : store.Limits clause first) (forest : store.Forest)
    (count limit : UInt64) :
    (store.setPayload first (countPayload limit)).setOffset clause count =
      (store.setOffset clause count).setPayload first (countPayload limit) := by
  have isFirst := forest.mem_of_firstChild? limits.isFirst
  have inUse := forest.inUse_child _ _ isFirst
  have numbered := forest.retagged inUse (countPayload limit)
  have search : (store.setPayload first (countPayload limit)).childWith? clause .offset =
      store.childWith? clause .offset := by
    unfold childWith?
    rw [numbered.children]
    refine List.find?_congr fun child member => ?_
    show (payload _ child).isKeyword _ = (payload _ child).isKeyword _
    rw [numbered.payload]
    by_cases same : child = first
    · rw [same, Function.update_self, limits.number]
      rfl
    · rw [Function.update_of_ne same]
  rw [setOffset_eq, setOffset_eq, search]
  cases found : store.childWith? clause .offset with
  | some slot =>
    have member : slot ∈ store.children clause := List.mem_of_find?_eq_some found
    refine setCount_setPayload inUse.ne_fresh (fun below => ?_) count _
    exact forest.not_mem_of_sibling member isFirst (forest.mem_of_firstChild? below)
  | none =>
    have grown := grown_addChild forest (forest.inUse_parent isFirst) (.keyword .offset)
    show setCount (addChild (setPayload store first _) _ _) (fresh (setPayload store first _)) _ = _
    rw [addChild_setPayload inUse.ne_fresh, fresh_setPayload]
    refine setCount_setPayload (grown.inUse_of_inUse inUse).ne_fresh (fun below => ?_) count _
    have childless := grown.forest.mem_of_firstChild? below
    rw [grown.children_fresh forest] at childless
    exact absurd childless List.not_mem_nil

/-- **Of two limits with an offset between them the second is all that is left.** -/
theorem setLimit_setOffset_setLimit (forest : store.Forest) (inUse : store.InUse clause)
    (limited : ∀ count, (store.setLimit clause count).Forest) (former count latter : UInt64) :
    ((store.setLimit clause former).setOffset clause count).setLimit clause latter =
      (store.setLimit clause latter).setOffset clause count := by
  obtain ⟨first, varies, limits⟩ := forest.exists_setLimit inUse
  have behind := (limits former).setOffset (limited former) count
  rw [behind.setLimit_eq, ← (limits former).setOffset_setPayload (limited former),
    varies former latter]

/-! ### Directions -/

/-- Sets the direction of the last column of an ordering. -/
def setDirection (store : Store) (clause : Slot) (direction : Direction) : Store :=
  match store.lastChild? clause with
  | none => store.addChild clause (.keyword direction.keyword)
  | some last =>
    if (store.node last).payload.keyword?.any Keyword.isDirection then
      store.setPayload last (.keyword direction.keyword)
    else store.addChild clause (.keyword direction.keyword)

/-- The last child of an ordering is a direction. -/
structure Directs (store : Store) (clause last : Slot) : Prop where
  isLast : store.lastChild? clause = some last
  direction : (store.payload last).keyword?.any Keyword.isDirection = true

theorem any_isDirection (direction : Direction) :
    (Payload.keyword direction.keyword).keyword?.any Keyword.isDirection = true := by
  cases direction <;> rfl

theorem Directs.setDirection_eq {last : Slot} (directs : store.Directs clause last)
    (direction : Direction) :
    store.setDirection clause direction = store.setPayload last (.keyword direction.keyword) := by
  have isDirection : (store.node last).payload.keyword?.any Keyword.isDirection = true :=
    directs.direction
  simp only [setDirection, directs.isLast, isDirection, if_true]

/-- A direction that is added is the last child. -/
theorem directs_addChild (forest : store.Forest) (inUse : store.InUse clause)
    (direction : Direction) :
    (store.addChild clause (.keyword direction.keyword)).Directs clause store.fresh := by
  have grown := grown_addChild forest inUse (.keyword direction.keyword)
  refine ⟨?_, ?_⟩
  · rw [lastChild?, grown.children_parent]
    exact List.getLast?_concat
  · rw [grown.payload_fresh]
    exact any_isDirection direction

/-- **A direction that was set is found again.** -/
theorem Forest.exists_setDirection (forest : store.Forest) (inUse : store.InUse clause) :
    ∃ last, Varies (store.setDirection clause) last
        (fun direction : Direction => .keyword direction.keyword) ∧
      ∀ direction, (store.setDirection clause direction).Directs clause last := by
  have added := varies_addChild store clause fun direction : Direction => .keyword direction.keyword
  cases found : store.lastChild? clause with
  | none =>
    have same : store.setDirection clause = fun direction =>
        store.addChild clause (.keyword direction.keyword) := by
      funext direction
      simp only [setDirection, found]
    rw [same]
    exact ⟨store.fresh, added, directs_addChild forest inUse⟩
  | some last =>
    by_cases directed : (store.node last).payload.keyword?.any Keyword.isDirection = true
    · have same : store.setDirection clause = fun direction =>
          store.setPayload last (.keyword direction.keyword) := by
        funext direction
        simp only [setDirection, found, directed, if_true]
      rw [same]
      refine ⟨last, varies_setPayload store last _, fun direction => ⟨?_, ?_⟩⟩
      · rwa [lastChild?, children_setPayload]
      · have member : last ∈ store.children clause := List.mem_of_getLast? found
        rw [(forest.retagged (forest.inUse_child _ _ member) _).payload, Function.update_self]
        exact any_isDirection direction
    · have same : store.setDirection clause = fun direction =>
          store.addChild clause (.keyword direction.keyword) := by
        funext direction
        simp only [setDirection, found, if_neg directed]
      rw [same]
      exact ⟨store.fresh, added, directs_addChild forest inUse⟩

/-- **The second of two directions is all that is left.** -/
theorem setDirection_setDirection (forest : store.Forest) (inUse : store.InUse clause)
    (former latter : Direction) :
    (store.setDirection clause former).setDirection clause latter =
      store.setDirection clause latter := by
  obtain ⟨last, varies, directs⟩ := forest.exists_setDirection inUse
  rw [(directs former).setDirection_eq]
  exact varies former latter

/-! ### Names -/

/-- Sets the name that stands behind a node. -/
def setName (store : Store) (target : Slot) (name : String) : Store :=
  match (store.node target).next.filter fun slot =>
      (store.node slot).payload.isKeyword .asName with
  | some label =>
    match store.firstChild? label with
    | some leaf => store.setPayload leaf (.literal name)
    | none => store.addChild label (.literal name)
  | none =>
    ((store.allocate (.keyword .asName)).addChild store.fresh (.literal name)).linkAfter target
      store.fresh

/-- A name stands behind a node, with a leaf of its own. -/
structure Names (store : Store) (target label leaf : Slot) : Prop where
  behind : (store.node target).next = some label
  marked : (store.payload label).isKeyword .asName = true
  leaf : store.firstChild? label = some leaf

theorem Names.setName_eq {target label : Slot} (names : store.Names target label leaf)
    (name : String) : store.setName target name = store.setPayload leaf (.literal name) := by
  have marked : (store.node label).payload.isKeyword .asName = true := names.marked
  simp only [setName, names.behind, Option.filter_some, marked, if_true, names.leaf]

section Names

variable {parent target label : Slot} {front back : List Slot} (forest : store.Forest)
  (split : store.children parent = front ++ target :: back)

include forest split

/-- A new name is found behind the node. -/
theorem Forest.exists_setName_missing
    (found : (store.node target).next.filter
      (fun slot => (store.node slot).payload.isKeyword .asName) = none) :
    ∃ label leaf, Varies (store.setName target) leaf Payload.literal ∧
      ∀ name, (store.setName target name).Names target label leaf := by
  have same : store.setName target = fun name => ((store.allocate (.keyword .asName)).addChild
      store.fresh (.literal name)).linkAfter target store.fresh := by
    funext name
    simp only [setName, found]
  have member : target ∈ store.children parent := by
    rw [split]
    exact List.mem_append_right _ List.mem_cons_self
  have inUse := forest.inUse_parent member
  rw [same]
  refine ⟨store.fresh, (store.allocate (.keyword .asName)).fresh,
    (varies_addChild _ store.fresh _).linkAfter target store.fresh, fun name => ?_⟩
  obtain ⟨between, label, leaf⟩ := named forest split (.keyword .asName) (.literal name)
  refine ⟨?_, ?_, ?_⟩
  · have row := leaf.children_of_ne inUse.ne_fresh
    rw [label.children_parent, List.append_assoc, List.singleton_append] at row
    rw [leaf.forest.next_eq_head? row]
    rfl
  · rw [leaf.payload_of_inUse label.inUse_fresh, label.payload_fresh]
    exact decide_eq_true rfl
  · have inUseLabel := (forest.isTop_fresh (.keyword .asName)).1
    have filled := grown_addChild (forest.allocate (.keyword .asName)) inUseLabel (.literal name)
    show (setNext (setNext _ _ _) _ _).firstChild? _ = _
    rw [firstChild?_setNext, firstChild?_setNext, filled.forest.firstChild?_eq_head?,
      filled.children_parent, forest.children_allocate,
      forest.children_of_not_inUse store.fresh_not_inUse]
    rfl

/-- A name is found behind the node when the mark that it stands below is there already. -/
theorem Forest.exists_setName_given
    (found : (store.node target).next.filter
      (fun slot => (store.node slot).payload.isKeyword .asName) = some label) :
    ∃ leaf, Varies (store.setName target) leaf Payload.literal ∧
      ∀ name, (store.setName target name).Names target label leaf := by
  obtain ⟨behind, marked⟩ := Option.filter_eq_some_iff.mp found
  have next := forest.next_eq_head? split
  have isSibling : label ∈ store.children parent := by
    rw [split]
    exact List.mem_append_right _
      (List.mem_cons_of_mem _ (List.mem_of_mem_head? (next.symm.trans behind)))
  have inUseLabel := forest.inUse_child _ _ isSibling
  cases leafFound : store.firstChild? label with
  | some leaf =>
    have same : store.setName target = fun name => store.setPayload leaf (.literal name) := by
      funext name
      simp only [setName, found, leafFound]
    rw [same]
    have isLeaf := forest.mem_of_firstChild? leafFound
    refine ⟨leaf, varies_setPayload store leaf _, fun name => ⟨?_, ?_, ?_⟩⟩
    · rw [next_setPayload, behind]
    · rwa [payload_setPayload_of_ne (forest.ne_of_mem_children isLeaf).symm]
    · rw [firstChild?_setPayload, leafFound]
  | none =>
    have same : store.setName target = fun name => store.addChild label (.literal name) := by
      funext name
      simp only [setName, found, leafFound]
    rw [same]
    refine ⟨store.fresh, varies_addChild store label _, fun name => ?_⟩
    have grown := grown_addChild forest inUseLabel (.literal name)
    have childless : store.children label = [] := by
      rwa [forest.firstChild?_eq_head?, List.head?_eq_none_iff] at leafFound
    refine ⟨?_, ?_, ?_⟩
    · have splitToo := split
      rw [← grown.children_of_ne (forest.ne_of_mem_children isSibling).symm] at splitToo
      rw [grown.forest.next_eq_head? splitToo, ← next, behind]
    · rwa [grown.payload_of_inUse inUseLabel]
    · rw [grown.forest.firstChild?_eq_head?, grown.children_parent, childless]
      rfl

end Names

/-- **A name that was given is found again.** -/
theorem Forest.exists_setName {parent target : Slot} (forest : store.Forest)
    (member : target ∈ store.children parent) :
    ∃ label leaf, Varies (store.setName target) leaf Payload.literal ∧
      ∀ name, (store.setName target name).Names target label leaf := by
  obtain ⟨front, back, split⟩ := List.append_of_mem member
  cases found : (store.node target).next.filter fun slot =>
      (store.node slot).payload.isKeyword .asName with
  | some label => exact ⟨label, forest.exists_setName_given split found⟩
  | none => exact forest.exists_setName_missing split found

/-- **The second of two names is all that is left.** -/
theorem setName_setName {parent target : Slot} (forest : store.Forest)
    (member : target ∈ store.children parent) (former latter : String) :
    (store.setName target former).setName target latter = store.setName target latter := by
  obtain ⟨label, leaf, varies, names⟩ := forest.exists_setName member
  rw [(names former).setName_eq]
  exact varies former latter

/-! ### Removals -/

/-- Erasing no children changes nothing. -/
theorem eraseChildren_of_childless (childless : store.firstChild? clause = none) :
    store.eraseChildren clause = store := by
  have kept : store.setChild clause none = store := update_eq_self (by rw [← childless]; rfl)
  unfold eraseChildren
  rw [kept, childless]
  rfl

/-- Tags a command as a removal, and the table with it. -/
def markRemoval (store : Store) (clause : Slot) (table : Option Slot) (removal : Removal) : Store :=
  match table with
  | some slot => (store.setPayload clause (.keyword removal.keyword)).setPayload slot
      (.keyword removal.tableKeyword)
  | none => store.setPayload clause (.keyword removal.keyword)

/-- **The second of two removals is all that is left.** -/
theorem markRemoval_markRemoval (store : Store) (clause : Slot) (table : Option Slot)
    (former latter : Removal) :
    (store.markRemoval clause table former).markRemoval clause table latter =
      store.markRemoval clause table latter := by
  cases table with
  | none => exact setPayload_setPayload ..
  | some slot =>
    show setPayload (setPayload (setPayload (setPayload _ _ _) _ _) _ _) _ _ = setPayload _ _ _
    by_cases same : clause = slot
    · subst same
      simp only [setPayload_setPayload]
    · rw [setPayload_comm _ (Ne.symm same), setPayload_setPayload, setPayload_setPayload]

end SqlDraft.Store
