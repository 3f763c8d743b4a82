/-
**A name behind a node.**

A node in the row of a clause has one name at most: a mark directly behind it, with the name below. To
name the node changes what is below this mark, or adds the mark where there is none:

* `Store.Within.exists_around`: what is read around a subtree does not depend on what is in it.
* `Perch`: a node in the row of a clause, with its name.
* `Store.Bears`: the node stands there, and has no other name.
* `Store.Renames`: the node is named, and nothing else changes.
* **`Store.Bears.setName`**: a node that is named has one name again.
* **`Store.Renames.exists_reading`**: what is read then differs in the name alone.
-/

import SqlDraft.Proofs.Run.Tending
import SqlDraft.Proofs.Store.Extending
import SqlDraft.Proofs.Store.Replacing

namespace SqlDraft

/-- A node in the row of a clause, with its name and what else stands there. -/
structure Perch where
  clause : Slot
  front : List Slot
  slot : Slot
  /-- The mark of the name, if the node has one. -/
  marks : List Slot
  name : Option String
  back : List Slot

/-- The same node with another name. -/
def Perch.called (perch : Perch) (mark : Slot) (name : String) : Perch :=
  { perch with marks := [mark], name := some name }

namespace Store

open Relation

variable {store other : Store}

/-- What is read at a node and below it. -/
def reading (store : Store) (slot : Slot) : List Payload :=
  store.payload slot :: store.payloadsBelow slot

/-- A name is a mark with the name below it, or is missing. -/
inductive Label (store : Store) : List Slot → Option String → Prop
  | missing : Label store [] none
  | given {mark leaf : Slot} {name : String} (word : store.payload mark = .keyword .asName)
      (below : store.children mark = [leaf]) (text : store.payload leaf = .literal name)
      (bare : store.children leaf = []) : Label store [mark] (some name)

/-- **A node stands in the row of a clause with its name directly behind it**, and no other name is
further behind. -/
structure Bears (store : Store) (perch : Perch) : Prop where
  children : store.children perch.clause =
    perch.front ++ perch.slot :: (perch.marks ++ perch.back)
  label : store.Label perch.marks perch.name
  single : ∀ slot ∈ perch.back, store.payload slot ≠ .keyword .asName

/-- **A node is named, and nothing else changes.** It has this name alone, with the mark that it had if
there was one. All slots that were in use still are, and only the mark and the name may be new. Of
these, only the clause has another row, and only the name that the node had has another payload. -/
structure Renames (store other : Store) (perch : Perch) (mark : Slot) (name : String) : Prop where
  bears : other.Bears (perch.called mark name)
  same : ∀ former ∈ perch.marks, former = mark
  inUse : ∀ slot, store.InUse slot → other.InUse slot
  added : ∀ slot, other.InUse slot →
    store.InUse slot ∨ slot = mark ∨ slot ∈ other.children mark
  children : ∀ slot, store.InUse slot → slot ≠ perch.clause →
    other.children slot = store.children slot
  payload : ∀ slot, store.InUse slot → (∀ former ∈ perch.marks, slot ∉ store.children former) →
    other.payload slot = store.payload slot

/-! ### Around a subtree -/

section Around

variable {top above child root slot : Slot}

theorem Forest.payloadsBelow_eq_readings (forest : store.Forest) (slot : Slot) :
    store.payloadsBelow slot = (store.children slot).flatMap store.reading :=
  forest.payloadsBelow_eq_flatMap slot

/-- What is read at a slot outside of a subtree that does not reach it stays the same. -/
theorem Within.reading_outside (within : store.Within other root) (forest : store.Forest)
    (outside : store.Outside root slot) (apart : ¬ store.Reaches slot root) :
    other.reading slot = store.reading slot := by
  have further (found : Slot) (reaches : store.Reaches slot found) : store.Outside root found := by
    refine ⟨forest.inUse_of_reaches reaches outside.1, fun inside => ?_⟩
    rcases forest.comparable reaches inside with down | up
    · exact apart down
    · exact outside.2 up
  have payload (found : Slot) (reaches : store.Reaches slot found) :
      other.payload found = store.payload found :=
    congrArg Node.payload (within.node found (further found reaches))
  rw [reading, payload slot ReflTransGen.refl, forest.payloadsBelow_congr within.forest
    (fun found reaches => within.children_eq forest (further found reaches)) payload]
  rfl

/-- What is read below a node is what is read at one of its children, and around that child. -/
theorem Within.exists_around_child (within : store.Within other root) (forest : store.Forest)
    (member : child ∈ store.children above) (reaches : store.Reaches child root) :
    ∃ front back, store.payloadsBelow above = front ++ (store.reading child ++ back) ∧
      other.payloadsBelow above = front ++ (other.reading child ++ back) := by
  have outside := forest.outside_of_below (TransGen.head' member reaches)
  obtain ⟨before, after, split⟩ := List.append_of_mem member
  have sibling : ∀ found ∈ store.children above, found ≠ child →
      other.reading found = store.reading found := by
    intro found isChild different
    have apart : ¬ store.Reaches found root := fun reachesToo =>
      different ((forest.apart_children above).eq_of_reaches found isChild child member root
        reachesToo reaches)
    refine within.reading_outside forest ((outside.child forest isChild).resolve_left ?_) apart
    rintro rfl
    exact apart ReflTransGen.refl
  have distinct := forest.children_nodup above
  rw [split, List.nodup_append, List.nodup_cons] at distinct
  have sameBefore : before.flatMap other.reading = before.flatMap store.reading :=
    List.flatMap_congr fun found member => sibling found
      (by rw [split]; exact List.mem_append_left _ member)
      (distinct.2.2 found member child List.mem_cons_self)
  have sameAfter : after.flatMap other.reading = after.flatMap store.reading :=
    List.flatMap_congr fun found member => sibling found
      (by rw [split]; exact List.mem_append_right _ (List.mem_cons_of_mem _ member))
      (fun here => distinct.2.1.1 (here ▸ member))
  refine ⟨before.flatMap store.reading, after.flatMap store.reading, ?_, ?_⟩
  · rw [forest.payloadsBelow_eq_readings, split, List.flatMap_append, List.flatMap_cons]
  · rw [within.forest.payloadsBelow_eq_readings, within.children_eq forest outside, split,
      List.flatMap_append, List.flatMap_cons, sameBefore, sameAfter]

/-- **What is read around a subtree does not depend on what is in it.** -/
theorem Within.exists_around (within : store.Within other root) (forest : store.Forest)
    (hangs : store.Below top root) :
    ∃ front back, store.payloadsBelow top = front ++ (store.reading root ++ back) ∧
      other.payloadsBelow top = front ++ (other.reading root ++ back) := by
  induction hangs using TransGen.head_induction_on with
  | single member => exact within.exists_around_child forest member ReflTransGen.refl
  | @head above child member further step =>
    obtain ⟨front, back, reads, readsToo⟩ := step
    obtain ⟨before, after, around, aroundToo⟩ :=
      within.exists_around_child forest member further.to_reflTransGen
    have head : other.payload child = store.payload child :=
      congrArg Node.payload (within.node child (forest.outside_of_below further))
    refine ⟨before ++ store.payload child :: front, back ++ after, ?_, ?_⟩
    · rw [around, reading, reads]
      simp only [List.append_assoc, List.cons_append]
    · rw [aroundToo, reading, head, readsToo]
      simp only [List.append_assoc, List.cons_append]

end Around

/-! ### Naming a node -/

variable {perch : Perch} {mark : Slot} {name : String}

theorem Bears.slot_mem (bears : store.Bears perch) :
    perch.slot ∈ store.children perch.clause := by
  rw [bears.children]
  exact List.mem_append_right _ List.mem_cons_self

theorem Bears.inUse_of_back (bears : store.Bears perch) (forest : store.Forest) {slot : Slot}
    (member : slot ∈ perch.back) : store.InUse slot := by
  refine forest.inUse_child perch.clause slot ?_
  rw [bears.children]
  exact List.mem_append_right _ (List.mem_cons_of_mem _ (List.mem_append_right _ member))

/-- A node without a name gets a mark, with the name below it. -/
theorem Bears.setName_missing (bears : store.Bears perch) (forest : store.Forest)
    (missing : perch.marks = []) (name : String) :
    store.Renames (store.setName perch.slot name) perch store.fresh name ∧
      store.Within (store.setName perch.slot name) perch.clause := by
  have inUse := forest.inUse_parent bears.slot_mem
  have row := bears.children
  rw [missing, List.nil_append] at row
  have result : store.setName perch.slot name =
      ((store.allocate (.keyword .asName)).addChild store.fresh (.literal name)).linkAfter perch.slot
        store.fresh := by
    have unnamed : (store.node perch.slot).next.filter (fun slot =>
        (store.node slot).payload.isKeyword .asName) = none := by
      rw [forest.next_eq_head? row, Option.filter_eq_none_iff]
      intro behind isNext marked
      exact bears.single behind (List.mem_of_mem_head? isNext) (of_decide_eq_true marked)
    simp only [setName, unnamed]
  obtain ⟨between, marked, filled⟩ := named forest row (.keyword .asName) (.literal name)
  rw [← result] at filled
  have kept (slot : Slot) (inUseSlot : store.InUse slot) :
      (store.setName perch.slot name).payload slot = store.payload slot :=
    (filled.payload_of_inUse (marked.inUse_of_inUse inUseSlot)).trans
      (marked.payload_of_inUse inUseSlot)
  refine ⟨⟨⟨?_, ?_, fun slot behind => ?_⟩, fun former isMark => ?_, fun slot inUseSlot => ?_,
    fun slot inUseSlot => ?_, fun slot inUseSlot different => ?_,
    fun slot inUseSlot _ => kept slot inUseSlot⟩, ?_⟩
  · show (store.setName perch.slot name).children perch.clause = _
    rw [filled.children_of_ne inUse.ne_fresh, marked.children_parent, List.append_assoc]
    rfl
  · refine .given ?_ filled.children_parent filled.payload_fresh
      (filled.children_fresh marked.forest)
    rw [filled.payload_of_inUse marked.inUse_fresh, marked.payload_fresh]
  · rw [kept slot (bears.inUse_of_back forest behind)]
    exact bears.single slot behind
  · rw [missing] at isMark
    exact absurd isMark List.not_mem_nil
  · exact filled.inUse_of_inUse (marked.inUse_of_inUse inUseSlot)
  · rcases (filled.inUse slot).mp inUseSlot with old | rfl
    · exact ((marked.inUse slot).mp old).imp_right Or.inl
    · exact .inr (.inr filled.fresh_mem)
  · rw [filled.children_of_ne inUseSlot.ne_fresh, marked.children_of_ne different]
  · rw [result]
    exact (tended_named forest inUse ReflTransGen.refl bears.slot_mem _ _).toWithin

/-- A node with a name keeps its mark, and another name stands below it. -/
theorem Bears.setName_given (bears : store.Bears perch) (forest : store.Forest)
    (marks : perch.marks = [mark]) {leaf : Slot} {former : String}
    (word : store.payload mark = .keyword .asName) (below : store.children mark = [leaf])
    (text : store.payload leaf = .literal former) (bare : store.children leaf = []) (name : String) :
    store.Renames (store.setName perch.slot name) perch mark name ∧
      store.Within (store.setName perch.slot name) perch.clause := by
  have inUse := forest.inUse_parent bears.slot_mem
  have row := bears.children
  rw [marks] at row
  have isMark : mark ∈ store.children perch.clause := by
    rw [row]
    exact List.mem_append_right _ (List.mem_cons_of_mem _ List.mem_cons_self)
  have isLeaf : leaf ∈ store.children mark := by
    rw [below]
    exact List.mem_singleton_self leaf
  have names : store.Names perch.slot mark leaf := by
    refine ⟨?_, ?_, ?_⟩
    · rw [forest.next_eq_head? row]
      rfl
    · rw [word]
      exact decide_eq_true rfl
    · rw [forest.firstChild?_eq_head?, below]
      rfl
  have result := names.setName_eq name
  have retagged := forest.retagged (forest.inUse_child mark leaf isLeaf) (.literal name)
  rw [← result] at retagged
  have other_leaf {slot : Slot} (different : slot ≠ leaf) :
      (store.setName perch.slot name).payload slot = store.payload slot := by
    rw [retagged.payload, Function.update_of_ne different]
  have renamed : (store.setName perch.slot name).payload leaf = .literal name := by
    rw [retagged.payload, Function.update_self]
  have rows := congrFun retagged.children
  refine ⟨⟨⟨(rows _).trans row, ?_, fun slot behind => ?_⟩, fun found isFormer => ?_,
    fun slot inUseSlot => retagged.inUse ▸ inUseSlot,
    fun slot inUseSlot => .inl (retagged.inUse ▸ inUseSlot), fun slot _ _ => rows slot,
    fun slot _ away => ?_⟩, ?_⟩
  · exact .given ((other_leaf (forest.ne_of_mem_children isLeaf).symm).trans word)
      ((rows mark).trans below) renamed ((rows leaf).trans bare)
  · by_cases here : slot = leaf
    · rw [here, renamed]
      exact nofun
    · rw [other_leaf here]
      exact bears.single slot behind
  · rw [marks] at isFormer
    exact List.mem_singleton.mp isFormer
  · refine other_leaf ?_
    rintro rfl
    exact away mark (marks ▸ List.mem_singleton_self mark) isLeaf
  · exact (retagged.tended forest inUse
      ((reaches_child isMark).trans (reaches_child isLeaf))).toWithin

/-- **A node that is named has this name alone**, and nothing else changes. -/
theorem Bears.setName (bears : store.Bears perch) (forest : store.Forest) (name : String) :
    ∃ mark, store.Renames (store.setName perch.slot name) perch mark name ∧
      store.Within (store.setName perch.slot name) perch.clause := by
  obtain ⟨clause, front, slot, marks, former, back⟩ := perch
  cases bears.label with
  | missing => exact ⟨_, bears.setName_missing forest rfl name⟩
  | given word below text bare =>
    exact ⟨_, bears.setName_given forest rfl word below text bare name⟩

/-! ### Reading a name -/

/-- A mark and what is below it are read as `AS` and the name. -/
theorem Label.reading_eq {marks : List Slot} {given : Option String} (label : store.Label marks given)
    (forest : store.Forest) : marks.flatMap store.reading = spellName given := by
  cases label with
  | missing => rfl
  | given word below text bare =>
    rw [List.flatMap_singleton, reading, forest.payloadsBelow_eq_readings, below,
      List.flatMap_singleton, reading, forest.payloadsBelow_eq_readings, bare, word, text]
    rfl

theorem Bears.reading_clause (bears : store.Bears perch) (forest : store.Forest) :
    store.reading perch.clause = store.payload perch.clause :: (perch.front.flatMap store.reading ++
      (store.reading perch.slot ++ (spellName perch.name ++ perch.back.flatMap store.reading))) := by
  rw [reading, forest.payloadsBelow_eq_readings, bears.children, List.flatMap_append,
    List.flatMap_cons, List.flatMap_append, bears.label.reading_eq forest]

/-- Naming a node changes nothing that is read at the nodes around it and at the node itself. -/
theorem Renames.reading_eq (renames : store.Renames other perch mark name)
    (bears : store.Bears perch) (forest : store.Forest) (forestToo : other.Forest) {slot : Slot}
    (member : slot ∈ store.children perch.clause) (apart : slot ∉ perch.marks) :
    other.reading slot = store.reading slot := by
  have inUse {found : Slot} (reaches : store.Reaches slot found) : store.InUse found :=
    forest.inUse_of_reaches reaches (forest.inUse_child _ _ member)
  have payload (found : Slot) (reaches : store.Reaches slot found) :
      other.payload found = store.payload found := by
    refine renames.payload found (inUse reaches) fun former isMark below => apart ?_
    have isChild : former ∈ store.children perch.clause := by
      rw [bears.children]
      exact List.mem_append_right _ (List.mem_cons_of_mem _ (List.mem_append_left _ isMark))
    rwa [(forest.apart_children perch.clause).eq_of_reaches slot member former isChild found reaches
      (reaches_child below)]
  have children (found : Slot) (reaches : store.Reaches slot found) :
      other.children found = store.children found := by
    refine renames.children found (inUse reaches) ?_
    rintro rfl
    exact forest.not_reaches_parent member reaches
  rw [reading, payload slot ReflTransGen.refl,
    forest.payloadsBelow_congr forestToo children payload]
  rfl

/-- **What is read differs in the name alone.** Above the clause, what is read before the name that the
node had and behind it is read before and behind the new one, and the clause is read before it. -/
theorem Renames.exists_reading (renames : store.Renames other perch mark name)
    (bears : store.Bears perch) (forest : store.Forest)
    (within : store.Within other perch.clause) {top : Slot} (hangs : store.Below top perch.clause) :
    ∃ before behind, store.payload perch.clause ∈ before ∧
      store.payloadsBelow top =
        before ++ (store.reading perch.slot ++ (spellName perch.name ++ behind)) ∧
      other.payloadsBelow top =
        before ++ (store.reading perch.slot ++ (spellName (some name) ++ behind)) := by
  obtain ⟨front, back, reads, readsToo⟩ := within.exists_around forest hangs
  have inUse := forest.inUse_parent bears.slot_mem
  have distinct := forest.children_nodup perch.clause
  rw [bears.children, List.nodup_append, List.nodup_cons, List.nodup_append] at distinct
  obtain ⟨-, ⟨alone, -, -, behindApart⟩, frontApart⟩ := distinct
  have head : other.payload perch.clause = store.payload perch.clause := by
    refine renames.payload perch.clause inUse fun former isMark above => ?_
    refine forest.not_reaches_parent ?_ (reaches_child above)
    rw [bears.children]
    exact List.mem_append_right _ (List.mem_cons_of_mem _ (List.mem_append_left _ isMark))
  have same {slot : Slot} (member : slot ∈ store.children perch.clause)
      (apart : slot ∉ perch.marks) : other.reading slot = store.reading slot :=
    renames.reading_eq bears forest within.forest member apart
  have sameFront : perch.front.flatMap other.reading = perch.front.flatMap store.reading := by
    refine List.flatMap_congr fun slot member => same ?_ fun isMark => ?_
    · rw [bears.children]
      exact List.mem_append_left _ member
    · exact frontApart slot member slot
        (List.mem_cons_of_mem _ (List.mem_append_left _ isMark)) rfl
  have sameBack : perch.back.flatMap other.reading = perch.back.flatMap store.reading := by
    refine List.flatMap_congr fun slot member => same ?_ fun isMark => ?_
    · rw [bears.children]
      exact List.mem_append_right _ (List.mem_cons_of_mem _ (List.mem_append_right _ member))
    · exact behindApart slot isMark slot member rfl
  have sameSlot : other.reading perch.slot = store.reading perch.slot :=
    same bears.slot_mem fun isMark => alone (List.mem_append_left _ isMark)
  have clause : other.reading perch.clause = store.payload perch.clause ::
      (perch.front.flatMap store.reading ++ (store.reading perch.slot ++
        (spellName (some name) ++ perch.back.flatMap store.reading))) := by
    rw [← head, ← sameFront, ← sameBack, ← sameSlot]
    exact renames.bears.reading_clause within.forest
  refine ⟨front ++ store.payload perch.clause :: perch.front.flatMap store.reading,
    perch.back.flatMap store.reading ++ back, List.mem_append_right _ List.mem_cons_self, ?_, ?_⟩
  · rw [reads, bears.reading_clause forest]
    simp only [List.append_assoc, List.cons_append]
  · rw [readsToo, clause]
    simp only [List.append_assoc, List.cons_append]

end Store

end SqlDraft
