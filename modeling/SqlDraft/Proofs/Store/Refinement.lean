/-
**The links of a store refine an ordered forest.**

The steps of a script that allocate, link, detach, release and read children are described on the
layout alone:

* `Store.Layout.Allows`: the steps that keep an ordered forest.
* `Store.Layout.after`, `Store.Layout.reply`: the layout after a step, and what the step tells.
* `Store.Represents.perform`: a step on a store that represents a layout tells the same, and the store
  after it represents the layout after it.
* `Store.Scripted`: a script of such steps; `Store.link_operations_refine_lists` is about all of them.
-/

import SqlDraft.Proofs.Store.ListOperations
import SqlDraft.Store.Script

namespace SqlDraft.Store

open Relation

/-! ### Steps on layouts -/

namespace Layout

/-- A step that keeps an ordered forest: a slot that is linked is detached, and neither the slot it
is linked to nor above that one. -/
inductive Allows (layout : Layout) : Step → Prop
  | allocate : layout.Allows .allocate
  | allocateWith (payload : Payload) : layout.Allows (.allocateWith payload)
  | addChild {parent : Slot} (live : layout.live parent) (payload : Payload) :
      layout.Allows (.addChild parent payload)
  | linkLast {parent slot : Slot} (live : layout.live parent) (detached : layout.Detached slot)
      (apart : ¬ layout.Reaches slot parent) : layout.Allows (.linkLast parent slot)
  | linkFirst {parent slot : Slot} (live : layout.live parent) (detached : layout.Detached slot)
      (apart : ¬ layout.Reaches slot parent) : layout.Allows (.linkFirst parent slot)
  | linkAfter {parent previous slot : Slot} (child : layout.Child parent previous)
      (detached : layout.Detached slot) (apart : ¬ layout.Reaches slot previous) :
      layout.Allows (.linkAfter previous slot)
  | detach {parent slot : Slot} (live : layout.live parent) (made : slot < layout.made) :
      layout.Allows (.detach parent slot)
  | eraseChild {parent slot : Slot} (live : layout.live parent) (made : slot < layout.made) :
      layout.Allows (.eraseChild parent slot)
  | eraseChildren {parent : Slot} (live : layout.live parent) : layout.Allows (.eraseChildren parent)
  | discard {slot : Slot} (loose : layout.Loose slot) : layout.Allows (.discard slot)
  | children {parent : Slot} (live : layout.live parent) : layout.Allows (.children parent)
  | firstChild {parent : Slot} (live : layout.live parent) : layout.Allows (.firstChild parent)
  | lastChild {parent : Slot} (live : layout.live parent) : layout.Allows (.lastChild parent)

/-- The layout after a step, with the slot that an allocation hands out. -/
def after (layout : Layout) (new : Slot) : Step → Layout
  | .allocate => layout.allocated new .blank
  | .allocateWith payload => layout.allocated new payload
  | .addChild parent payload => (layout.allocated new payload).appended parent new
  | .linkLast parent slot => layout.appended parent slot
  | .linkFirst parent slot => layout.prepended parent slot
  | .linkAfter previous slot => layout.insertedAfter previous slot
  | .detach parent slot =>
    if slot ∈ layout.rows parent then layout.removed parent slot else layout
  | .eraseChild parent slot =>
    if slot ∈ layout.rows parent then (layout.removed parent slot).discarded slot else layout
  | .eraseChildren parent => layout.emptied parent
  | .discard slot => layout.discarded slot
  | _ => layout

/-- What a step tells, with the slot that an allocation hands out. -/
def reply (layout : Layout) (new : Slot) : Step → Reply
  | .allocate | .allocateWith _ | .addChild _ _ => .slot (some new)
  | .children parent => .slots (layout.rows parent)
  | .firstChild parent => .slot (layout.rows parent).head?
  | .lastChild parent => .slot (layout.rows parent).getLast?
  | .detach parent slot => .flag (decide (slot ∈ layout.rows parent))
  | _ => .done

variable {layout : Layout}

/-- A slot that is deleted from its row is detached. -/
theorem IsForest.detached_removed (forest : layout.IsForest) {parent slot : Slot}
    (child : layout.Child parent slot) : (layout.removed parent slot).Detached slot := by
  refine ⟨⟨forest.live_child parent slot child, fun above inRow => ?_⟩, Function.update_self ..⟩
  obtain ⟨live, member⟩ := inRow
  simp only [removed] at live member
  by_cases same : above = parent
  · subst same
    rw [Function.update_self] at member
    exact (forest.distinct above live).not_mem_erase member
  · rw [Function.update_of_ne same] at member
    exact same (forest.sole_parent above parent slot ⟨live, member⟩ child)

/-- A slot that is deleted from its row keeps all that hangs below it. -/
theorem IsForest.reaches_removed (forest : layout.IsForest) {parent slot : Slot}
    (child : layout.Child parent slot) (found : Slot) :
    (layout.removed parent slot).Reaches slot found ↔ layout.Reaches slot found := by
  constructor
  · refine ReflTransGen.mono (fun above below inRow => ?_) slot found
    obtain ⟨live, member⟩ := inRow
    refine ⟨live, ?_⟩
    simp only [removed] at member
    by_cases same : above = parent
    · subst same
      rw [Function.update_self] at member
      exact List.mem_of_mem_erase member
    · rwa [Function.update_of_ne same] at member
  · -- The way down never comes back to the parent, whose row is the only one that changed.
    intro reaches
    induction reaches with
    | refl => exact ReflTransGen.refl
    | @tail above below way inRow step =>
      refine ReflTransGen.tail step ⟨inRow.1, ?_⟩
      have different : above ≠ parent := by
        rintro rfl
        exact forest.acyclic above (TransGen.head' child way)
      simp only [removed]
      rw [Function.update_of_ne different]
      exact inRow.2

theorem Allows.made {step : Step} (allows : layout.Allows step) (forest : layout.IsForest) :
    ∀ slot ∈ step.named, slot < layout.made := by
  intro slot named
  cases allows with
  | allocate => exact absurd named List.not_mem_nil
  | allocateWith => exact absurd named List.not_mem_nil
  | addChild live | eraseChildren live | children live | firstChild live | lastChild live =>
    exact List.mem_singleton.mp named ▸ forest.live_made _ live
  | discard loose => exact List.mem_singleton.mp named ▸ forest.live_made _ loose.1
  | linkLast live detached | linkFirst live detached =>
    rcases List.mem_pair.mp named with rfl | rfl
    · exact forest.live_made _ live
    · exact forest.live_made _ detached.1.1
  | linkAfter child detached =>
    rcases List.mem_pair.mp named with rfl | rfl
    · exact forest.live_made _ (forest.live_child _ _ child)
    · exact forest.live_made _ detached.1.1
  | detach live made | eraseChild live made =>
    rcases List.mem_pair.mp named with rfl | rfl
    · exact forest.live_made _ live
    · exact made

end Layout

/-! ### One step -/

namespace Represents

variable {store : Store} {layout : Layout} (represents : store.Represents layout)

include represents

/-- Erasing a child deletes it from its row and gives back all that hangs below it. -/
theorem eraseChild {parent slot : Slot} (child : layout.Child parent slot) :
    (store.eraseChild parent slot).Represents ((layout.removed parent slot).discarded slot) := by
  have found : store.isChild parent slot = true := by
    rw [represents.isChild_eq child.1, decide_eq_true child.2]
  rw [Store.eraseChild, if_pos found]
  exact (represents.detach child).discard (represents.isForest.detached_removed child).1

/-- Erasing a slot that is no child changes nothing. -/
theorem eraseChild_eq {parent slot : Slot} (live : layout.live parent)
    (absent : slot ∉ layout.rows parent) : store.eraseChild parent slot = store := by
  have missed : store.isChild parent slot = false := by
    rw [represents.isChild_eq live, decide_eq_false absent]
  rw [Store.eraseChild, if_neg (Bool.eq_false_iff.mp missed)]

/-- **A step on a store that represents a layout does what it does on the layout.** -/
theorem perform {step : Step} (allows : layout.Allows step) :
    (store.perform step).2.Represents (layout.after store.fresh step) := by
  cases allows with
  | allocate => exact represents.allocate _
  | allocateWith payload => exact represents.allocate payload
  | addChild live payload => exact represents.addChild live payload
  | linkLast live detached apart => exact represents.linkLast live detached apart
  | linkFirst live detached apart => exact represents.linkFirst live detached apart
  | linkAfter child detached apart => exact represents.linkAfter child detached apart
  | @detach parent slot live made =>
    rw [Store.perform, Layout.after]
    split
    · next member => exact represents.detach ⟨live, member⟩
    · next absent =>
      rw [represents.detach_eq live absent]
      exact represents
  | @eraseChild parent slot live made =>
    rw [Store.perform, Layout.after]
    split
    · next member => exact represents.eraseChild ⟨live, member⟩
    · next absent =>
      rw [represents.eraseChild_eq live absent]
      exact represents
  | eraseChildren live => exact represents.eraseChildren live
  | discard loose => exact represents.discard loose
  | children _ | firstChild _ | lastChild _ => exact represents

/-- **A step on a store that represents a layout tells what it tells on the layout.** -/
theorem perform_reply {step : Step} (allows : layout.Allows step) :
    (store.perform step).1 = layout.reply store.fresh step := by
  cases allows with
  | children live => exact congrArg Reply.slots (represents.children live)
  | firstChild live =>
    have first := (represents.row _ live).eq_head?
    exact congrArg Reply.slot first
  | lastChild live => exact congrArg (Reply.slot ·.getLast?) (represents.children live)
  | detach live made => exact congrArg Reply.flag (represents.isChild_eq live _)
  | _ => rfl

end Represents

/-! ### Scripts -/

/-- A script of steps that are allowed, each on the layout after the steps before it, with what they
tell and the layout in the end. A later step names the slots that the store handed out. -/
inductive Scripted : Store → Layout → List Step → List Reply → Layout → Prop
  | done (store : Store) (layout : Layout) : Scripted store layout [] [] layout
  | step {store : Store} {layout last : Layout} {step : Step} {steps : List Step}
      {replies : List Reply} (allows : layout.Allows step)
      (rest : Scripted (store.perform step).2 (layout.after store.fresh step) steps replies last) :
      Scripted store layout (step :: steps) (layout.reply store.fresh step :: replies) last

variable {store : Store} {layout : Layout}

/-- **A script of allowed steps runs to its end**, tells what it tells on the layouts and leaves a
store that represents the last one. -/
theorem Scripted.transcript? {steps : List Step} {replies : List Reply} {last : Layout}
    (scripted : Scripted store layout steps replies last) (represents : store.Represents layout) :
    ∃ remarks other, store.transcript? steps = some (remarks, other) ∧
      remarks.map Remark.reply = replies ∧ other.Represents last := by
  induction scripted with
  | done => exact ⟨[], _, rfl, rfl, represents⟩
  | @step store layout last step steps replies allows _ goes =>
    obtain ⟨remarks, other, ran, told, final⟩ := goes (represents.perform allows)
    have made : step.named.all (· < store.slots) := by
      rw [List.all_eq_true]
      intro slot named
      rw [represents.slots]
      exact decide_eq_true (allows.made represents.isForest slot named)
    have reply := represents.perform_reply allows
    let performed := store.perform step
    let remark : Remark := ⟨performed.1, performed.2.inUse, performed.2.usage⟩
    refine ⟨remark :: remarks, other, ?_, ?_, final⟩
    · simp only [Store.transcript?, if_pos made, ran, Option.map_some]
      rfl
    · rw [List.map_cons, told, ← reply]

/-- **The operations on links are the operations on the lists they stand for**: on a store whose
links represent an ordered forest, each of them changes the layout as the list operation does and
tells the same; a slot that is no child is not found, and then nothing changes; a slot that is
detached has no sibling, stands in no row and keeps all that hangs below it; and a script of such
steps runs to its end. -/
theorem link_operations_refine_lists (represents : store.Represents layout) :
    (∀ step, layout.Allows step →
      (store.perform step).2.Represents (layout.after store.fresh step) ∧
        (store.perform step).1 = layout.reply store.fresh step) ∧
    (∀ parent slot, layout.live parent → slot ∉ layout.rows parent →
      store.perform (.detach parent slot) = (.flag false, store) ∧
        (store.perform (.eraseChild parent slot)).2 = store) ∧
    (∀ parent slot, layout.live parent → slot ∈ layout.rows parent →
      (store.perform (.detach parent slot)).1 = .flag true ∧
        (layout.removed parent slot).Detached slot ∧
        ∀ found, (layout.removed parent slot).Reaches slot found ↔ layout.Reaches slot found) ∧
    ∀ steps replies last, Scripted store layout steps replies last →
      ∃ remarks other, store.transcript? steps = some (remarks, other) ∧
        remarks.map Remark.reply = replies ∧ other.Represents last := by
  refine ⟨fun step allows => ⟨represents.perform allows, represents.perform_reply allows⟩,
    fun parent slot live absent => ⟨?_, represents.eraseChild_eq live absent⟩,
    fun parent slot live member => ⟨?_, represents.isForest.detached_removed ⟨live, member⟩,
      represents.isForest.reaches_removed ⟨live, member⟩⟩,
    fun steps replies last scripted => scripted.transcript? represents⟩
  · rw [Store.perform, represents.isChild_eq live, decide_eq_false absent,
      represents.detach_eq live absent]
  · rw [Store.perform, represents.isChild_eq live, decide_eq_true member]

/-- A root with two children and a detached node. In a released slot stands a link to the root. -/
def smallStore : Store where
  chunkSize := 8
  nodes := #[⟨.literal "root", none, some 1⟩, ⟨.literal "a", some 2, none⟩,
    ⟨.literal "c", none, none⟩, ⟨.literal "b", none, none⟩, ⟨.blank, some 1, some 0⟩]
  released := [4]
  chunks := 1

/-- The layout of the small store. -/
def smallLayout : Layout where
  made := 5
  live slot := slot < 4
  rows slot := if slot = 0 then [1, 2] else []
  payload := smallStore.payload
  stray _ := none

theorem smallLayout_child {parent child : Slot} (inRow : smallLayout.Child parent child) :
    parent = 0 ∧ (child = 1 ∨ child = 2) := by
  obtain ⟨_, member⟩ := inRow
  simp only [smallLayout] at member
  split at member
  · next same => exact ⟨same, List.mem_pair.mp member⟩
  · exact absurd member List.not_mem_nil

theorem smallLayout_isForest : smallLayout.IsForest where
  live_made slot live := Nat.lt_succ_of_lt live
  live_child parent child inRow := by
    rcases (smallLayout_child inRow).2 with rfl | rfl <;> simp [smallLayout]
  distinct parent _ := by
    simp only [smallLayout]
    split <;> decide
  sole_parent parent other child inRow inRowToo :=
    (smallLayout_child inRow).1.trans (smallLayout_child inRowToo).1.symm
  acyclic slot cycle := by
    obtain ⟨_, first, _⟩ := TransGen.head'_iff.mp cycle
    obtain ⟨_, _, last⟩ := TransGen.tail'_iff.mp cycle
    have isRoot := (smallLayout_child first).1
    subst isRoot
    exact absurd (smallLayout_child last).2 (by decide)

theorem smallStore_represents : smallStore.Represents smallLayout where
  isForest := smallLayout_isForest
  slots := rfl
  released_nodup := by decide
  mem_released slot := by
    have numbers : ∀ number : Nat, number = 4 ↔ number < 5 ∧ ¬ number < 4 := by omega
    exact List.mem_singleton.trans (numbers slot)
  row
    | 0, _ => ⟨rfl, rfl, rfl⟩
    | 1, _ | 2, _ | 3, _ => rfl
    | _ + 4, live => absurd live (Nat.not_lt.mpr (Nat.le_add_left 4 _))
  payload _ _ := rfl
  stray
    | 0, _ | 2, _ | 3, _ => rfl
    | 1, loose => absurd ⟨Nat.zero_lt_succ 3, List.mem_cons_self⟩ (loose.2 0)
    | _ + 4, loose => absurd loose.1 (Nat.not_lt.mpr (Nat.le_add_left 4 _))

/-- The steps of the small script. -/
def smallSteps : List Step :=
  [.linkAfter 1 3, .children 0, .detach 0 3, .detach 0 3, .eraseChild 0 1, .children 0]

/-- What the small script tells. -/
def smallReplies : List Reply :=
  [.done, .slots [1, 3, 2], .flag true, .flag false, .done, .slots [2]]

/-- The detached node is put between the two children and taken out again, which it cannot be a
second time; then the first child is erased. -/
theorem smallStore_scripted : ∃ last, Scripted smallStore smallLayout smallSteps smallReplies last ∧
    last.rows 0 = [2] ∧ ¬ last.live 1 ∧ last.live 3 := by
  have detached : smallLayout.Detached 3 := by
    refine ⟨⟨Nat.lt_succ_self 3, fun parent inRow => ?_⟩, rfl⟩
    exact absurd (smallLayout_child inRow).2 (by decide)
  have apart : ¬ smallLayout.Reaches 3 1 := Layout.not_reaches_of_row_nil rfl (by decide)
  have live : smallLayout.live 0 := Nat.zero_lt_succ 3
  have made : 3 < smallLayout.made := by decide
  have madeToo : 1 < smallLayout.made := by decide
  refine ⟨_, .step (.linkAfter ⟨live, List.mem_cons_self⟩ detached apart) (.step (.children live)
    (.step (.detach live made) (.step (.detach live made) (.step (.eraseChild live madeToo)
      (.step (.children ⟨live, ?_⟩) (.done _ _)))))), rfl, fun kept => ?_, ⟨?_, ?_⟩⟩
  · exact Layout.not_reaches_of_row_nil rfl (by decide)
  · exact kept.2 ReflTransGen.refl
  · exact Nat.lt_succ_self 3
  · exact Layout.not_reaches_of_row_nil rfl (by decide)

theorem link_operations_refine_lists_small : smallStore.Represents smallLayout ∧
    ∃ remarks other last, smallStore.transcript? smallSteps = some (remarks, other) ∧
      remarks.map Remark.reply = smallReplies ∧ other.Represents last ∧
      last.rows 0 = [2] ∧ ¬ last.live 1 ∧ last.live 3 := by
  obtain ⟨last, scripted, row, gone, kept⟩ := smallStore_scripted
  obtain ⟨_, _, _, scripts⟩ := link_operations_refine_lists smallStore_represents
  obtain ⟨remarks, other, ran, told, represents⟩ := scripts _ _ last scripted
  exact ⟨smallStore_represents, remarks, other, last, ran, told, represents, row, gone, kept⟩

end SqlDraft.Store
