/-
**Erasing children.**

A child that is erased is taken out of its row and released with all that hangs below it; a row
that is erased is cut off and released child by child:

* `Store.Trimmed`: one row became shorter, and what hung below the removed children was given back.
* `Store.Forest.trimmed_eraseChild`, `Store.Forest.trimmed_eraseChildren`: the two ways to do so.
-/

import SqlDraft.Proofs.Store.Detaching
import SqlDraft.Proofs.Store.Pruning

namespace SqlDraft.Store

open Relation

variable {store other : Store}

/-! ### Releasing a row -/

/-- The sibling link of a top node is not part of any row. -/
theorem Forest.loosened (forest : store.Forest) {slot : Slot} (isTop : store.IsTop slot)
    (next : Option Slot) : (store.setNext slot next).Forest ∧
      (store.setNext slot next).children = store.children := by
  refine forest.of_same_links (slots_setNext store slot next) rfl (child_setNext next)
    (fun row member inRow => next_setNext_of_ne (isTop.ne_child inRow).symm next)
    fun idle member => node_update_other _ _ _ _ ?_
  exact fun same => isTop.1.2 (same ▸ member)

namespace Pruned

variable {gone : Slot → Prop}

theorem mem_children (pruned : store.Pruned other gone) {row child : Slot}
    (member : child ∈ other.children row) : child ∈ store.children row ∧ ¬ gone child := by
  have inUse := (pruned.inUse child).mp (pruned.forest.inUse_child row child member)
  have inUseRow := (pruned.inUse row).mp (pruned.forest.inUse_parent member)
  rw [pruned.children row inUseRow.2] at member
  exact ⟨member, inUse.2⟩

/-- A way that meets nothing released still exists. -/
theorem reaches_iff (pruned : store.Pruned other gone) {first : Slot}
    (apart : ∀ slot, store.Reaches first slot → ¬ gone slot) (last : Slot) :
    other.Reaches first last ↔ store.Reaches first last := by
  constructor
  · exact fun reaches => reaches.mono fun row child member => (pruned.mem_children member).1
  · intro reaches
    induction reaches with
    | refl => exact ReflTransGen.refl
    | tail before member step =>
      refine ReflTransGen.tail step ?_
      rwa [pruned.children _ (apart _ before)]

end Pruned

/-- Two top nodes reach no slot in common. -/
theorem Forest.eq_of_tops_reach (forest : store.Forest) {first second slot : Slot}
    (firstIsTop : store.IsTop first) (secondIsTop : store.IsTop second)
    (reachesFirst : store.Reaches first slot) (reachesSecond : store.Reaches second slot) :
    first = second := by
  cases forest.comparable reachesFirst reachesSecond with
  | inl reaches => exact eq_of_reaches_top secondIsTop reaches
  | inr reaches => exact (eq_of_reaches_top firstIsTop reaches).symm

/-- A top node stays one when it is cut off from the sibling behind it. -/
theorem Forest.isTop_loosened (forest : store.Forest) {slot : Slot} (isTop : store.IsTop slot)
    (next : Option Slot) (top : Slot) :
    (store.setNext slot next).IsTop top ↔ store.IsTop top := by
  have inUse : (store.setNext slot next).InUse = store.InUse := inUse_update _ _ _
  rw [IsTop, IsTop, inUse, (forest.loosened isTop next).2]

/-- A top node that is cut off from the sibling behind it is released with what hangs below it. -/
theorem Forest.pruned_shed (forest : store.Forest) {slot : Slot} (isTop : store.IsTop slot) :
    store.Pruned ((store.setNext slot none).discard slot) (store.Reaches slot) := by
  obtain ⟨loose, rows⟩ := forest.loosened isTop none
  have inUse : (store.setNext slot none).InUse = store.InUse := inUse_update _ _ _
  have sameWays : (store.setNext slot none).Reaches = store.Reaches := by
    unfold Reaches
    rw [rows]
  have pruned := loose.pruned_discard ((forest.isTop_loosened isTop none slot).mpr isTop)
  rw [sameWays] at pruned
  refine ⟨pruned.forest, fun found => ?_, fun found kept => ?_, fun found kept => ?_⟩
  · rw [pruned.inUse, inUse]
  · have different : found ≠ slot := by
      rintro rfl
      exact kept ReflTransGen.refl
    rw [pruned.node found kept]
    exact node_update_other _ _ _ _ different
  · rw [pruned.children found kept, rows]

section Shedding

variable {slot : Slot} {rest : List Slot}

/-- What hangs below the later members of a row of top nodes hangs not below the first one. -/
theorem Forest.apart_of_tops (forest : store.Forest) (distinct : (slot :: rest).Nodup)
    (tops : ∀ top ∈ slot :: rest, store.IsTop top) :
    ∀ top ∈ rest, ∀ below, store.Reaches top below → ¬ store.Reaches slot below := by
  intro top inRest below reaches reachesToo
  have same := forest.eq_of_tops_reach (tops top (List.mem_cons_of_mem slot inRest))
    (tops slot List.mem_cons_self) reaches reachesToo
  exact (List.nodup_cons.mp distinct).1 (same ▸ inRest)

/-- The later members of a row are top nodes still when the first one was released. -/
theorem Forest.isTop_shed (forest : store.Forest) (distinct : (slot :: rest).Nodup)
    (tops : ∀ top ∈ slot :: rest, store.IsTop top) :
    ∀ top ∈ rest, ((store.setNext slot none).discard slot).IsTop top := by
  intro top inRest
  have pruned := forest.pruned_shed (tops slot List.mem_cons_self)
  have wasTop := tops top (List.mem_cons_of_mem slot inRest)
  have kept := forest.apart_of_tops distinct tops top inRest top ReflTransGen.refl
  exact ⟨(pruned.inUse top).mpr ⟨wasTop.1, kept⟩, fun row member =>
    wasTop.2 row (pruned.mem_children member).1⟩

/-- The later members of a row are linked still when the first one was released. -/
theorem Forest.leads_shed (forest : store.Forest) (leads : store.Leads (some slot) (slot :: rest) none)
    (tops : ∀ top ∈ slot :: rest, store.IsTop top) :
    ((store.setNext slot none).discard slot).Leads (store.node slot).next rest none := by
  have pruned := forest.pruned_shed (tops slot List.mem_cons_self)
  have apart := forest.apart_of_tops leads.nodup tops
  refine leads.2.congr fun top inRest => ?_
  rw [pruned.node top (apart top inRest top ReflTransGen.refl)]

end Shedding

/-- **A row of top nodes is released with all that hangs below it.** -/
theorem Forest.pruned_discardChain (bound : Nat) : ∀ {store : Store}, store.Forest →
    ∀ {first : Option Slot} {row : List Slot}, store.Leads first row none →
      (∀ top ∈ row, store.IsTop top) → row.length ≤ bound →
        store.Pruned (discardChain bound first store)
          fun slot => ∃ top ∈ row, store.Reaches top slot := by
  induction bound with
  | zero =>
    intro store forest first row leads _ enough
    have nothing : row = [] := List.length_eq_zero_iff.mp (Nat.le_zero.mp enough)
    subst nothing
    exact ⟨forest, by simp [discardChain], fun _ _ => rfl, fun _ _ => rfl⟩
  | succ bound step =>
    intro store forest first row leads tops enough
    cases row with
    | nil =>
      have absent : first = none := leads
      subst absent
      exact ⟨forest, by simp [discardChain], fun _ _ => rfl, fun _ _ => rfl⟩
    | cons slot rest =>
      have starts := leads.1
      subst starts
      have pruned := forest.pruned_shed (tops slot List.mem_cons_self)
      have apart := forest.apart_of_tops leads.nodup tops
      have final := step pruned.forest (forest.leads_shed leads tops)
        (forest.isTop_shed leads.nodup tops) (Nat.le_of_succ_le_succ enough)
      have goneIff : ∀ found, (store.Reaches slot found ∨ ∃ top ∈ rest,
          ((store.setNext slot none).discard slot).Reaches top found) ↔
          ∃ top ∈ slot :: rest, store.Reaches top found := by
        intro found
        simp only [List.mem_cons, exists_eq_or_imp]
        refine or_congr Iff.rfl (exists_congr fun top => ?_)
        exact and_congr_right fun inRest => pruned.reaches_iff (apart top inRest) found
      rw [discardChain]
      refine ⟨final.forest, fun found => ?_, fun found kept => ?_, fun found kept => ?_⟩
      · rw [final.inUse, pruned.inUse, ← goneIff, not_or, and_assoc]
      · rw [← goneIff, not_or] at kept
        rw [final.node found kept.2, pruned.node found kept.1]
      · rw [← goneIff, not_or] at kept
        rw [final.children found kept.2, pruned.children found kept.1]

/-! ### Erasing children -/

/-- One row of children became shorter, and what hung below the removed children was given back. -/
structure Trimmed (store other : Store) (parent : Slot) (row : List Slot) (gone : Slot → Prop) :
    Prop where
  inUse_parent : store.InUse parent
  forest : other.Forest
  inUse : ∀ slot, other.InUse slot ↔ store.InUse slot ∧ ¬ gone slot
  children : ∀ slot, ¬ gone slot → other.children slot =
    Function.update store.children parent row slot
  payload : ∀ slot, ¬ gone slot → other.payload slot = store.payload slot
  next : ∀ top, store.IsTop top → (other.node top).next = (store.node top).next
  below : ∀ slot, gone slot → store.Below parent slot
  row_subset : ∀ child ∈ row, child ∈ store.children parent

/-- **Erasing a child gives back its subtree.** -/
theorem Forest.trimmed_eraseChild (forest : store.Forest) {parent slot : Slot}
    {before after : List Slot} (split : store.children parent = before ++ slot :: after) :
    store.Trimmed (store.eraseChild parent slot) parent (before ++ after)
      (store.Reaches slot) := by
  obtain ⟨detached, isChild⟩ := forest.detached_detach split
  have member : slot ∈ store.children parent := by simp [split]
  have pruned := detached.forest.pruned_discard detached.isTop
  have goneIff := detached.reaches_iff split
  rw [eraseChild, if_pos isChild]
  refine ⟨forest.inUse_parent member, pruned.forest, fun found => ?_, fun found kept => ?_,
    fun found kept => ?_, fun top isTop => ?_, fun found gone => ?_, fun child inRow => ?_⟩
  · rw [pruned.inUse, detached.inUse, goneIff]
  · rw [pruned.children found fun gone => kept ((goneIff found).mp gone), detached.children]
  · have same := congrFun detached.payload found
    rw [Store.payload, pruned.node found fun gone => kept ((goneIff found).mp gone)]
    exact same
  · have kept : ¬ (store.detach parent slot).Reaches slot top := by
      rw [goneIff]
      intro reaches
      exact (isTop.ne_child member) (eq_of_reaches_top isTop reaches).symm
    rw [pruned.node top kept, detached.next top isTop]
  · exact TransGen.head' member gone
  · rw [split, List.mem_append, List.mem_cons]
    rw [List.mem_append] at inRow
    tauto

/-! ### Cutting off a row -/

/-- A row that is emptied is missing, and the others are there. -/
theorem mem_row_emptied {rows : Slot → List Slot} {parent row child : Slot} :
    child ∈ Function.update rows parent [] row ↔ row ≠ parent ∧ child ∈ rows row := by
  by_cases same : row = parent
  · subst same
    simp
  · simp [same]

section Cutting

variable {parent : Slot} (forest : store.Forest) (inUse : store.InUse parent)

include forest

/-- A row that is cut off is still linked. -/
theorem Forest.leads_cut_off (parent : Slot) :
    (store.setChild parent none).Leads (store.firstChild? parent) (store.children parent) none :=
  (forest.ends parent).congr fun member _ => next_setChild none member

include inUse

/-- The other rows are linked as before. -/
theorem Forest.ends_cut_off (row : Slot) : (store.setChild parent none).Leads
    ((store.setChild parent none).node row).child
    (Function.update store.children parent [] row) none := by
  by_cases same : row = parent
  · subst same
    rw [Function.update_self, child_setChild inUse.1]
    rfl
  · rw [Function.update_of_ne same]
    exact forest.ends_of_same (child_setChild_of_ne same none) fun member _ =>
      next_setChild none member

theorem Forest.children_cut_off :
    (store.setChild parent none).children = Function.update store.children parent [] :=
  children_eq_of_ends (forest.ends_cut_off inUse) fun row member inRow => by
    rw [setChild, slots_update]
    exact (forest.inUse_child row member (mem_row_emptied.mp inRow).2).1

/-- The members of a row that is cut off are top nodes. -/
theorem Forest.isTop_cut_off {child : Slot} (member : child ∈ store.children parent) :
    (store.setChild parent none).IsTop child := by
  refine ⟨inUse_update store parent _ ▸ forest.inUse_child _ _ member, fun row inRow => ?_⟩
  rw [forest.children_cut_off inUse] at inRow
  obtain ⟨different, before⟩ := mem_row_emptied.mp inRow
  exact different (forest.sole_parent _ _ _ before member)

/-- A node whose child link is cut leaves its children as top nodes. -/
theorem Forest.cut_off : (store.setChild parent none).Forest := by
  have sameUse : (store.setChild parent none).InUse = store.InUse := inUse_update _ _ _
  have rows := forest.children_cut_off inUse
  refine ⟨fun row => rows ▸ forest.ends_cut_off inUse row, fun row child member => ?_,
    fun row second child member memberToo => ?_, fun found foundInUse => ?_,
    forest.released_nodup, fun found member => ?_, fun found member => ?_⟩
  · rw [rows] at member
    rw [sameUse]
    exact forest.inUse_child row child (mem_row_emptied.mp member).2
  · rw [rows] at member memberToo
    exact forest.sole_parent row second child (mem_row_emptied.mp member).2
      (mem_row_emptied.mp memberToo).2
  · rw [sameUse] at foundInUse
    obtain ⟨top, topIsTop, reaches⟩ := forest.grounded found foundInUse
    cases reaches_cut rows reaches with
    | inl further =>
      refine ⟨top, ⟨sameUse ▸ topIsTop.1, fun row member => ?_⟩, further⟩
      rw [rows] at member
      exact topIsTop.2 row (mem_row_emptied.mp member).2
    | inr passed =>
      obtain ⟨child, member, further⟩ := passed
      exact ⟨child, forest.isTop_cut_off inUse member, further⟩
  · rw [setChild, slots_update]
    exact forest.released_made found member
  · have different : found ≠ parent := fun same => inUse.2 (same ▸ member)
    exact (node_update_other _ _ _ _ different).trans (forest.released_blank found member)

end Cutting

/-- **Erasing all children gives back all that hangs below their parent.** -/
theorem Forest.trimmed_eraseChildren (forest : store.Forest) {parent : Slot}
    (inUse : store.InUse parent) :
    store.Trimmed (store.eraseChildren parent) parent [] (store.Below parent) := by
  have rows := forest.children_cut_off inUse
  have sameUse : (store.setChild parent none).InUse = store.InUse := inUse_update _ _ _
  have room : (store.children parent).length ≤ store.slots + 1 :=
    Nat.le_succ_of_le (length_le_of_made (forest.children_nodup parent) fun member inRow =>
      (forest.inUse_child _ _ inRow).1)
  have pruned := Forest.pruned_discardChain _ (forest.cut_off inUse) (forest.leads_cut_off parent)
    (fun _ => forest.isTop_cut_off inUse) room
  have goneIff : ∀ found, (∃ top ∈ store.children parent,
      (store.setChild parent none).Reaches top found) ↔ store.Below parent found := by
    intro found
    constructor
    · rintro ⟨top, member, reaches⟩
      exact TransGen.head' member (reaches_of_cut rows reaches)
    · intro hangs
      obtain ⟨child, member, reaches⟩ := exists_child_of_below hangs
      cases reaches_cut rows reaches with
      | inl further => exact ⟨child, member, further⟩
      | inr passed => exact passed
  rw [eraseChildren]
  refine ⟨inUse, pruned.forest, fun found => ?_, fun found kept => ?_, fun found kept => ?_,
    fun top isTop => ?_, fun found gone => gone, fun child member => absurd member List.not_mem_nil⟩
  · rw [pruned.inUse, sameUse, goneIff]
  · rw [pruned.children found fun gone => kept ((goneIff found).mp gone), rows]
  · have same := congrFun (payload_setChild store parent none) found
    rw [Store.payload, pruned.node found fun gone => kept ((goneIff found).mp gone)]
    exact same
  · have kept : ¬ store.Below parent top := by
      intro hangs
      obtain ⟨row, _, member⟩ := TransGen.tail'_iff.mp hangs
      exact isTop.2 row member
    rw [pruned.node top fun gone => kept ((goneIff top).mp gone), next_setChild]

theorem Trimmed.isTop_iff {parent : Slot} {row : List Slot} {gone : Slot → Prop}
    (trimmed : store.Trimmed other parent row gone)
    (whole : ∀ child ∈ store.children parent, child ∉ row → gone child)
    (closed : ∀ above child, gone above → child ∈ store.children above → gone child) (top : Slot) :
    other.IsTop top ↔ store.IsTop top := by
  constructor
  · rintro ⟨inUse, orphan⟩
    obtain ⟨before, kept⟩ := (trimmed.inUse top).mp inUse
    refine ⟨before, fun above member => ?_⟩
    by_cases goneAbove : gone above
    · exact kept (closed above top goneAbove member)
    · by_cases same : above = parent
      · subst same
        by_cases inRow : top ∈ row
        · refine orphan above ?_
          rwa [trimmed.children above goneAbove, Function.update_self]
        · exact kept (whole top member inRow)
      · refine orphan above ?_
        rwa [trimmed.children above goneAbove, Function.update_of_ne same]
  · rintro ⟨inUse, orphan⟩
    have kept : ¬ gone top := by
      intro goneTop
      obtain ⟨above, _, member⟩ := TransGen.tail'_iff.mp (trimmed.below top goneTop)
      exact orphan above member
    refine ⟨(trimmed.inUse top).mpr ⟨inUse, kept⟩, fun above member => ?_⟩
    have inUseAbove := (trimmed.inUse above).mp (trimmed.forest.inUse_parent member)
    rw [trimmed.children above inUseAbove.2] at member
    by_cases same : above = parent
    · subst same
      rw [Function.update_self] at member
      exact orphan above (trimmed.row_subset top member)
    · rw [Function.update_of_ne same] at member
      exact orphan above member

end SqlDraft.Store
