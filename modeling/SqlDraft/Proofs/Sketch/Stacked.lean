/-
**Open scopes on a stack.**

Every scope that was ever opened has an outline. The open scopes are on a stack, the innermost one
first, and each of them stands in the outline of the scope around it:

* `Scope.Held`: what a scope remembers is what its outline says.
* `Outline.Complete`: a scope that was closed says what it returns.
* `Scope.Inside`: a scope was opened below a node of the scope around it.
* `Stacked`: the open scopes are those of a stack, and all others are complete.
* `Stacked.revised`, `Stacked.pushed`, `Stacked.popped`: what the calls do to the stack.
-/

import Mathlib.Data.List.Chain
import SqlDraft.Proofs.Sketch.Outline

namespace SqlDraft

/-! ### Scopes and their outlines -/

/-- What a scope remembers is what its outline says. -/
structure Scope.Held (scope : Scope) (outline : Outline) : Prop where
  kind : outline.kind = scope.kind
  opened : outline.closed = false
  command : scope.command = outline.command.map Clause.slot
  table : scope.table = outline.table.map Clause.slot
  join : scope.join = if outline.joining then outline.joins.getLast?.map Clause.slot else none
  target : scope.target = outline.target.bind outline.place?
  /-- A name that goes somewhere has a place to go to. -/
  placed : ∀ target ∈ outline.target, (outline.place? target).isSome
  /-- Conditions never go to a cross join. -/
  crossing : outline.joining = true → ∃ clause ∈ outline.joins.getLast?, clause.part.kind ≠ .cross
  /-- An ordering has columns. -/
  ordered : ∀ clause ∈ outline.ordering, clause.part ≠ []
  /-- A group has conditions only. -/
  bare : outline.kind = .group →
    outline.command = none ∧ outline.table = none ∧ outline.joins = []

/-- A scope that was closed says what it returns if it has a table. -/
structure Outline.Complete (outline : Outline) : Prop where
  closed : outline.closed = true
  projected : outline.kind ≠ .group → outline.table.isSome → outline.command.isSome

/-- A scope was opened below a node of the scope around it. -/
structure Scope.Inside (outlines : Slot → Outline) (inner outer : Scope) : Prop where
  kind : inner.kind ≠ .statement
  stands : inner.root ∈ Tree.scopes (outlines outer.root).trees
  /-- A scope that a name will go to is the table or the last join. -/
  named : inner.handback.takesName = true →
    ∃ target, (outlines outer.root).place? target = some inner.root

/-- A scope stays inside the one around it when only other outlines change. -/
theorem Scope.Inside.update {outlines : Slot → Outline} {root : Slot} {outline : Outline}
    {inner outer : Scope} (inside : inner.Inside outlines outer) (different : outer.root ≠ root) :
    inner.Inside (Function.update outlines root outline) outer := by
  refine ⟨inside.kind, ?_, ?_⟩
  · rw [Function.update_of_ne different]
    exact inside.stands
  · rw [Function.update_of_ne different]
    exact inside.named

/-- **The open scopes are on a stack, and all others are complete.** -/
structure Stacked (opens : List Scope) (scopes : List Slot) (outlines : Slot → Outline) :
    Prop where
  known : ∀ scope ∈ opens, scope.root ∈ scopes
  held : ∀ scope ∈ opens, scope.Held (outlines scope.root)
  closed : ∀ root ∈ scopes, root ∉ opens.map Scope.root → (outlines root).Complete
  inside : opens.IsChain (Scope.Inside outlines)
  separate : (opens.map Scope.root).Nodup

namespace Stacked

variable {scope : Scope} {around : List Scope} {scopes : List Slot} {outlines : Slot → Outline}
  {outline : Outline}

/-- A scope that is open alone. -/
theorem alone (held : scope.Held outline) : Stacked [scope] [scope.root] fun _ => outline where
  known found member := by
    rw [List.mem_singleton.mp member]
    exact List.mem_singleton_self _
  held found member := by
    rw [List.mem_singleton.mp member]
    exact held
  closed _ isScope away := absurd isScope away
  inside := List.isChain_singleton _
  separate := List.nodup_singleton _

theorem ne_of_around (stacked : Stacked (scope :: around) scopes outlines) {outer : Scope}
    (member : outer ∈ around) : outer.root ≠ scope.root := by
  have distinct := stacked.separate
  rw [List.map_cons, List.nodup_cons] at distinct
  intro same
  exact distinct.1 (same ▸ List.mem_map_of_mem member)

/-- The scopes around the innermost one stay inside each other when its outline changes. -/
theorem isChain_around (stacked : Stacked (scope :: around) scopes outlines) (outline : Outline) :
    around.IsChain (Scope.Inside (Function.update outlines scope.root outline)) :=
  (List.isChain_cons.mp stacked.inside).2.imp_of_mem_imp fun _ _ _ isOpen inside =>
    inside.update (stacked.ne_of_around isOpen)

/-! ### What calls do to the stack -/

/-- **The innermost scope says something else.** -/
theorem revised (stacked : Stacked (scope :: around) scopes outlines) {changed : Scope}
    (root : changed.root = scope.root) (handback : changed.handback = scope.handback)
    (kind : changed.kind = scope.kind) (held : changed.Held outline) :
    Stacked (changed :: around) scopes (Function.update outlines scope.root outline) := by
  have roots : (changed :: around).map Scope.root = (scope :: around).map Scope.root := by
    rw [List.map_cons, List.map_cons, root]
  refine ⟨fun found member => ?_, fun found member => ?_, fun found isScope away => ?_, ?_, ?_⟩
  · rcases List.mem_cons.mp member with rfl | outside
    · rw [root]
      exact stacked.known scope List.mem_cons_self
    · exact stacked.known found (List.mem_cons_of_mem _ outside)
  · rcases List.mem_cons.mp member with rfl | outside
    · rw [root, Function.update_self]
      exact held
    · rw [Function.update_of_ne (stacked.ne_of_around outside)]
      exact stacked.held found (List.mem_cons_of_mem _ outside)
  · rw [roots] at away
    have different : found ≠ scope.root := by
      rintro rfl
      exact away (List.mem_map_of_mem List.mem_cons_self)
    rw [Function.update_of_ne different]
    exact stacked.closed found isScope away
  · refine List.isChain_cons.mpr ⟨fun outer isNext => ?_, stacked.isChain_around outline⟩
    have different := stacked.ne_of_around (List.mem_of_mem_head? isNext)
    have inside : scope.Inside (Function.update outlines scope.root outline) outer :=
      ((List.isChain_cons.mp stacked.inside).1 outer isNext).update different
    refine ⟨?_, ?_, ?_⟩
    · rw [kind]
      exact inside.kind
    · rw [root]
      exact inside.stands
    · rw [handback, root]
      exact inside.named
  · rw [roots]
    exact stacked.separate

/-- **A scope is opened inside the innermost one.** -/
theorem pushed (stacked : Stacked (scope :: around) scopes outlines) {inner : Scope}
    (isNew : inner.root ∉ scopes) (held : inner.Held outline)
    (inside : inner.Inside outlines scope) :
    Stacked (inner :: scope :: around) (inner.root :: scopes)
      (Function.update outlines inner.root outline) := by
  have different : ∀ found ∈ scope :: around, found.root ≠ inner.root := by
    intro found isOpen same
    exact isNew (same ▸ stacked.known found isOpen)
  refine ⟨fun found member => ?_, fun found member => ?_, fun found isScope away => ?_, ?_, ?_⟩
  · rcases List.mem_cons.mp member with rfl | outside
    · exact List.mem_cons_self
    · exact List.mem_cons_of_mem _ (stacked.known found outside)
  · rcases List.mem_cons.mp member with rfl | outside
    · rw [Function.update_self]
      exact held
    · rw [Function.update_of_ne (different found outside)]
      exact stacked.held found outside
  · rw [List.map_cons, List.mem_cons, not_or] at away
    rw [Function.update_of_ne away.1]
    exact stacked.closed found ((List.mem_cons.mp isScope).resolve_left away.1) away.2
  · refine List.isChain_cons_cons.mpr ⟨inside.update (different scope List.mem_cons_self), ?_⟩
    exact stacked.inside.imp_of_mem_imp fun _ outer _ isOpen inside =>
      inside.update (different outer isOpen)
  · rw [List.map_cons, List.nodup_cons]
    refine ⟨fun member => ?_, stacked.separate⟩
    obtain ⟨found, isOpen, same⟩ := List.mem_map.mp member
    exact different found isOpen same

/-- **The innermost scope is closed.** -/
theorem popped (stacked : Stacked (scope :: around) scopes outlines)
    (complete : outline.Complete) :
    Stacked around scopes (Function.update outlines scope.root outline) := by
  refine ⟨fun found member => ?_, fun found member => ?_, fun found isScope away => ?_, ?_, ?_⟩
  · exact stacked.known found (List.mem_cons_of_mem _ member)
  · rw [Function.update_of_ne (stacked.ne_of_around member)]
    exact stacked.held found (List.mem_cons_of_mem _ member)
  · by_cases here : found = scope.root
    · rw [here, Function.update_self]
      exact complete
    · rw [Function.update_of_ne here]
      apply stacked.closed found isScope
      rw [List.map_cons, List.mem_cons, not_or]
      exact ⟨here, away⟩
  · exact stacked.isChain_around outline
  · have separate := stacked.separate
    rw [List.map_cons, List.nodup_cons] at separate
    exact separate.2

end Stacked

end SqlDraft
