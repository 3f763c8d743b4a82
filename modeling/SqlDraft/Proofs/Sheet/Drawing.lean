/-
**What calls say in a draft.**

A drawn draft has a sheet for its innermost scope. The payloads inside the scopes of the sheet are left
open, since they are not settled before the last call; they only have to be those of the outlines in
the end.

* `Drawing`: a draft with the outlines it is drawn by.
* `Drawing.Says`: how a drawing goes on, and what was said in its innermost scope.
* `Drawing.Says.trans`: what is said in a row.
* `Drawing.reaches_update`: the innermost scope says something else.
-/

import SqlDraft.Proofs.Run.Conditions
import SqlDraft.Proofs.Sheet.Frames
import SqlDraft.Proofs.Sheet.Saying

namespace SqlDraft

/-- A draft with the outlines it is drawn by. -/
structure Drawing where
  draft : Draft
  scopes : List Slot
  outlines : Slot → Outline
  sketched : draft.Sketched scopes outlines

namespace Drawing

/-- The root of the innermost scope. -/
def root (drawing : Drawing) : Slot := drawing.draft.scope.root

/-- The outline of the innermost scope. -/
def outline (drawing : Drawing) : Outline := drawing.outlines drawing.root

/-- The payloads inside of scopes are those of their outlines, for all but some known scopes. -/
def Spells (drawing : Drawing) (known : List Slot) (inside : Slot → List Payload) : Prop :=
  ∀ root ∈ drawing.scopes, root ∉ known →
    inside root = Tree.payloads inside (drawing.outlines root).trees

/-- **A drawing goes on, and something was said in its innermost scope.** The same scopes are open,
and the outlines of all other scopes that were known are the same. -/
structure Says (before after : Drawing) (said : Sheet → Sheet) : Prop where
  frames : after.draft.frames = before.draft.frames
  kept : before.scopes ⊆ after.scopes
  outside : ∀ root ∈ before.scopes, root ≠ before.root →
    after.outlines root = before.outlines root
  sheet : ∀ inside, after.Spells before.scopes inside →
    after.outline.sheet inside = said (before.outline.sheet inside)

/-- A draft is drawn as what was said in another drawing. -/
def Reaches (before : Drawing) (result : Draft) (said : Sheet → Sheet) : Prop :=
  ∃ after : Drawing, after.draft = result ∧ before.Says after said

variable {before between after : Drawing} {said more : Sheet → Sheet} {result : Draft}

theorem Says.root_eq (goes : before.Says after said) : after.root = before.root :=
  Draft.scope_root_eq goes.frames

theorem Says.refl (drawing : Drawing) : drawing.Says drawing id where
  frames := rfl
  kept := List.Subset.refl _
  outside _ _ _ := rfl
  sheet _ _ := rfl

/-- What is settled after two drawings in a row is settled after each of them. -/
theorem Says.settled (first : before.Says between said) (second : between.Says after more)
    {inside : Slot → List Payload} (spells : after.Spells before.scopes inside) :
    between.Spells before.scopes inside ∧ after.Spells between.scopes inside := by
  refine ⟨fun root isScope away => ?_, fun root isScope away =>
    spells root isScope fun known => away (first.kept known)⟩
  have different : root ≠ between.root := by
    rintro rfl
    rw [first.root_eq] at away
    exact away before.sketched.isScope
  rw [spells root (second.kept isScope) away, second.outside root isScope different]

/-- **What is said in a row.** -/
theorem Says.trans (first : before.Says between said) (second : between.Says after more) :
    before.Says after fun sheet => more (said sheet) where
  frames := second.frames.trans first.frames
  kept := fun _ known => second.kept (first.kept known)
  outside root known different := by
    have differentToo : root ≠ between.root := by rwa [first.root_eq]
    exact (second.outside root (first.kept known) differentToo).trans
      (first.outside root known different)
  sheet inside spells := by
    obtain ⟨earlier, later⟩ := first.settled second spells
    rw [second.sheet inside later, first.sheet inside earlier]

theorem Reaches.trans (reaches : before.Reaches result said) {final : Draft}
    (further : ∀ between : Drawing, between.draft = result → between.Reaches final more) :
    before.Reaches final fun sheet => more (said sheet) := by
  obtain ⟨between, same, goes⟩ := reaches
  obtain ⟨after, sameToo, goesToo⟩ := further between same
  exact ⟨after, sameToo, goes.trans goesToo⟩

theorem Reaches.congr (reaches : before.Reaches result said)
    (same : ∀ inside, more (before.outline.sheet inside) = said (before.outline.sheet inside)) :
    before.Reaches result more := by
  obtain ⟨after, draft, goes⟩ := reaches
  refine ⟨after, draft, goes.frames, goes.kept, goes.outside, fun inside spells => ?_⟩
  rw [goes.sheet inside spells, same]

/-- A call that is refused says nothing. -/
theorem reaches_self (drawing : Drawing) (same : result = drawing.draft)
    (silent : ∀ inside, said (drawing.outline.sheet inside) = drawing.outline.sheet inside) :
    drawing.Reaches result said :=
  Reaches.congr ⟨drawing, same.symm, Says.refl drawing⟩ silent

/-- **The innermost scope says something else.** -/
theorem reaches_update (drawing : Drawing) {outline : Outline}
    (sketched : result.Sketched drawing.scopes
      (Function.update drawing.outlines drawing.root outline))
    (frames : result.frames = drawing.draft.frames)
    (sheet : ∀ inside, outline.sheet inside = said (drawing.outline.sheet inside)) :
    drawing.Reaches result said := by
  refine ⟨⟨result, drawing.scopes, _, sketched⟩, rfl, frames, List.Subset.refl _, ?_, ?_⟩
  · exact fun root _ different => Function.update_of_ne different _ _
  · intro inside _
    have root : result.scope.root = drawing.root := Draft.scope_root_eq frames
    show (Function.update drawing.outlines drawing.root outline result.scope.root).sheet inside = _
    rw [root, Function.update_self, sheet]

/-- What stands inside of scopes is what the store has below their nodes. -/
theorem spells_store (drawing : Drawing) (known : List Slot) :
    drawing.Spells known drawing.draft.store.payloadsBelow := fun root isScope _ =>
  drawing.sketched.drawn.payloadsBelow_eq (drawing.sketched.drawn.shows root isScope)

theorem grouped_eq (drawing : Drawing) (inside : Slot → List Payload) :
    (drawing.outline.sheet inside).grouped = drawing.draft.inGroup := by
  have kind : drawing.outline.kind = drawing.draft.scope.kind := drawing.sketched.heldScope.kind
  show decide (drawing.outline.kind = .group) = _
  rw [kind]
  rfl

/-- An edit that a group ignores. -/
theorem reaches_unless_group (drawing : Drawing) {result : Draft} {said plain : Sheet → Sheet}
    (refused : drawing.draft.inGroup = true → result = drawing.draft)
    (done : drawing.draft.inGroup = false → drawing.Reaches result plain)
    (split : ∀ sheet, said sheet = if sheet.grouped then sheet else plain sheet) :
    drawing.Reaches result said := by
  cases group : drawing.draft.inGroup with
  | true =>
    refine drawing.reaches_self (refused group) fun inside => ?_
    rw [split, if_pos ((drawing.grouped_eq inside).trans group)]
  | false =>
    refine (done group).congr fun inside => ?_
    rw [split, drawing.grouped_eq inside, group, if_neg Bool.false_ne_true]

end Drawing

end SqlDraft
