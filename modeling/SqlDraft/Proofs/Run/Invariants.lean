/-
**What holds in every scope.**

A property of sheets that holds where nothing was said, and that is kept by everything that is said,
holds in every scope that was opened, after any moves:

* `Sheet.Crossing`: conditions never go to a cross join.
* `Sheet.Invariant`: a property that everything that is said keeps.
* `Story.Obeys`: it holds in all scopes that were opened.
* **`Story.obeys_after`**: so it does after any moves.
-/

import SqlDraft.Proofs.Run.Diary

namespace SqlDraft

/-- Conditions never go to a cross join. -/
def Sheet.Crossing (sheet : Sheet) : Prop :=
  sheet.joining = true → ∃ link ∈ sheet.joins.getLast?, link.kind ≠ .cross

/-- **A property of sheets that everything that is said keeps.** It depends neither on what scopes hand
back nor on what stands inside of other scopes. -/
structure Sheet.Invariant (Holds : Sheet → Prop) : Prop where
  silent : ∀ kind, Holds (.silent kind)
  edited : ∀ sheet change, sheet.Crossing → Holds sheet → Holds (sheet.edited change)
  received : ∀ sheet body opening, sheet.Crossing → Holds sheet → Holds (sheet.received body opening)
  completed : ∀ sheet, Holds sheet → Holds sheet.completed
  resumed : ∀ sheet target joining, Holds { sheet with target, joining } ↔ Holds sheet
  inside : ∀ (outline : Outline) inside other,
    Holds (outline.sheet inside) → Holds (outline.sheet other)

namespace Drawing

variable (drawing : Drawing)

theorem crossing_sheet (inside : Slot → List Payload) :
    (drawing.outline.sheet inside).Crossing := by
  intro joining
  obtain ⟨clause, last, ordinary⟩ := drawing.sketched.heldScope.crossing joining
  refine ⟨clause.part.link inside, ?_, ordinary⟩
  show clause.part.link inside ∈ (drawing.outline.joins.map _).getLast?
  rw [List.getLast?_map]
  exact Option.mem_map_of_mem _ last

end Drawing

namespace Story

/-- **A property holds in all scopes that were opened.** -/
structure Obeys (Holds : Sheet → Prop) (story : Story) (drawing : Drawing) : Prop where
  draft : drawing.draft = story.draft
  holds : ∀ root kind, (root, kind) ∈ Event.openings story.events → root ∈ drawing.scopes ∧
    (drawing.outlines root).kind = kind ∧ Holds ((drawing.outlines root).sheet fun _ => [])

namespace Obeys

variable {Holds : Sheet → Prop} {drawing after : Drawing} {said : Sheet → Sheet} {draft : Draft}
  {events more : List Event} (invariant : Sheet.Invariant Holds)

include invariant

/-- **What is said in the innermost scope keeps the property**, and it is not seen in the others. -/
theorem goes (obeys : Obeys Holds ⟨draft, events⟩ drawing) (goes : drawing.Says after said)
    (none : Event.openings more = [])
    (keeps : ∀ inside, Holds (drawing.outline.sheet inside) →
      Holds (said (drawing.outline.sheet inside))) :
    Obeys Holds ⟨after.draft, events ++ more⟩ after := by
  refine ⟨rfl, fun root kind opened => ?_⟩
  rw [Event.openings_append, none, List.append_nil] at opened
  obtain ⟨known, sameKind, holds⟩ := obeys.holds root kind opened
  refine ⟨goes.kept known, ?_⟩
  by_cases here : root = drawing.root
  · subst here
    have spelled := goes.sheet _ (after.spells_store _)
    have now := keeps after.draft.store.payloadsBelow (invariant.inside _ _ _ holds)
    rw [← spelled] at now
    have same := goes.kind_eq
    rw [← goes.root_eq]
    exact ⟨same.trans sameKind, invariant.inside _ _ _ now⟩
  · rw [goes.outside root known here]
    exact ⟨sameKind, holds⟩

/-- **An edit keeps the property.** -/
theorem edit (obeys : Obeys Holds ⟨draft, events⟩ drawing) (change : Edit) :
    ∃ after, Obeys Holds (step ⟨draft, events⟩ (.edit change)) after := by
  obtain rfl : drawing.draft = draft := obeys.draft
  obtain ⟨after, result, goes⟩ := drawing.edit change
  have kept := obeys.goes invariant goes (drawing.draft.openings_editEvents change)
    fun inside => invariant.edited _ change (drawing.crossing_sheet inside)
  rw [result] at kept
  exact ⟨after, kept⟩

/-- A scope that is opened is silent. -/
theorem opens (obeys : Obeys Holds ⟨drawing.draft, events⟩ drawing) {opening : Opening}
    {inner : Slot} {kind : ScopeKind} {handback : Handback} {changed : Outline}
    {target : Option Target} (opens : drawing.Opens opening inner kind handback changed target)
    (opened : Event.openings more = [(inner, kind)]) :
    Obeys Holds ⟨drawing.draft.enter opening, events ++ more⟩ opens.entered := by
  obtain ⟨-, sameKind⟩ := Diary.Told.held_changed opens
  refine ⟨rfl, fun root found member => ?_⟩
  rw [Event.openings_append, opened, List.mem_append, List.mem_singleton, Prod.mk.injEq] at member
  rcases member with before | ⟨rfl, rfl⟩
  · obtain ⟨known, foundKind, holds⟩ := obeys.holds root found before
    refine ⟨List.mem_cons_of_mem _ known, ?_⟩
    by_cases here : root = drawing.root
    · subst here
      rw [opens.outlines_entered_root]
      refine ⟨sameKind.trans foundKind, ?_⟩
      have received := invariant.received _ (.blank :: []) opening
        (drawing.crossing_sheet fun _ => []) holds
      have sheet := opens.sheet fun _ => []
      rw [Outline.sheet_resumed] at sheet
      rw [← invariant.resumed, sheet]
      exact received
    · rw [opens.outlines_entered known here]
      exact ⟨foundKind, holds⟩
  · have silent : opens.entered.outlines root = .silent found := Function.update_self _ _ _
    rw [silent]
    exact ⟨List.mem_cons_self, rfl, invariant.silent found⟩

/-- What can be filled opens a silent scope. -/
theorem fills (events : List Event) (obeys : Obeys Holds ⟨drawing.draft, events⟩ drawing)
    {opening : Opening} {kind : ScopeKind} (opened : Draft.openedKind? opening = some kind)
    (admits : drawing.draft.admits opening = true)
    (opens : Event.openings more = [((drawing.draft.enter opening).scope.root, kind)]) :
    ∃ after, Obeys Holds ⟨drawing.draft.enter opening, events ++ more⟩ after := by
  revert events opens
  refine Drawing.filling_cases ?single ?behind opened admits
  case single =>
    intro drawing opening inner kind handback changed target admits scope events obeys opens
    have root : (drawing.draft.enter opening).scope.root = inner := scope.root_entered
    exact ⟨_, obeys.opens invariant scope (root ▸ opens)⟩
  case behind =>
    -- The join keeps the property, and then the operand does.
    intro drawing between join table column operator admits joined step events obeys opens
    have first := obeys.goes invariant joined.goes (show Event.openings [] = [] from rfl)
      fun inside => invariant.received _ [] (.joinConditions join table)
        (drawing.crossing_sheet inside)
    rw [List.append_nil] at first
    rw [joined.entering] at opens ⊢
    exact step _ first opens

/-- **What is opened keeps the property.** -/
theorem enter (obeys : Obeys Holds ⟨draft, events⟩ drawing) (opening : Opening) :
    ∃ after, Obeys Holds (step ⟨draft, events⟩ (.enter opening)) after := by
  obtain rfl : drawing.draft = draft := obeys.draft
  show ∃ after, Obeys Holds ⟨drawing.draft.enter opening,
    events ++ drawing.draft.enterEvents opening⟩ after
  have receives (body : List Payload) (opening : Opening) (inside : Slot → List Payload)
      (holds : Holds (drawing.outline.sheet inside)) :=
    invariant.received _ body opening (drawing.crossing_sheet inside) holds
  cases admits : drawing.draft.admits opening with
  | false =>
    obtain ⟨after, result, goes⟩ := drawing.reaches_refused admits id
    have none : Event.openings (drawing.draft.enterEvents opening) = [] := by
      rw [Draft.openings_enterEvents, admits, if_neg Bool.false_ne_true]
    have keeps (inside : Slot → List Payload) (holds : Holds (drawing.outline.sheet inside)) :
        Holds ((drawing.outline.sheet inside).filled opening id) := by
      unfold Sheet.filled
      split
      · exact receives _ opening inside holds
      · split
        · exact holds
        · exact receives [] opening inside holds
    have kept := obeys.goes invariant goes none keeps
    rw [result] at kept
    exact ⟨after, kept⟩
  | true =>
    cases opened : Draft.openedKind? opening with
    | none =>
      cases opening with
      | joinConditions kind table =>
        obtain ⟨after, result, goes⟩ := drawing.join kind table
        have kept := obeys.goes invariant goes (drawing.draft.openings_joinEvents kind)
          fun inside => receives [] (.joinConditions kind table) inside
        rw [result] at kept
        exact ⟨after, kept⟩
      | table | union | joinTable | joinOperand | condition => cases opened
    | some kind =>
      exact obeys.fills invariant _ opened admits (Draft.openings_of_opened admits opened)

/-- **What is closed keeps the property.** -/
theorem close (obeys : Obeys Holds ⟨draft, events⟩ drawing) :
    ∃ after, Obeys Holds (step ⟨draft, events⟩ .close) after := by
  obtain rfl : drawing.draft = draft := obeys.draft
  obtain ⟨after, result, scopes, each⟩ := drawing.exists_closed
  show ∃ after, Obeys Holds ⟨drawing.draft.close, events ++ []⟩ after
  rw [List.append_nil]
  refine ⟨after, result, fun root kind opened => ?_⟩
  obtain ⟨known, sameKind, holds⟩ := obeys.holds root kind opened
  refine ⟨scopes ▸ known, ?_⟩
  rcases each root with same | ⟨target, keepsJoin, resumed⟩ | ⟨isOpen, slot, shut⟩
  · rw [same]
    exact ⟨sameKind, holds⟩
  · rw [resumed]
    exact ⟨sameKind, (invariant.resumed _ _ _).mpr holds⟩
  · rw [shut]
    refine ⟨(Outline.kind_completed _ _).trans sameKind, ?_⟩
    have completed := invariant.completed _ holds
    rw [← Outline.sheet_completed _ slot] at completed
    exact completed

theorem new (draft : Draft) (sketched : draft.Sketched [draft.root] fun _ => .silent .statement) :
    Obeys Holds (new draft) ⟨draft, [draft.root], _, sketched⟩ := by
  refine ⟨rfl, fun root kind opened => ?_⟩
  obtain ⟨rfl, rfl⟩ := Prod.mk.inj (List.mem_singleton.mp opened)
  exact ⟨List.mem_singleton_self _, rfl, invariant.silent .statement⟩

/-- **A move keeps the property.** -/
theorem step {story : Story} (obeys : Obeys Holds story drawing) (move : Move) :
    ∃ after, Obeys Holds (story.step move) after := by
  obtain ⟨draft, events⟩ := story
  cases move with
  | edit change => exact obeys.edit invariant change
  | ask question =>
    obtain rfl : drawing.draft = draft := obeys.draft
    obtain ⟨after, result, goes⟩ := drawing.asked question
    have kept := obeys.goes invariant goes (show Event.openings [] = [] from rfl)
      fun _ holds => holds
    rw [result] at kept
    exact ⟨after, kept⟩
  | startOver => exact ⟨_, new invariant _ (Draft.Sketched.startOver draft)⟩
  | finish => exact ⟨_, new invariant _ (Draft.Sketched.start Settings.standard)⟩
  | enter opening => exact obeys.enter invariant opening
  | close => exact obeys.close invariant

end Obeys

/-- **After any moves the property holds in all scopes.** -/
theorem obeys_after {Holds : Sheet → Prop} (invariant : Sheet.Invariant Holds) (settings : Settings)
    (moves : List Move) : ∃ drawing, Obeys Holds (after settings moves) drawing := by
  unfold after
  induction moves using List.reverseRecOn with
  | nil => exact ⟨_, Obeys.new invariant _ (Draft.Sketched.start settings)⟩
  | append_singleton moves move step =>
    obtain ⟨drawing, obeys⟩ := step
    rw [List.foldl_concat]
    exact obeys.step invariant move

end Story

end SqlDraft
