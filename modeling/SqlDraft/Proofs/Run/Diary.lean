/-
**Which edits were made in a scope.**

A diary is a story with the edits that were made in it, each with the scope that was the innermost one
then. The outline of every scope tells of the edits that were made in it, after any moves:

* `Diary.after`: a draft after some moves, with its story and its edits.
* `Diary.editsIn`: the edits that were made in a scope.
* `Diary.Told`: the outlines of a draft tell of its edits.
* `Diary.Told.step`: they do so after one more move.
* **`Diary.told_after`**: so they do after any moves.
-/

import SqlDraft.Proofs.Run.Kept
import SqlDraft.Proofs.Sheet.Programs
import SqlDraft.Proofs.Sheet.Telling

namespace SqlDraft

/-! ### Scopes that are opened in a move -/

namespace Draft

theorem openings_joinEvents (draft : Draft) (kind : JoinKind) :
    Event.openings (draft.joinEvents kind) = [] := by
  unfold joinEvents
  split <;> rfl

theorem openings_restrictEvents (draft : Draft) (clause : FilterClause) (logic : Connective)
    (condition : Condition) :
    Event.openings (draft.restrictEvents clause logic condition) = [] := by
  unfold restrictEvents
  cases draft.spot? clause <;> rfl

/-- An edit opens no scope. -/
theorem openings_editEvents (draft : Draft) (change : Edit) :
    Event.openings (draft.editEvents change) = [] := by
  cases change with
  | join kind table => exact draft.openings_joinEvents kind
  | joinOn kind table condition =>
    rw [editEvents]
    split
    · rfl
    · rw [Event.openings_append, openings_joinEvents, openings_restrictEvents]
      rfl
  | restrict clause logic condition => exact draft.openings_restrictEvents clause logic condition
  | select | distinct | table | remove | giveName | groupBy | orderBy | orderDown | direct | limit
  | offset | showPage => rfl

/-- Conditions land just where they are taken. -/
theorem isSome_spot? (draft : Draft) (clause : FilterClause) :
    (draft.spot? clause).isSome = draft.takesCondition clause := by
  unfold spot? takesCondition
  cases draft.inGroup with
  | true => rfl
  | false => cases clause <;> simp

theorem openings_conditionEvents (draft : Draft) (clause : FilterClause) (logic : Connective)
    (nested : NestedCondition) : Event.openings (draft.conditionEvents clause logic nested) =
      if draft.takesCondition clause then
        [((draft.openCondition clause logic nested).scope.root, nested.kind)]
      else [] := by
  rw [← isSome_spot?]
  unfold conditionEvents
  cases draft.spot? clause <;> rfl

/-- **Something that can be filled opens one scope at most, and something that cannot opens none.** -/
theorem openings_enterEvents (draft : Draft) (opening : Opening) :
    Event.openings (draft.enterEvents opening) = if draft.admits opening then
      (openedKind? opening).toList.map fun kind => ((draft.enter opening).scope.root, kind)
    else [] := by
  cases opening with
  | table =>
    show Event.openings (if draft.canTakeTable then [.opened draft.openTable.scope.root .subquery]
      else []) = if draft.canTakeTable then [(draft.openTable.scope.root, .subquery)] else []
    cases draft.canTakeTable <;> rfl
  | union all =>
    show Event.openings (if draft.inGroup then [] else [.united _ _ all,
      .opened (draft.openUnion all).scope.root .union]) =
        if !draft.inGroup then [((draft.openUnion all).scope.root, .union)] else []
    cases draft.inGroup <;> rfl
  | joinTable kind =>
    show Event.openings (if draft.inGroup then [] else draft.joinEvents kind ++ _) =
      if !draft.inGroup then [((draft.openJoin kind).scope.root, .subquery)] else []
    cases draft.inGroup with
    | true => rfl
    | false =>
      rw [if_neg Bool.false_ne_true, Event.openings_append, openings_joinEvents]
      rfl
  | joinConditions kind table =>
    show Event.openings (draft.joinEvents kind) = if !draft.inGroup then [] else []
    rw [ite_self, openings_joinEvents]
  | joinOperand kind table column operator =>
    show Event.openings (if draft.inGroup then [] else draft.joinEvents kind ++
        (draft.join kind table).conditionEvents .joinOn .and (.operand column operator)) =
      if !draft.inGroup && decide (kind ≠ .cross) then [((if draft.inGroup then draft else
        (draft.join kind table).openCondition .joinOn .and (.operand column operator)).scope.root,
          .subquery)]
      else []
    cases plain : draft.inGroup with
    | true => rfl
    | false =>
      rw [if_neg Bool.false_ne_true, if_neg Bool.false_ne_true, Event.openings_append,
        openings_joinEvents, openings_conditionEvents, takesCondition_join plain]
      rfl
  | condition clause logic nested => exact draft.openings_conditionEvents clause logic nested

theorem openings_of_opened {draft : Draft} {opening : Opening} {kind : ScopeKind}
    (admits : draft.admits opening = true) (opened : openedKind? opening = some kind) :
    Event.openings (draft.enterEvents opening) = [((draft.enter opening).scope.root, kind)] := by
  rw [openings_enterEvents, if_pos admits, opened]
  rfl

end Draft

/-! ### Diaries -/

/-- A story with the edits that were made in it since it was last started over, each with the scope
that was the innermost one. -/
structure Diary where
  story : Story
  entries : List (Slot × Edit)

namespace Diary

/-- The diary of a draft in which nothing was said. -/
def new (draft : Draft) : Diary := ⟨.new draft, []⟩

/-- The entries after one more move. -/
def entriesAfter (diary : Diary) : Move → List (Slot × Edit)
  | .edit change => diary.entries ++ [(diary.story.draft.scope.root, change)]
  | .startOver | .finish => []
  | .ask _ | .enter _ | .close => diary.entries

/-- A diary goes on, or starts over. -/
def step (diary : Diary) (move : Move) : Diary := ⟨diary.story.step move, diary.entriesAfter move⟩

/-- The diary of some moves. -/
def after (settings : Settings) (moves : List Move) : Diary :=
  moves.foldl step (new (Draft.start settings))

/-- The edits that were made in a scope, in the order of the calls. -/
def editsIn (diary : Diary) (root : Slot) : List Edit :=
  diary.entries.filterMap fun entry => if entry.1 = root then some entry.2 else none

theorem story_foldl (diary : Diary) (moves : List Move) :
    (moves.foldl step diary).story = moves.foldl Story.step diary.story := by
  induction moves generalizing diary with
  | nil => rfl
  | cons move rest further => exact further (diary.step move)

/-- The story of a diary is the story of the same moves. -/
theorem story_after (settings : Settings) (moves : List Move) :
    (after settings moves).story = Story.after settings moves :=
  story_foldl (new (Draft.start settings)) moves

end Diary

/-! ### What the outlines tell -/

/-- An outline tells of the edits in its scope. Its lists do not depend on what stands inside of other
scopes. -/
def Outline.Tells (outline : Outline) (edits : List Edit) : Prop :=
  (outline.sheet fun _ => []).Tells outline.closed edits

namespace Outline

variable {outline changed : Outline} {edits : List Edit}

theorem lists_sheet (outline : Outline) (inside other : Slot → List Payload) :
    (outline.sheet inside).lists = (outline.sheet other).lists := rfl

theorem Tells.sheet (tells : outline.Tells edits) (inside : Slot → List Payload) :
    (outline.sheet inside).Tells outline.closed edits :=
  Sheet.Tells.congr (show (outline.sheet fun _ => []).Tells _ _ from tells)
    (outline.lists_sheet inside _)

theorem tells_of_sheet {inside : Slot → List Payload} {closed : Bool}
    (tells : (outline.sheet inside).Tells closed edits) (same : outline.closed = closed) :
    outline.Tells edits := by
  unfold Tells
  rw [same]
  exact tells.congr (outline.lists_sheet _ inside)

/-- What the lists of an outline tell. -/
theorem Tells.command (tells : outline.Tells edits) : Deed.Tells outline.closed edits
    (outline.command.map fun clause => clause.part.deed) :=
  (Sheet.Tells.toTellsLists tells).command

theorem Tells.grouping (tells : outline.Tells edits) :
    outline.grouping.map Clause.part = extended none (edits.flatMap Edit.grouped) :=
  (Sheet.Tells.toTellsLists tells).grouping

theorem Tells.ordering (tells : outline.Tells edits) :
    (outline.ordering.map Clause.part).map (List.map Prod.fst) =
      extended none (edits.flatMap Edit.sorted) :=
  (Sheet.Tells.toTellsLists tells).ordering

/-- An outline with the same lists tells the same. -/
theorem Tells.congr (tells : outline.Tells edits) {inside : Slot → List Payload}
    (same : (changed.sheet inside).lists = (outline.sheet inside).lists)
    (closed : changed.closed = outline.closed) : changed.Tells edits :=
  tells_of_sheet ((tells.sheet inside).congr same) closed

end Outline

namespace Drawing

variable {before after : Drawing} {said : Sheet → Sheet}

theorem opened_outline (drawing : Drawing) : drawing.outline.closed = false :=
  drawing.sketched.heldScope.opened

theorem kind_outline (drawing : Drawing) : drawing.outline.kind = drawing.draft.scope.kind :=
  drawing.sketched.heldScope.kind

/-- The innermost scope stays what it is. -/
theorem Says.kind_eq (goes : before.Says after said) :
    after.outline.kind = before.outline.kind := by
  rw [kind_outline, kind_outline]
  exact congrArg (fun frame => frame.2.1) (Draft.frame_eq goes.frames)

/-- **When a scope is closed, the scope around it is resumed**, and all other outlines stay. -/
theorem exists_closed (drawing : Drawing) : ∃ after : Drawing,
    after.draft = drawing.draft.close ∧ after.scopes = drawing.scopes ∧
      ∀ root, after.outlines root = drawing.outlines root ∨
        (∃ target keepsJoin,
          after.outlines root = (drawing.outlines root).resumed target keepsJoin) ∨
        (drawing.outlines root).closed = false ∧
          ∃ slot, after.outlines root = ((drawing.outlines root).completed slot).shut := by
  cases nested : drawing.draft.nested with
  | nil =>
    have alone : drawing.draft.close = drawing.draft := by
      unfold Draft.close
      rw [nested]
    exact ⟨drawing, alone.symm, rfl, fun root => .inl rfl⟩
  | cons closed outer =>
    obtain ⟨next, -, apart, target, sketched⟩ := drawing.sketched.close nested
    have isOpen : (drawing.outlines closed.root).closed = false := by
      refine (drawing.sketched.held closed ?_).opened
      unfold Draft.opens
      rw [nested]
      exact List.mem_append_left _ List.mem_cons_self
    refine ⟨⟨_, _, _, sketched⟩, rfl, rfl, fun root => ?_⟩
    dsimp only
    by_cases isNext : root = next.root
    · subst isNext
      exact .inr (.inl ⟨target, _, Function.update_self _ _ _⟩)
    · rw [Function.update_of_ne isNext]
      by_cases isClosed : root = closed.root
      · subst isClosed
        exact .inr (.inr ⟨isOpen, _, Function.update_self _ _ _⟩)
      · exact .inl (Function.update_of_ne isClosed _ _)

end Drawing

namespace Diary

/-- **The outlines of a draft tell of its edits.** Every scope that was opened has an outline, which
tells of the edits in it unless it is a group, and edits are made in scopes only. -/
structure Told (diary : Diary) (drawing : Drawing) : Prop where
  draft : drawing.draft = diary.story.draft
  known : ∀ entry ∈ diary.entries, entry.1 ∈ drawing.scopes
  opened : ∀ root kind, (root, kind) ∈ Event.openings diary.story.events →
    root ∈ drawing.scopes ∧ (drawing.outlines root).kind = kind
  told : ∀ root kind, (root, kind) ∈ Event.openings diary.story.events → kind ≠ .group →
    (drawing.outlines root).Tells (diary.editsIn root)

namespace Told

variable {diary : Diary} {drawing after : Drawing} {said : Sheet → Sheet} {draft : Draft}
  {events : List Event} {entries : List (Slot × Edit)}

theorem editsIn_concat (entries : List (Slot × Edit)) (story later : Story) (root : Slot)
    (change : Edit) : editsIn ⟨later, entries ++ [(root, change)]⟩ root =
      editsIn ⟨story, entries⟩ root ++ [change] := by
  unfold editsIn
  rw [List.filterMap_append]
  simp

theorem editsIn_concat_other (entries : List (Slot × Edit)) (story later : Story)
    {root other : Slot} (different : other ≠ root) (change : Edit) :
    editsIn ⟨later, entries ++ [(root, change)]⟩ other = editsIn ⟨story, entries⟩ other := by
  unfold editsIn
  rw [List.filterMap_append]
  simp [different.symm]

/-- The innermost scope is no group if it was opened as something else. -/
theorem clausal (told : Told diary drawing) {kind : ScopeKind}
    (opened : (drawing.root, kind) ∈ Event.openings diary.story.events) (plain : kind ≠ .group)
    (inside : Slot → List Payload) : (drawing.outline.sheet inside).grouped = false :=
  decide_eq_false ((told.opened _ _ opened).2 ▸ plain)

/-- **A move in the innermost scope opens nothing**, and its outline tells of the edits all the same
when the others are left as they are. -/
theorem goes (told : Told ⟨⟨draft, events⟩, entries⟩ drawing) (goes : drawing.Says after said)
    {more : List Event} (none : Event.openings more = []) {later : List (Slot × Edit)}
    (known : ∀ entry ∈ later, entry.1 ∈ after.scopes)
    (others : ∀ root ≠ drawing.root,
      editsIn ⟨⟨after.draft, events ++ more⟩, later⟩ root = editsIn ⟨⟨draft, events⟩, entries⟩ root)
    (tells : ∀ inside, (drawing.outline.sheet inside).grouped = false →
      (drawing.outline.sheet inside).Tells false
        (editsIn ⟨⟨draft, events⟩, entries⟩ drawing.root) →
      (said (drawing.outline.sheet inside)).Tells false
        (editsIn ⟨⟨after.draft, events ++ more⟩, later⟩ drawing.root)) :
    Told ⟨⟨after.draft, events ++ more⟩, later⟩ after := by
  have root := goes.root_eq
  have openings : Event.openings (events ++ more) = Event.openings events := by
    rw [Event.openings_append, none, List.append_nil]
  refine ⟨rfl, known, fun found kind opened => ?_, fun found kind opened plain => ?_⟩
  · rw [openings] at opened
    obtain ⟨isScope, sameKind⟩ := told.opened found kind opened
    refine ⟨goes.kept isScope, ?_⟩
    by_cases here : found = drawing.root
    · have same := goes.kind_eq
      rw [Drawing.outline, root] at same
      rw [here] at sameKind ⊢
      exact same.trans sameKind
    · rw [goes.outside found isScope here]
      exact sameKind
  · rw [openings] at opened
    have before := told.told found kind opened plain
    by_cases here : found = drawing.root
    · subst here
      have sheet := goes.sheet _ (after.spells_store _)
      have now := tells _ (told.clausal opened plain _)
        (drawing.opened_outline ▸ before.sheet after.draft.store.payloadsBelow)
      rw [← sheet] at now
      rw [← root]
      exact Outline.tells_of_sheet (root ▸ now) after.opened_outline
    · rw [goes.outside found (told.opened found kind opened).1 here, others found here]
      exact before

/-- **An edit in the innermost scope is told.** -/
theorem edit (told : Told ⟨⟨draft, events⟩, entries⟩ drawing) (change : Edit) :
    ∃ after, Told (step ⟨⟨draft, events⟩, entries⟩ (.edit change)) after := by
  obtain rfl : drawing.draft = draft := told.draft
  obtain ⟨after, result, goes⟩ := drawing.edit change
  refine ⟨after, ?_⟩
  show Told ⟨⟨drawing.draft.apply change, _⟩, entries ++ [(drawing.root, change)]⟩ after
  rw [← result]
  refine told.goes goes (drawing.draft.openings_editEvents change) ?_
    (fun root away => editsIn_concat_other _ _ _ away change) fun inside plain tells => ?_
  · intro entry member
    rcases List.mem_append.mp member with old | new
    · exact goes.kept (told.known entry old)
    · rw [List.mem_singleton.mp new]
      exact goes.kept drawing.sketched.isScope
  · rw [editsIn_concat entries ⟨drawing.draft, events⟩]
    exact tells.edited plain change

/-- A move that is no edit and opens nothing leaves the lists alone. -/
theorem quiet (told : Told ⟨⟨draft, events⟩, entries⟩ drawing) {result : Draft}
    (reaches : drawing.Reaches result said) {more : List Event} (none : Event.openings more = [])
    (lists : ∀ sheet, (said sheet).lists = sheet.lists) :
    ∃ after, Told ⟨⟨result, events ++ more⟩, entries⟩ after := by
  obtain ⟨after, rfl, goes⟩ := reaches
  refine ⟨after, told.goes goes none (fun entry member => goes.kept (told.known entry member))
    (fun _ _ => rfl) fun inside _ tells => ?_⟩
  exact tells.congr (lists _)

/-! ### What is opened -/

/-- The scope around one that was opened is held in its changed outline. -/
theorem held_changed {opening : Opening} {inner : Slot} {kind : ScopeKind} {handback : Handback}
    {changed : Outline} {target : Option Target}
    (opens : drawing.Opens opening inner kind handback changed target) :
    changed.closed = false ∧ changed.kind = drawing.outline.kind := by
  have among : drawing.draft.scope.frame ∈ (drawing.draft.enter opening).frames := by
    rw [opens.frames, Draft.frames_eq]
    exact List.mem_cons_of_mem _ List.mem_cons_self
  obtain ⟨scope, isOpen, same⟩ := List.mem_map.mp among
  have held := opens.entered.sketched.held scope isOpen
  have root : scope.root = drawing.root := congrArg Prod.fst same
  rw [root, opens.outlines_entered_root] at held
  refine ⟨held.opened, held.kind.trans ?_⟩
  rw [drawing.kind_outline]
  exact congrArg (fun frame => frame.2.1) same

/-- **A scope that is opened is told**: no edit was made in it. -/
theorem opens (told : Told ⟨⟨draft, events⟩, entries⟩ drawing) {opening : Opening} {inner : Slot}
    {kind : ScopeKind} {handback : Handback} {changed : Outline} {target : Option Target}
    (opens : drawing.Opens opening inner kind handback changed target) {more : List Event}
    (opened : Event.openings more = [(inner, kind)]) :
    Told ⟨⟨drawing.draft.enter opening, events ++ more⟩, entries⟩ opens.entered := by
  obtain ⟨open_, sameKind⟩ := held_changed opens
  have openings (root : Slot) (found : ScopeKind) :
      (root, found) ∈ Event.openings (events ++ more) ↔
        (root, found) ∈ Event.openings events ∨ root = inner ∧ found = kind := by
    rw [Event.openings_append, opened, List.mem_append, List.mem_singleton, Prod.mk.injEq]
  have silent : opens.entered.outlines inner = .silent kind := Function.update_self _ _ _
  refine ⟨rfl, fun entry member => List.mem_cons_of_mem _ (told.known entry member),
    fun root found => ?_, fun root found => ?_⟩
  · rw [openings]
    rintro (before | ⟨rfl, rfl⟩)
    · obtain ⟨isScope, foundKind⟩ := told.opened root found before
      refine ⟨List.mem_cons_of_mem _ isScope, ?_⟩
      by_cases here : root = drawing.root
      · rw [here] at foundKind ⊢
        rw [opens.outlines_entered_root]
        exact sameKind.trans foundKind
      · rw [opens.outlines_entered isScope here]
        exact foundKind
    · exact ⟨List.mem_cons_self, silent ▸ rfl⟩
  · rw [openings]
    rintro (before | ⟨rfl, rfl⟩) plain
    · obtain ⟨isScope, -⟩ := told.opened root found before
      have tells := told.told root found before plain
      by_cases here : root = drawing.root
      · rw [here] at tells ⊢
        rw [opens.outlines_entered_root]
        have same := congrArg Sheet.lists (opens.sheet fun _ => [])
        rw [Sheet.lists_received] at same
        exact tells.congr same (open_.trans drawing.opened_outline.symm)
      · rw [opens.outlines_entered isScope here]
        exact tells
    · have nothing :
          editsIn ⟨⟨drawing.draft.enter opening, events ++ more⟩, entries⟩ root = [] := by
        refine List.filterMap_eq_nil_iff.mpr fun entry member => if_neg fun same => ?_
        exact opens.isNew (same ▸ told.known entry member)
      rw [silent, nothing]
      exact Sheet.tells_silent found

/-- What can be filled opens a scope of which nothing is told. -/
theorem fills (events : List Event) (told : Told ⟨⟨drawing.draft, events⟩, entries⟩ drawing)
    {opening : Opening} {kind : ScopeKind} (opened : Draft.openedKind? opening = some kind)
    (admits : drawing.draft.admits opening = true) {more : List Event}
    (opens : Event.openings more = [((drawing.draft.enter opening).scope.root, kind)]) :
    ∃ after, Told ⟨⟨drawing.draft.enter opening, events ++ more⟩, entries⟩ after := by
  revert events opens
  refine Drawing.filling_cases ?single ?behind opened admits
  case single =>
    intro drawing opening inner kind handback changed target admits scope events told opens
    have root : (drawing.draft.enter opening).scope.root = inner := scope.root_entered
    exact ⟨_, told.opens scope (root ▸ opens)⟩
  case behind =>
    -- The join is told, and then the operand.
    intro drawing between join table column operator admits joined step events told opens
    have first := told.goes joined.goes (show Event.openings [] = [] from rfl)
      (fun entry member => joined.goes.kept (told.known entry member)) (fun _ _ => rfl)
      fun inside _ tells => tells.congr (Sheet.lists_join _ join table)
    rw [List.append_nil] at first
    rw [joined.entering] at opens ⊢
    exact step _ first opens

/-- **Opening something is told.** -/
theorem enter (told : Told ⟨⟨draft, events⟩, entries⟩ drawing) (opening : Opening) :
    ∃ after, Told (step ⟨⟨draft, events⟩, entries⟩ (.enter opening)) after := by
  obtain rfl : drawing.draft = draft := told.draft
  show ∃ after, Told ⟨⟨drawing.draft.enter opening,
    events ++ drawing.draft.enterEvents opening⟩, entries⟩ after
  cases admits : drawing.draft.admits opening with
  | false =>
    refine told.quiet (drawing.reaches_refused admits id) ?_ fun sheet => ?_
    · rw [Draft.openings_enterEvents, admits, if_neg Bool.false_ne_true]
    · unfold Sheet.filled
      split
      · exact sheet.lists_received _ opening
      · split
        · rfl
        · exact sheet.lists_received [] opening
  | true =>
    cases opened : Draft.openedKind? opening with
    | none =>
      cases opening with
      | joinConditions kind table =>
        refine told.quiet (drawing.join kind table) ?_ (·.lists_join kind table)
        exact drawing.draft.openings_joinEvents kind
      | table | union | joinTable | joinOperand | condition => cases opened
    | some kind => exact told.fills _ opened admits (Draft.openings_of_opened admits opened)

/-! ### What is closed -/

/-- A closed scope tells the same, with all columns if it has a table and none was asked for. -/
theorem tells_shut {outline : Outline} {edits : List Edit} (tells : outline.Tells edits)
    (isOpen : outline.closed = false) (slot : Slot) :
    (outline.completed slot).shut.Tells edits := by
  have before := tells.sheet fun _ => []
  rw [isOpen] at before
  have after := before.completed
  rw [← Outline.sheet_completed _ slot] at after
  exact @Outline.tells_of_sheet (outline.completed slot).shut edits (fun _ => []) true after rfl

/-- When a scope is closed, every outline stays of its kind and tells the same. -/
theorem exists_closed (drawing : Drawing) : ∃ after : Drawing,
    after.draft = drawing.draft.close ∧ after.scopes = drawing.scopes ∧
      ∀ root, (after.outlines root).kind = (drawing.outlines root).kind ∧
        ∀ edits, (drawing.outlines root).Tells edits → (after.outlines root).Tells edits := by
  obtain ⟨after, draft, scopes, each⟩ := drawing.exists_closed
  refine ⟨after, draft, scopes, fun root => ?_⟩
  rcases each root with same | ⟨target, keepsJoin, resumed⟩ | ⟨isOpen, slot, shut⟩
  · rw [same]
    exact ⟨rfl, fun _ tells => tells⟩
  · rw [resumed]
    exact ⟨rfl, fun edits tells => @Outline.Tells.congr _ _ _ tells (fun _ => []) rfl rfl⟩
  · rw [shut]
    exact ⟨Outline.kind_completed _ _, fun edits tells => tells_shut tells isOpen _⟩

/-- **A scope that is closed is told.** -/
theorem close (told : Told ⟨⟨draft, events⟩, entries⟩ drawing) :
    ∃ after, Told (step ⟨⟨draft, events⟩, entries⟩ .close) after := by
  obtain rfl : drawing.draft = draft := told.draft
  obtain ⟨after, result, scopes, each⟩ := exists_closed drawing
  show ∃ after, Told ⟨⟨drawing.draft.close, events ++ []⟩, entries⟩ after
  rw [List.append_nil]
  refine ⟨after, result, scopes ▸ told.known, fun root kind opened => ?_,
    fun root kind opened plain => (each root).2 _ (told.told root kind opened plain)⟩
  obtain ⟨isScope, same⟩ := told.opened root kind opened
  exact ⟨scopes ▸ isScope, (each root).1.trans same⟩

/-! ### All moves -/

theorem new (draft : Draft) (sketched : draft.Sketched [draft.root] fun _ => .silent .statement) :
    Told (new draft) ⟨draft, [draft.root], _, sketched⟩ := by
  refine ⟨rfl, nofun, fun root kind opened => ?_, fun root kind opened plain => ?_⟩
  · obtain ⟨rfl, rfl⟩ := Prod.mk.inj (List.mem_singleton.mp opened)
    exact ⟨List.mem_singleton_self _, rfl⟩
  · exact Sheet.tells_silent .statement

/-- **A move is told.** -/
theorem step (told : Told diary drawing) (move : Move) :
    ∃ after, Told (diary.step move) after := by
  obtain ⟨⟨draft, events⟩, entries⟩ := diary
  cases move with
  | edit change => exact told.edit change
  | ask question =>
    obtain rfl : drawing.draft = draft := told.draft
    exact told.quiet (drawing.asked question) rfl fun _ => rfl
  | startOver => exact ⟨_, new _ (Draft.Sketched.startOver draft)⟩
  | finish => exact ⟨_, new _ (Draft.Sketched.start Settings.standard)⟩
  | enter opening => exact told.enter opening
  | close => exact told.close

end Told

/-- **After any moves the outlines of the draft tell of its edits.** -/
theorem told_after (settings : Settings) (moves : List Move) :
    ∃ drawing, Told (after settings moves) drawing := by
  unfold after
  induction moves using List.reverseRecOn with
  | nil => exact ⟨_, Told.new _ (Draft.Sketched.start settings)⟩
  | append_singleton moves move step =>
    obtain ⟨drawing, told⟩ := step
    rw [List.foldl_concat]
    exact told.step move

end Diary

end SqlDraft
