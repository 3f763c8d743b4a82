/-
**Scopes that are opened, filled and closed.**

A scope that is opened is new and silent. When it was filled and closed, its payloads are settled by
what was said in it, and the scope around it says that something with these payloads was received:

* `Drawing.Opens`: what is drawn when a scope was opened.
* `Drawing.exists_opens`: an opening that can be filled opens a scope.
* `Drawing.Encloses`: a drawing goes on, and a scope inside it was opened, filled and closed.
* **`Drawing.Opens.filled`**: a scope that was filled encloses what was said in it.
-/

import SqlDraft.Proofs.Run.Refusals
import SqlDraft.Proofs.Sheet.Edits

namespace SqlDraft

theorem Sheet.joining_adding (sheet : Sheet) (remark : Remark) (seat : Seat) :
    (sheet.adding remark seat).joining = sheet.joining := by
  cases seat <;> rfl

/-! ### Sheets of closed scopes and around them -/

namespace Outline

variable {inside : Slot → List Payload}

theorem sheet_united (outline : Outline) (slot : Slot) (all : Bool) (root : Slot) :
    (outline.united slot all root).sheet inside =
      { outline.sheet inside with
        unions := (outline.sheet inside).unions ++ [(all, .blank :: inside root)] } := by
  have unions : (outline.unions ++ [(⟨slot, ⟨all, root⟩⟩ : Clause Branch)]).map
      (fun clause => clause.part.entry inside) =
        (outline.sheet inside).unions ++ [(all, .blank :: inside root)] := List.map_append
  exact congrArg (fun unions => { outline.sheet inside with unions }) unions

theorem sheet_resumed (outline : Outline) (target : Option Target) (keepsJoin : Bool) :
    (outline.resumed target keepsJoin).sheet inside =
      { outline.sheet inside with
        target, joining := (outline.sheet inside).joining && keepsJoin } := rfl

theorem lacking_sheet (outline : Outline) :
    (outline.kind ≠ .group ∧ outline.command.isNone ∧ outline.table.isSome) ↔
      ((outline.sheet inside).grouped = false ∧ (outline.sheet inside).command.isNone ∧
        (outline.sheet inside).table.isSome) := by
  refine and_congr ?_ (and_congr ?_ ?_)
  · exact decide_eq_false_iff_not.symm
  · exact iff_of_eq (congrArg (· = true) Option.isNone_map.symm)
  · exact iff_of_eq (congrArg (· = true) Option.isSome_map.symm)

theorem sheet_completed (outline : Outline) (slot : Slot) :
    (outline.completed slot).sheet inside = (outline.sheet inside).completed := by
  have lacks := @lacking_sheet inside outline
  unfold completed Sheet.completed
  by_cases lacking : outline.kind ≠ .group ∧ outline.command.isNone ∧ outline.table.isSome
  · rw [if_pos lacking, if_pos (lacks.mp lacking)]
    rfl
  · rw [if_neg lacking, if_neg fun complete => lacking (lacks.mpr complete)]

theorem payloads_trees {outline : Outline} (opened : outline.closed = false) :
    Tree.payloads inside outline.trees = (outline.sheet inside).payloads := by
  rw [trees_of_open opened, payloads_inner]

/-- **What a scope is written as when it is closed.** -/
theorem payloads_shut {outline : Outline} (opened : outline.closed = false) (slot : Slot) :
    Tree.payloads inside (outline.completed slot).shut.trees =
      (outline.sheet inside).enclosed outline.kind := by
  have stillOpen : (outline.completed slot).closed = false :=
    (outline.closed_completed slot).trans opened
  unfold Sheet.enclosed
  rw [← sheet_completed outline slot, ← payloads_trees stillOpen]
  by_cases union : outline.kind = .union
  · rw [if_pos union, trees_shut_union stillOpen ((outline.kind_completed slot).trans union)]
  · rw [if_neg union, trees_shut stillOpen (by rwa [kind_completed]), Tree.payloads_leaf,
      Tree.payloads_append, Tree.payloads_single]

end Outline

/-! ### Leaving what was opened -/

namespace Draft

variable {draft result : Draft}

theorem leave_of_frames (same : result.frames = draft.frames) : result.leave draft = result := by
  rw [leave, closeTo, depth_eq same, Nat.sub_self, closeScopes]

theorem leave_of_frames_cons {inner : Slot × ScopeKind × Handback}
    (among : result.frames = inner :: draft.frames) : result.leave draft = result.close := by
  rw [leave, closeTo, depth_eq_length result, depth_eq_length draft, among, List.length_cons,
    Nat.add_sub_cancel_left, closeScopes, closeScopes]

theorem leave_congr {other : Draft} (same : other.frames = draft.frames) :
    result.leave other = result.leave draft := by
  rw [leave, leave, depth_eq same]

end Draft

namespace Drawing

/-! ### What is opened -/

/-- **A scope was opened in a drawing.** It is new and silent, and stands in a changed outline; a name
that comes behind it goes to a target there. -/
structure Opens (drawing : Drawing) (opening : Opening) (inner : Slot) (kind : ScopeKind)
    (handback : Handback) (changed : Outline) (target : Option Target) : Prop where
  sketched : (drawing.draft.enter opening).Sketched (inner :: drawing.scopes)
    (Function.update (Function.update drawing.outlines drawing.root changed) inner (.silent kind))
  isNew : inner ∉ drawing.scopes
  frames : (drawing.draft.enter opening).frames = (inner, kind, handback) :: drawing.draft.frames
  named : target.bind changed.place? = if handback.takesName then some inner else none
  placed : ∀ found ∈ target, (changed.place? found).isSome
  sheet : ∀ inside, (changed.resumed target handback.keepsJoin).sheet inside =
    (drawing.outline.sheet inside).received (.blank :: inside inner) opening

variable (drawing : Drawing)

theorem exists_opens_table (can : drawing.draft.canTakeTable = true) :
    ∃ inner handback changed target,
      drawing.Opens .table inner .subquery handback changed target := by
  obtain ⟨inner, root, isNew, sketched⟩ := drawing.sketched.openTable can
  refine ⟨inner, ⟨true, false⟩, _, some .table, sketched, isNew, ?_, rfl, ?_, fun inside => ?_⟩
  · exact root ▸ drawing.draft.frames_openTable can
  · rintro _ ⟨⟩
    rfl
  · rw [← canTakeTable_eq drawing inside] at can
    rw [Outline.sheet_resumed, Bool.and_false]
    exact (if_pos can).symm

theorem exists_opens_union (plain : drawing.draft.inGroup = false) (all : Bool) :
    ∃ inner handback changed target,
      drawing.Opens (.union all) inner .union handback changed target := by
  obtain ⟨inner, root, isNew, sketched⟩ := drawing.sketched.openUnion plain all
  refine ⟨inner, ⟨false, false⟩, _, none, sketched, isNew, ?_, rfl, ?_, fun inside => ?_⟩
  · exact root ▸ drawing.draft.frames_openUnion plain all
  · rintro _ ⟨⟩
  · rw [Outline.sheet_resumed, Outline.sheet_united, Bool.and_false]
    exact (Sheet.ite_grouped ((drawing.grouped_eq inside).trans plain)).symm

theorem exists_opens_join (plain : drawing.draft.inGroup = false) (kind : JoinKind) :
    ∃ inner handback changed target,
      drawing.Opens (.joinTable kind) inner .subquery handback changed target := by
  obtain ⟨inner, root, isNew, sketched⟩ := drawing.sketched.openJoin plain kind
  refine ⟨inner, ⟨true, true⟩, _, some .join, sketched, isNew, ?_, ?_, ?_, fun inside => ?_⟩
  · exact root ▸ drawing.draft.frames_openJoin plain kind
  · exact Outline.place?_joined _ _ _ _
  · rintro _ ⟨⟩
    rw [Outline.place?_joined]
    rfl
  · have joined := drawing.outline.sheet_joined inside drawing.draft.store.fresh kind (.scope inner)
      (some .join)
    rw [Outline.sheet_resumed, Bool.and_true]
    exact joined.trans
      (Sheet.ite_grouped ((drawing.grouped_eq inside).trans plain)).symm

/-- Conditions that have a place in a draft have one on its sheet. -/
theorem takesCondition_eq (clause : FilterClause) :
    drawing.draft.takesCondition clause = (drawing.outline.seat? clause).isSome := by
  have held : drawing.draft.scope.Held drawing.outline := drawing.sketched.heldScope
  have join : drawing.draft.scope.join.isSome = drawing.outline.joining := by
    rw [held.join]
    cases joining : drawing.outline.joining with
    | false => rfl
    | true =>
      obtain ⟨last, known, -⟩ := held.crossing joining
      rw [if_pos rfl, Option.mem_def.mp known]
      rfl
  have grouped : drawing.draft.inGroup = decide (drawing.outline.kind = .group) :=
    (drawing.grouped_eq fun _ => []).symm
  unfold Draft.takesCondition Outline.seat?
  rw [join, grouped]
  by_cases group : drawing.outline.kind = .group
  · cases clause <;> simp [group]
  · cases clause <;> cases drawing.outline.joining <;> simp [group]

theorem exists_opens_condition {clause : FilterClause}
    (takes : drawing.draft.takesCondition clause = true) (logic : Connective)
    (nested : NestedCondition) : ∃ inner handback changed target,
      drawing.Opens (.condition clause logic nested) inner nested.kind handback changed target := by
  rw [takesCondition_eq] at takes
  obtain ⟨seat, goes⟩ := Option.isSome_iff_exists.mp takes
  obtain ⟨place, mark, inner, root, isNew, sketched⟩ :=
    drawing.sketched.openCondition goes logic nested
  refine ⟨inner, ⟨false, clause = .joinOn⟩, _, none, sketched, isNew, ?_, rfl, ?_, fun inside => ?_⟩
  · obtain ⟨place, -, -, -, known, -⟩ := drawing.sketched.seated goes
    exact root ▸ drawing.draft.frames_openCondition (known ▸ rfl) logic nested
  · rintro _ ⟨⟩
  · have seated := drawing.outline.sheet_seated inside place ⟨mark, logic, .scope nested inner⟩ seat
    rw [Outline.sheet_resumed]
    have resumed := congrArg (fun sheet : Sheet => { sheet with
      target := none, joining := sheet.joining && decide (clause = FilterClause.joinOn) }) seated
    refine resumed.trans ?_
    rw [Sheet.joining_adding, Sheet.received, Sheet.nested, Outline.seat?_sheet, goes]
    rfl

/-- **An opening that can be filled opens a scope**, unless it is a join with an operand, which is a
join and a condition on it. -/
theorem exists_opens {opening : Opening} {kind : ScopeKind}
    (opened : Draft.openedKind? opening = some kind)
    (admits : drawing.draft.admits opening = true)
    (single : ∀ kind table column operator, opening ≠ .joinOperand kind table column operator) :
    ∃ inner handback changed target, drawing.Opens opening inner kind handback changed target := by
  cases opening with
  | table =>
    cases opened
    exact drawing.exists_opens_table admits
  | union all =>
    cases opened
    exact drawing.exists_opens_union (Bool.not_eq_true' _ ▸ admits) all
  | joinTable kind =>
    cases opened
    exact drawing.exists_opens_join (Bool.not_eq_true' _ ▸ admits) kind
  | joinConditions kind table => cases opened
  | joinOperand kind table column operator => exact absurd rfl (single kind table column operator)
  | condition clause logic nested =>
    cases opened
    exact drawing.exists_opens_condition admits logic nested

/-! ### What is filled and closed -/

/-- **A drawing goes on, and a scope inside it was opened, filled and closed.** Its payloads are
settled, and the scope around it received them. -/
structure Encloses (before after : Drawing) (opening : Opening) (inner : Slot)
    (body : List Payload) : Prop where
  goes : before.Says after (·.received (.blank :: body) opening)
  isScope : inner ∈ after.scopes
  isNew : inner ∉ before.scopes
  body : ∀ inside, after.Spells before.scopes inside → inside inner = body

namespace Opens

variable {drawing} {opening : Opening} {inner : Slot} {kind : ScopeKind} {handback : Handback}
  {changed : Outline} {target : Option Target}

theorem root_mem (opens : drawing.Opens opening inner kind handback changed target) :
    drawing.root ∈ drawing.scopes ∧ drawing.root ≠ inner :=
  ⟨drawing.sketched.isScope, fun same => opens.isNew (same ▸ drawing.sketched.isScope)⟩

/-- The drawing in which the scope was opened. -/
def entered (opens : drawing.Opens opening inner kind handback changed target) : Drawing :=
  ⟨_, _, _, opens.sketched⟩

theorem frame_entered (opens : drawing.Opens opening inner kind handback changed target) :
    (drawing.draft.enter opening).scope.frame = (inner, kind, handback) := by
  have among := opens.frames
  rw [Draft.frames_eq] at among
  exact (List.cons.inj among).1

theorem root_entered (opens : drawing.Opens opening inner kind handback changed target) :
    opens.entered.root = inner :=
  congrArg Prod.fst opens.frame_entered

theorem outline_entered (opens : drawing.Opens opening inner kind handback changed target) :
    opens.entered.outline = .silent kind := by
  rw [outline, opens.root_entered]
  exact Function.update_self _ _ _

theorem sheet_entered (opens : drawing.Opens opening inner kind handback changed target)
    (inside : Slot → List Payload) : opens.entered.outline.sheet inside = .silent kind :=
  congrArg (·.sheet inside) opens.outline_entered

theorem outlines_entered_root (opens : drawing.Opens opening inner kind handback changed target) :
    opens.entered.outlines drawing.root = changed :=
  (Function.update_of_ne opens.root_mem.2 _ _).trans (Function.update_self _ _ _)

theorem outlines_entered (opens : drawing.Opens opening inner kind handback changed target)
    {root : Slot} (isScope : root ∈ drawing.scopes) (different : root ≠ drawing.root) :
    opens.entered.outlines root = drawing.outlines root := by
  have apart : root ≠ inner := fun same => opens.isNew (same ▸ isScope)
  exact (Function.update_of_ne apart _ _).trans (Function.update_of_ne different _ _)

/-- The scope is closed, after anything was said in it. -/
theorem exists_closed (opens : drawing.Opens opening inner kind handback changed target)
    {filled : Drawing} {fill : Sheet → Sheet} (goes : opens.entered.Says filled fill) :
    ∃ after : Drawing, after.draft = filled.draft.close ∧ after.scopes = filled.scopes ∧
      after.draft.frames = drawing.draft.frames ∧
      (∃ slot, after.outlines inner = (filled.outline.completed slot).shut) ∧
      after.outlines drawing.root = changed.resumed target handback.keepsJoin ∧
      ∀ root, root ≠ inner → root ≠ drawing.root → after.outlines root = filled.outlines root := by
  have among : filled.draft.frames = (inner, kind, handback) :: drawing.draft.frames :=
    goes.frames.trans opens.frames
  have left : drawing.draft.frames ≠ [] := by
    rw [Draft.frames_eq]
    exact List.cons_ne_nil _ _
  cases nested : filled.draft.nested with
  | nil =>
    rw [Draft.frames, Draft.opens, nested] at among
    exact absurd (List.cons.inj among).2.symm left
  | cons closed outer =>
    obtain ⟨next, further, around, -, -, aiming⟩ := filled.sketched.closed_aiming nested
    have scope : filled.draft.scope = closed := by
      unfold Draft.scope
      rw [nested]
      rfl
    have both := among
    rw [Draft.frames_eq, Draft.frames_eq drawing.draft, scope, around, List.map_cons] at both
    obtain ⟨closedFrame, rest⟩ := List.cons.inj both
    have root : closed.root = inner := congrArg Prod.fst closedFrame
    have back : closed.handback = handback := congrArg (fun frame => frame.2.2) closedFrame
    have next : next.root = drawing.root := congrArg Prod.fst (List.cons.inj rest).1
    have around : filled.outlines drawing.root = changed := by
      have different : drawing.root ≠ opens.entered.root := by
        rw [opens.root_entered]
        exact opens.root_mem.2
      rw [goes.outside _ (List.mem_cons_of_mem _ opens.root_mem.1) different,
        opens.outlines_entered_root]
    have filledRoot : filled.root = inner := goes.root_eq.trans opens.root_entered
    rw [root, next, around, back] at aiming
    have sketched := aiming target opens.named opens.placed
    refine ⟨⟨_, _, _, sketched⟩, rfl, rfl, filled.draft.frames_close among left,
      ⟨filled.draft.store.fresh, ?_⟩, Function.update_self _ _ _, fun found apart away => ?_⟩
    · rw [outline, filledRoot]
      exact (Function.update_of_ne opens.root_mem.2.symm _ _).trans (Function.update_self _ _ _)
    · exact (Function.update_of_ne away _ _).trans (Function.update_of_ne apart _ _)

/-- **A scope that was filled encloses what was said in it.** -/
theorem filled (opens : drawing.Opens opening inner kind handback changed target) {result : Draft}
    {fill : Sheet → Sheet} (reaches : opens.entered.Reaches result fill) :
    ∃ after : Drawing, after.draft = result.leave drawing.draft ∧
      drawing.Encloses after opening inner ((fill (.silent kind)).enclosed kind) := by
  obtain ⟨filled, rfl, goes⟩ := reaches
  obtain ⟨after, draft, scopes, frames, ⟨slot, isInner⟩, isAround, others⟩ :=
    opens.exists_closed goes
  have among : filled.draft.frames = (inner, kind, handback) :: drawing.draft.frames :=
    goes.frames.trans opens.frames
  have root : after.root = drawing.root := Draft.scope_root_eq frames
  have isScope : inner ∈ after.scopes := by
    rw [scopes]
    exact goes.kept List.mem_cons_self
  have body (inside : Slot → List Payload) (spells : after.Spells drawing.scopes inside) :
      inside inner = (fill (.silent kind)).enclosed kind := by
    have settledInner := spells inner isScope opens.isNew
    have held := filled.sketched.heldScope
    have opened : filled.outline.closed = false := held.opened
    have filledKind : filled.outline.kind = kind := by
      rw [Draft.frames_eq] at among
      exact held.kind.trans (congrArg (fun frame => frame.2.1) (List.cons.inj among).1)
    have settled : filled.Spells opens.entered.scopes inside := by
      intro found member away
      have unknown : found ∉ drawing.scopes := List.not_mem_of_not_mem_cons away
      have different : found ≠ drawing.root := fun same => unknown (same ▸ opens.root_mem.1)
      rw [spells found (scopes ▸ member) unknown,
        others found (List.ne_of_not_mem_cons away) different]
    rw [settledInner, isInner, Outline.payloads_shut opened, filledKind, goes.sheet inside settled,
      opens.outline_entered]
    rfl
  refine ⟨after, draft.trans (Draft.leave_of_frames_cons among).symm, ⟨frames, ?_, ?_, ?_⟩,
    isScope, opens.isNew, body⟩
  · intro found member
    rw [scopes]
    exact goes.kept (List.mem_cons_of_mem _ member)
  · intro found member different
    have apart : found ≠ inner := fun same => opens.isNew (same ▸ member)
    have away : found ≠ opens.entered.root := by rwa [opens.root_entered]
    rw [others found apart different, goes.outside found (List.mem_cons_of_mem _ member) away,
      opens.outlines_entered member different]
  · intro inside spells
    rw [outline, root, isAround, opens.sheet, body inside spells]

end Opens

end Drawing

end SqlDraft
