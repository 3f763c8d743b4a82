/-
**Stories that are kept in outlines.**

After any moves the draft is drawn by outlines, and their reports are what the events of the story
say. Each move changes the innermost outline and adds its events, and the two changes are the same:

* `Story.Kept`: the draft of a story is drawn, and its events are recorded.
* `Story.Kept.step`: a move keeps the story.
* `Story.kept_after`: so do all moves.
* `Story.mem_openings_of_open`: every open scope is one of those that were opened.
-/

import SqlDraft.Proofs.Run.Reports

namespace SqlDraft

namespace Story

/-- **A story is kept in the outlines of its scopes.** -/
structure Kept (story : Story) (scopes : List Slot) (outlines : Slot → Outline) : Prop where
  sketched : story.draft.Sketched scopes outlines
  recorded : Recorded story.events scopes fun root => (outlines root).report

namespace Kept

variable {draft : Draft} {events : List Event} {scopes : List Slot} {outlines : Slot → Outline}

theorem report_update (outlines : Slot → Outline) (root : Slot) (outline : Outline) :
    (fun found => (Function.update outlines root outline found).report) =
      Function.update (fun found => (outlines found).report) root outline.report := by
  funext found
  exact Function.apply_update (fun _ => Outline.report) outlines root outline found

theorem report_update_eq_self {outlines : Slot → Outline} {root : Slot} {outline : Outline}
    (same : outline.report = (outlines root).report) :
    (fun found => (Function.update outlines root outline found).report) =
      fun found => (outlines found).report := by
  rw [report_update, same]
  exact Function.update_eq_self root fun found => (outlines found).report

/-- A slot that is not in use is no join. -/
theorem not_joinSlot (kept : Kept ⟨draft, events⟩ scopes outlines) {slot : Slot}
    (idle : ¬ draft.store.InUse slot) :
    ∀ root ∈ scopes, slot ∉ (outlines root).report.joinSlots := fun root isScope member =>
  idle (kept.sketched.inUse_joinSlots isScope (kept.recorded.fits root isScope) member)

/-! ### Moves that leave no trace -/

/-- A call that is refused. -/
theorem idle (kept : Kept ⟨draft, events⟩ scopes outlines) :
    ∃ newOutlines, Kept ⟨draft, events ++ []⟩ scopes newOutlines := by
  rw [List.append_nil]
  exact ⟨outlines, kept⟩

/-- A call that is refused or makes a change that no report shows. -/
theorem quiet (kept : Kept ⟨draft, events⟩ scopes outlines) {changed : Draft} {can : Prop}
    (refused : ¬ can → changed = draft)
    (done : can → ∃ outline, changed.Sketched scopes
      (Function.update outlines draft.scope.root outline) ∧
        outline.report = (outlines draft.scope.root).report) :
    ∃ newOutlines, Kept ⟨changed, events ++ []⟩ scopes newOutlines := by
  by_cases possible : can
  · obtain ⟨outline, sketched, same⟩ := done possible
    refine ⟨_, sketched, ?_⟩
    rw [List.append_nil, report_update_eq_self same]
    exact kept.recorded
  · rw [refused possible]
    exact kept.idle

theorem select (kept : Kept ⟨draft, events⟩ scopes outlines) (columns : List String) :
    ∃ newOutlines, Kept ⟨draft.select columns, events ++ []⟩ scopes newOutlines := by
  refine @quiet _ _ _ _ kept _ (columns ≠ [] ∧ draft.canProject = true) (fun refused => ?_)
    fun can => ?_
  · refine if_pos ?_
    rwa [not_and_or, not_not, Bool.not_eq_true] at refused
  · obtain ⟨slot, distinct, old, added, -, -, done⟩ := kept.sketched.select can.1 can.2
    exact ⟨_, done, rfl⟩

theorem table (kept : Kept ⟨draft, events⟩ scopes outlines) (name : String) :
    ∃ newOutlines, Kept ⟨draft.table name, events ++ []⟩ scopes newOutlines := by
  refine @quiet _ _ _ _ kept _ (draft.canTakeTable = true) (fun refused => if_neg refused)
    fun can => ?_
  obtain ⟨leaf, done⟩ := kept.sketched.table can name
  exact ⟨_, done, rfl⟩

/-- A call that a group refuses, and that makes a change that no report shows. -/
theorem unlessGroup (kept : Kept ⟨draft, events⟩ scopes outlines) {changed : Draft}
    (refused : draft.inGroup = true → changed = draft)
    (done : draft.inGroup = false → ∃ outline, changed.Sketched scopes
      (Function.update outlines draft.scope.root outline) ∧
        outline.report = (outlines draft.scope.root).report) :
    ∃ newOutlines, Kept ⟨changed, events ++ []⟩ scopes newOutlines :=
  kept.quiet (fun group => refused (Bool.not_eq_false _ ▸ group)) done

theorem distinct (kept : Kept ⟨draft, events⟩ scopes outlines) :
    ∃ newOutlines, Kept ⟨draft.distinct, events ++ []⟩ scopes newOutlines :=
  kept.unlessGroup (fun group => if_pos group) fun plain => ⟨_, kept.sketched.distinct plain, rfl⟩

theorem remove (kept : Kept ⟨draft, events⟩ scopes outlines) (removal : Removal) :
    ∃ newOutlines, Kept ⟨draft.remove removal, events ++ []⟩ scopes newOutlines := by
  refine kept.unlessGroup (fun group => if_pos group) fun plain => ?_
  obtain ⟨slot, done⟩ := kept.sketched.remove plain removal
  exact ⟨_, done, rfl⟩

theorem giveName (kept : Kept ⟨draft, events⟩ scopes outlines) (name : String) :
    ∃ newOutlines, Kept ⟨draft.giveName name, events ++ []⟩ scopes newOutlines :=
  @quiet _ _ _ _ kept _ True (fun refused => absurd trivial refused) fun _ =>
    ⟨_, kept.sketched.giveName name, Outline.report_named _ name⟩

theorem groupBy (kept : Kept ⟨draft, events⟩ scopes outlines) (columns : List String) :
    ∃ newOutlines, Kept ⟨draft.groupBy columns, events ++ []⟩ scopes newOutlines := by
  refine @quiet _ _ _ _ kept _ (columns ≠ [] ∧ draft.inGroup = false) (fun refused => ?_)
    fun can => ⟨_, kept.sketched.groupBy can.2 can.1, rfl⟩
  refine if_pos ?_
  rwa [not_and_or, not_not, Bool.not_eq_false] at refused

theorem orderBy (kept : Kept ⟨draft, events⟩ scopes outlines) (columns : List String) :
    ∃ newOutlines, Kept ⟨draft.orderBy columns, events ++ []⟩ scopes newOutlines := by
  refine @quiet _ _ _ _ kept _ (columns ≠ [] ∧ draft.inGroup = false) (fun refused => ?_)
    fun can => ⟨_, kept.sketched.orderBy can.2 can.1, rfl⟩
  refine if_pos ?_
  rwa [not_and_or, not_not, Bool.not_eq_false] at refused

theorem direct (kept : Kept ⟨draft, events⟩ scopes outlines) (direction : Direction) :
    ∃ newOutlines, Kept ⟨draft.direct direction, events ++ []⟩ scopes newOutlines :=
  kept.unlessGroup (fun group => if_pos group) fun plain =>
    ⟨_, kept.sketched.direct plain direction, Outline.report_directed _ direction⟩

theorem limit (kept : Kept ⟨draft, events⟩ scopes outlines) (count : UInt64) :
    ∃ newOutlines, Kept ⟨draft.limit count, events ++ []⟩ scopes newOutlines :=
  kept.unlessGroup (fun group => if_pos group) fun plain =>
    ⟨_, kept.sketched.limit plain count, rfl⟩

theorem offset (kept : Kept ⟨draft, events⟩ scopes outlines) (count : UInt64) :
    ∃ newOutlines, Kept ⟨draft.offset count, events ++ []⟩ scopes newOutlines :=
  kept.unlessGroup (fun group => if_pos group) fun plain =>
    ⟨_, kept.sketched.offset plain count, rfl⟩

/-! ### Moves that leave a trace -/

/-- A join is recorded, whatever it takes its rows from. -/
theorem recorded_joined (kept : Kept ⟨draft, events⟩ scopes outlines) (plain : draft.inGroup = false)
    (kind : JoinKind) (source : Source) :
    Recorded (events ++ [.joined draft.scope.root draft.store.fresh kind]) scopes (Function.update
      (fun found => (outlines found).report) draft.scope.root
        ((outlines draft.scope.root).joined draft.store.fresh kind source).report) := by
  rw [Outline.report_joined]
  exact kept.recorded.joined kept.sketched.isScope kind
    (kept.not_joinSlot draft.store.fresh_not_inUse) (kept.sketched.kind_ne_group plain)

/-- A condition is recorded where it lands. -/
theorem recorded_landed (kept : Kept ⟨draft, events⟩ scopes outlines) {seat : Seat} {spot : Spot}
    (known : (outlines draft.scope.root).spot? draft.scope.root seat = some spot)
    (suits : spot = .group draft.scope.root ↔ (outlines draft.scope.root).report.kind = .group)
    (place : Slot) (item : Item) :
    Recorded (events ++ [.landed spot item.landing]) scopes (Function.update
      (fun found => (outlines found).report) draft.scope.root ((outlines draft.scope.root).seated
        place ((outlines draft.scope.root).items seat ++ [item]) seat).report) := by
  have isScope := kept.sketched.isScope
  rw [Outline.report_seated known (kept.recorded.distinct _ isScope)]
  exact kept.recorded.landed isScope (Outline.has_of_spot? _ known) suits item.landing

/-- A table is joined. -/
theorem join (kept : Kept ⟨draft, events⟩ scopes outlines) (kind : JoinKind) (table : String) :
    ∃ newOutlines, Kept ⟨draft.join kind table, events ++ draft.joinEvents kind⟩ scopes
      newOutlines := by
  unfold Draft.joinEvents
  cases plain : draft.inGroup with
  | true =>
    have refused : draft.join kind table = draft := if_pos plain
    rw [refused, if_pos rfl]
    exact kept.idle
  | false =>
    obtain ⟨leaf, sketched⟩ := kept.sketched.join plain kind table
    rw [if_neg (by simp)]
    refine ⟨_, sketched, ?_⟩
    rw [report_update]
    exact kept.recorded_joined plain kind (.name leaf table)

/-- A condition lands. -/
theorem restrict (kept : Kept ⟨draft, events⟩ scopes outlines) (clause : FilterClause)
    (logic : Connective) (condition : Condition) :
    ∃ newOutlines, Kept ⟨draft.restrict clause logic condition,
      events ++ draft.restrictEvents clause logic condition⟩ scopes newOutlines := by
  unfold Draft.restrictEvents
  rw [kept.sketched.spot?_eq]
  cases goes : (outlines draft.scope.root).seat? clause with
  | none =>
    have refused : draft.restrict clause logic condition = draft := by
      unfold Draft.restrict
      rw [kept.sketched.conditionPlace?_eq_none goes]
    rw [refused]
    exact kept.idle
  | some seat =>
    obtain ⟨spot, known, suits⟩ := kept.sketched.exists_spot goes
    obtain ⟨place, mark, sketched⟩ := kept.sketched.restrict goes logic condition
    rw [Option.bind_some, known]
    refine ⟨_, sketched, ?_⟩
    rw [report_update]
    exact kept.recorded_landed known suits place ⟨mark, logic, .leaf condition.sql⟩

/-- A table is joined on a condition. -/
theorem joinOn (kept : Kept ⟨draft, events⟩ scopes outlines) (kind : JoinKind) (table : String)
    (condition : Condition) : ∃ newOutlines, Kept ⟨draft.joinOn kind table condition,
      events ++ draft.editEvents (.joinOn kind table condition)⟩ scopes newOutlines := by
  show ∃ newOutlines, Kept ⟨draft.joinOn kind table condition, events ++ if draft.inGroup then []
    else draft.joinEvents kind ++ (draft.join kind table).restrictEvents .joinOn .and condition⟩
    scopes newOutlines
  unfold Draft.joinOn
  cases draft.inGroup with
  | true => exact kept.idle
  | false =>
    obtain ⟨between, joined⟩ := kept.join kind table
    obtain ⟨newOutlines, restricted⟩ := joined.restrict .joinOn .and condition
    rw [List.append_assoc] at restricted
    exact ⟨newOutlines, restricted⟩

/-- **An edit keeps the story.** -/
theorem edit (kept : Kept ⟨draft, events⟩ scopes outlines) (change : Edit) :
    ∃ newOutlines, Kept ⟨draft.apply change, events ++ draft.editEvents change⟩ scopes
      newOutlines := by
  cases change with
  | select columns => exact kept.select columns
  | distinct => exact kept.distinct
  | table name => exact kept.table name
  | remove removal => exact kept.remove removal
  | giveName name => exact kept.giveName name
  | join kind table => exact kept.join kind table
  | joinOn kind table condition => exact kept.joinOn kind table condition
  | restrict clause logic condition => exact kept.restrict clause logic condition
  | groupBy columns => exact kept.groupBy columns
  | orderBy columns => exact kept.orderBy columns
  | orderDown columns =>
    obtain ⟨between, ordered⟩ := kept.orderBy columns
    obtain ⟨newOutlines, directed⟩ := ordered.direct .desc
    rw [List.append_nil] at directed
    exact ⟨newOutlines, directed⟩
  | direct direction => exact kept.direct direction
  | limit count => exact kept.limit count
  | offset count => exact kept.offset count
  | showPage perPage page =>
    obtain ⟨between, limited⟩ := kept.limit perPage
    obtain ⟨newOutlines, skipping⟩ := limited.offset (Paging.skipped perPage page)
    rw [List.append_nil] at skipping
    exact ⟨newOutlines, skipping⟩

/-! ### Scopes that are opened and closed -/

/-- A scope is opened. -/
theorem opened {changed : Draft} {more : List Event} {outline : Outline} {inner : Slot}
    {kind : ScopeKind} (recorded : Recorded (events ++ more) scopes (Function.update
      (fun found => (outlines found).report) draft.scope.root outline.report))
    (isNew : inner ∉ scopes)
    (sketched : changed.Sketched (inner :: scopes) (Function.update
      (Function.update outlines draft.scope.root outline) inner (.silent kind))) :
    ∃ newScopes newOutlines, Kept ⟨changed, events ++ (more ++ [.opened inner kind])⟩ newScopes
      newOutlines := by
  refine ⟨inner :: scopes, _, sketched, ?_⟩
  rw [report_update, report_update, Outline.report_silent, ← List.append_assoc]
  exact recorded.opened isNew kind

theorem openTable (kept : Kept ⟨draft, events⟩ scopes outlines) :
    ∃ newScopes newOutlines, Kept ⟨draft.openTable, events ++ draft.enterEvents .table⟩ newScopes
      newOutlines := by
  show ∃ newScopes newOutlines, Kept ⟨_, events ++ if draft.canTakeTable then _ else _⟩ newScopes
    newOutlines
  by_cases can : draft.canTakeTable = true
  · obtain ⟨inner, root, isNew, sketched⟩ := kept.sketched.openTable can
    rw [if_pos can, root]
    refine @opened _ _ _ _ _ [] _ _ _ ?_ isNew sketched
    have same : ((outlines draft.scope.root).tabled draft.store.fresh (.scope inner)).report =
        (outlines draft.scope.root).report := rfl
    rw [List.append_nil, same,
      Function.update_eq_self draft.scope.root fun found => (outlines found).report]
    exact kept.recorded
  · have refused : draft.openTable = draft := if_neg can
    rw [if_neg can, refused]
    exact ⟨scopes, kept.idle⟩

theorem openUnion (kept : Kept ⟨draft, events⟩ scopes outlines) (all : Bool) :
    ∃ newScopes newOutlines, Kept ⟨draft.openUnion all, events ++ draft.enterEvents (.union all)⟩
      newScopes newOutlines := by
  show ∃ newScopes newOutlines, Kept ⟨_, events ++ if draft.inGroup then _ else _⟩ newScopes
    newOutlines
  cases plain : draft.inGroup with
  | true =>
    have refused : draft.openUnion all = draft := if_pos plain
    rw [if_pos rfl, refused]
    exact ⟨scopes, kept.idle⟩
  | false =>
    obtain ⟨inner, root, isNew, sketched⟩ := kept.sketched.openUnion plain all
    rw [if_neg (by simp), root]
    refine @opened _ _ _ _ _ [_] _ _ _ ?_ isNew sketched
    rw [Outline.report_united]
    exact kept.recorded.united kept.sketched.isScope _ all

theorem openJoin (kept : Kept ⟨draft, events⟩ scopes outlines) (kind : JoinKind) :
    ∃ newScopes newOutlines, Kept ⟨draft.openJoin kind,
      events ++ draft.enterEvents (.joinTable kind)⟩ newScopes newOutlines := by
  show ∃ newScopes newOutlines, Kept ⟨_, events ++ if draft.inGroup then [] else
    (if draft.inGroup then _ else _) ++ _⟩ newScopes newOutlines
  cases plain : draft.inGroup with
  | true =>
    have refused : draft.openJoin kind = draft := if_pos plain
    rw [if_pos rfl, refused]
    exact ⟨scopes, kept.idle⟩
  | false =>
    obtain ⟨inner, root, isNew, sketched⟩ := kept.sketched.openJoin plain kind
    rw [if_neg (by simp), if_neg (by simp), root]
    exact opened (kept.recorded_joined plain kind (.scope inner)) isNew sketched

theorem openCondition (kept : Kept ⟨draft, events⟩ scopes outlines) (clause : FilterClause)
    (logic : Connective) (nested : NestedCondition) :
    ∃ newScopes newOutlines, Kept ⟨draft.openCondition clause logic nested,
      events ++ draft.conditionEvents clause logic nested⟩ newScopes newOutlines := by
  unfold Draft.conditionEvents
  rw [kept.sketched.spot?_eq]
  cases goes : (outlines draft.scope.root).seat? clause with
  | none =>
    have refused : draft.openCondition clause logic nested = draft := by
      unfold Draft.openCondition
      rw [kept.sketched.conditionPlace?_eq_none goes]
    rw [refused]
    exact ⟨scopes, kept.idle⟩
  | some seat =>
    obtain ⟨spot, known, suits⟩ := kept.sketched.exists_spot goes
    obtain ⟨place, mark, inner, root, isNew, sketched⟩ :=
      kept.sketched.openCondition goes logic nested
    rw [Option.bind_some, known, root]
    exact opened (kept.recorded_landed known suits place ⟨mark, logic, .scope nested inner⟩) isNew
      sketched

/-- **Opening something keeps the story.** -/
theorem enter (kept : Kept ⟨draft, events⟩ scopes outlines) (opening : Opening) :
    ∃ newScopes newOutlines, Kept ⟨draft.enter opening, events ++ draft.enterEvents opening⟩
      newScopes newOutlines := by
  cases opening with
  | table => exact kept.openTable
  | union all => exact kept.openUnion all
  | joinTable kind => exact kept.openJoin kind
  | joinConditions kind table => exact ⟨scopes, kept.join kind table⟩
  | joinOperand kind table column operator =>
    show ∃ newScopes newOutlines, Kept ⟨if draft.inGroup then _ else _,
      events ++ if draft.inGroup then _ else _⟩ newScopes newOutlines
    cases draft.inGroup with
    | true => exact ⟨scopes, kept.idle⟩
    | false =>
      obtain ⟨between, joined⟩ := kept.join kind table
      obtain ⟨newScopes, newOutlines, opened⟩ :=
        joined.openCondition .joinOn .and (.operand column operator)
      rw [List.append_assoc] at opened
      exact ⟨newScopes, newOutlines, opened⟩
  | condition clause logic nested => exact kept.openCondition clause logic nested

/-- **Closing a scope keeps the story.** -/
theorem close (kept : Kept ⟨draft, events⟩ scopes outlines) :
    ∃ newOutlines, Kept ⟨draft.close, events ++ []⟩ scopes newOutlines := by
  cases nested : draft.nested with
  | nil =>
    have refused : draft.close = draft := by
      unfold Draft.close
      rw [nested]
    rw [refused]
    exact kept.idle
  | cons closed outer =>
    obtain ⟨next, isOpen, apart, target, sketched⟩ := kept.sketched.close nested
    refine ⟨_, sketched, ?_⟩
    have shut : ((outlines closed.root).completed draft.store.fresh).shut.report =
        (outlines closed.root).report := Outline.report_completed _ _
    have resumed : ((outlines next.root).resumed target closed.handback.keepsJoin).report =
        (Function.update outlines closed.root
          ((outlines closed.root).completed draft.store.fresh).shut next.root).report := by
      rw [Function.update_of_ne apart]
      rfl
    rw [List.append_nil, report_update_eq_self resumed, report_update_eq_self shut]
    exact kept.recorded

/-! ### All moves -/

theorem ask (kept : Kept ⟨draft, events⟩ scopes outlines) (question : Question) :
    Kept ⟨draft.asked question, events ++ []⟩ scopes outlines := by
  rw [List.append_nil]
  cases question with
  | render | renderIn dialect => exact ⟨{ kept.sketched with }, kept.recorded⟩
  | text | settings | usage => exact kept

theorem new (draft : Draft) (sketched : draft.Sketched [draft.root] fun _ => .silent .statement) :
    Kept (new draft) [draft.root] fun _ => .silent .statement :=
  ⟨sketched, Recorded.new draft.root .statement⟩

/-- **A move keeps the story.** -/
theorem step {story : Story} (kept : Kept story scopes outlines) (move : Move) :
    ∃ newScopes newOutlines, Kept (story.step move) newScopes newOutlines := by
  obtain ⟨draft, events⟩ := story
  cases move with
  | edit change => exact ⟨scopes, kept.edit change⟩
  | ask question => exact ⟨scopes, outlines, kept.ask question⟩
  | startOver => exact ⟨_, _, new _ (Draft.Sketched.startOver draft)⟩
  | finish => exact ⟨_, _, new _ (Draft.Sketched.start Settings.standard)⟩
  | enter opening => exact kept.enter opening
  | close => exact ⟨scopes, kept.close⟩

end Kept

/-- The scopes that were opened are those of the outlines. -/
theorem Kept.mem_openings {story : Story} {scopes : List Slot} {outlines : Slot → Outline}
    (kept : story.Kept scopes outlines) {root : Slot} {kind : ScopeKind} :
    (root, kind) ∈ Event.openings story.events ↔ root ∈ scopes ∧ (outlines root).kind = kind := by
  rw [kept.recorded.openings, List.mem_map]
  constructor
  · rintro ⟨found, member, same⟩
    obtain ⟨rfl, sameKind⟩ := Prod.mk.inj same
    exact ⟨List.mem_reverse.mp member, sameKind⟩
  · rintro ⟨isScope, rfl⟩
    exact ⟨root, List.mem_reverse.mpr isScope, rfl⟩

/-- **After any moves the story is kept in outlines.** -/
theorem kept_after (settings : Settings) (moves : List Move) :
    ∃ scopes outlines, (after settings moves).Kept scopes outlines := by
  unfold after
  induction moves using List.reverseRecOn with
  | nil => exact ⟨_, _, Kept.new _ (Draft.Sketched.start settings)⟩
  | append_singleton moves move step =>
    obtain ⟨scopes, outlines, kept⟩ := step
    rw [List.foldl_concat]
    exact kept.step move

/-- Every open scope is one of those that were opened. -/
theorem mem_openings_of_open (settings : Settings) (moves : List Move) {scope : Scope}
    (isOpen : scope ∈ (after settings moves).draft.opens) :
    (scope.root, scope.kind) ∈ Event.openings (after settings moves).events := by
  obtain ⟨scopes, outlines, kept⟩ := kept_after settings moves
  have held := kept.sketched.held scope isOpen
  exact kept.mem_openings.mpr ⟨kept.sketched.known scope isOpen, held.kind⟩

end Story

end SqlDraft
