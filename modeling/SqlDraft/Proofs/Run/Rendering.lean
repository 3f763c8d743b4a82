/-
**Writing a draft leaves no trace in it.**

The text that a draft was last written as is kept beside its tree, and no call reads it. So a draft that
was written goes on as if it had not been:

* `Draft.apply_writtenAs`, `Draft.enter_writtenAs`: a call is the same on a draft that was last written
  as another text.
* `Draft.asked_eq_writtenAs`: a question changes that text only.
* **`Draft.exists_moves_writtenAs`**: all moves lead to the same draft, apart from that text.
-/

import SqlDraft.Proofs.Run.Unwinding

namespace SqlDraft.Draft

variable (draft : Draft) (rendered : String)

/-! ### What is read in a draft -/

@[simp]
theorem store_writtenAs : (draft.writtenAs rendered).store = draft.store := rfl

@[simp]
theorem scope_writtenAs : (draft.writtenAs rendered).scope = draft.scope := rfl

@[simp]
theorem inGroup_writtenAs : (draft.writtenAs rendered).inGroup = draft.inGroup := rfl

@[simp]
theorem alter_writtenAs (change : Store → Store) :
    (draft.writtenAs rendered).alter change = (draft.alter change).writtenAs rendered := rfl

@[simp]
theorem adjust_writtenAs (change : Scope → Scope) :
    (draft.writtenAs rendered).adjust change = (draft.adjust change).writtenAs rendered := by
  obtain ⟨store, base, nested, before, settings⟩ := draft
  cases nested <;> rfl

@[simp]
theorem openScope_writtenAs (scope : Scope) :
    (draft.writtenAs rendered).openScope scope = (draft.openScope scope).writtenAs rendered := rfl

/-! ### Edits -/

@[simp]
theorem addCommand_writtenAs (keyword : Keyword) :
    (draft.writtenAs rendered).addCommand keyword =
      (draft.addCommand keyword).writtenAs rendered := by
  simp [addCommand]

@[simp]
theorem withCommand_writtenAs :
    (draft.writtenAs rendered).withCommand = draft.withCommand.writtenAs rendered := by
  cases said : draft.scope.command <;> simp [withCommand, said]

theorem select_writtenAs (columns : List String) :
    (draft.writtenAs rendered).select columns = (draft.select columns).writtenAs rendered := by
  have can : (draft.writtenAs rendered).canProject = draft.canProject := rfl
  by_cases refused : columns = [] ∨ draft.canProject = false
  · simp only [select, can, if_pos refused]
  · cases said : draft.withCommand.scope.command <;> simp [select, can, refused, said]

theorem distinct_writtenAs :
    (draft.writtenAs rendered).distinct = draft.distinct.writtenAs rendered := by
  cases group : draft.inGroup with
  | true => simp [distinct, group]
  | false =>
    cases said : draft.scope.command with
    | none => simp [distinct, group, said]
    | some clause =>
      by_cases plain : (draft.store.node clause).payload.isKeyword .select <;>
        simp [distinct, group, said, plain]

@[simp]
theorem addTable_writtenAs :
    (draft.writtenAs rendered).addTable = draft.addTable.writtenAs rendered := by
  have keyword : (draft.writtenAs rendered).tableKeyword = draft.tableKeyword := rfl
  simp [addTable, keyword]

theorem table_writtenAs (name : String) :
    (draft.writtenAs rendered).table name = (draft.table name).writtenAs rendered := by
  have can : (draft.writtenAs rendered).canTakeTable = draft.canTakeTable := rfl
  cases open_ : draft.canTakeTable <;> simp [table, can, open_]

@[simp]
theorem startJoin_writtenAs (kind : JoinKind) :
    (draft.writtenAs rendered).startJoin kind = (draft.startJoin kind).writtenAs rendered := by
  simp [startJoin]

@[simp]
theorem join_writtenAs (kind : JoinKind) (table : String) :
    (draft.writtenAs rendered).join kind table = (draft.join kind table).writtenAs rendered := by
  cases group : draft.inGroup <;> simp [join, group]

theorem giveName_writtenAs (name : String) :
    (draft.writtenAs rendered).giveName name = (draft.giveName name).writtenAs rendered := by
  have behind (target : Slot) :
      (draft.writtenAs rendered).nameAfter? target = draft.nameAfter? target := rfl
  cases aims : draft.scope.target with
  | none => simp [giveName, aims]
  | some target =>
    cases named : draft.nameAfter? target with
    | none => simp [giveName, aims, behind, named]
    | some slot =>
      cases leaf : draft.store.firstChild? slot <;> simp [giveName, aims, behind, named, leaf]

theorem remove_writtenAs (removal : Removal) :
    (draft.writtenAs rendered).remove removal = (draft.remove removal).writtenAs rendered := by
  have replaced (clause : Slot) : (draft.writtenAs rendered).replaceCommand removal clause =
      (draft.replaceCommand removal clause).writtenAs rendered := by
    simp only [replaceCommand, alter_writtenAs, adjust_writtenAs, store_writtenAs]
    rfl
  cases group : draft.inGroup with
  | true => simp [remove, group]
  | false =>
    cases said : draft.scope.command with
    | none =>
      cases table : (draft.addCommand removal.keyword).scope.table <;>
        simp [remove, group, said, table]
    | some clause =>
      cases table : (draft.replaceCommand removal clause).scope.table <;>
        simp [remove, group, said, replaced, table]

@[simp]
theorem withConditions_writtenAs (clause : FilterClause) :
    (draft.writtenAs rendered).withConditions clause =
      (draft.withConditions clause).writtenAs rendered := by
  cases group : draft.inGroup with
  | true => simp [withConditions, group]
  | false =>
    cases clause with
    | whereClause | having => simp [withConditions, group]
    | joinOn =>
      cases takes : draft.scope.join with
      | none => simp [withConditions, group, takes]
      | some join =>
        cases found : draft.store.childWith? join .joinOn <;>
          simp [withConditions, group, takes, found]

@[simp]
theorem restrict_writtenAs (clause : FilterClause) (logic : Connective) (condition : Condition) :
    (draft.writtenAs rendered).restrict clause logic condition =
      (draft.restrict clause logic condition).writtenAs rendered := by
  have same : (draft.writtenAs rendered).conditionPlace? clause = draft.conditionPlace? clause :=
    rfl
  cases found : draft.conditionPlace? clause <;> simp [restrict, same, found]

theorem joinOn_writtenAs (kind : JoinKind) (table : String) (condition : Condition) :
    (draft.writtenAs rendered).joinOn kind table condition =
      (draft.joinOn kind table condition).writtenAs rendered := by
  cases group : draft.inGroup <;> simp [joinOn, group]

theorem listColumns_writtenAs (keyword : Keyword) (columns : List String) :
    (draft.writtenAs rendered).listColumns keyword columns =
      (draft.listColumns keyword columns).writtenAs rendered := by
  by_cases refused : columns = [] ∨ draft.inGroup = true <;> simp [listColumns, refused]

theorem direct_writtenAs (direction : Direction) :
    (draft.writtenAs rendered).direct direction = (draft.direct direction).writtenAs rendered := by
  have same : (draft.writtenAs rendered).ordering? = draft.ordering? := rfl
  cases group : draft.inGroup with
  | true => simp [direct, group]
  | false =>
    cases sorted : draft.ordering? with
    | none => simp [direct, group, same, sorted]
    | some clause =>
      cases found : draft.store.lastChild? clause with
      | none => simp [direct, group, same, sorted, found]
      | some last =>
        by_cases directed : (draft.store.node last).payload.keyword?.any Keyword.isDirection <;>
          simp [direct, group, same, sorted, found, directed]

@[simp]
theorem withLimitClause_writtenAs :
    (draft.writtenAs rendered).withLimitClause = draft.withLimitClause.writtenAs rendered := by
  have same : (draft.writtenAs rendered).limitClause? = draft.limitClause? := rfl
  cases found : draft.limitClause? <;> simp [withLimitClause, same, found]

theorem limit_writtenAs (count : UInt64) :
    (draft.writtenAs rendered).limit count = (draft.limit count).writtenAs rendered := by
  have same : (draft.writtenAs rendered).limitClause = draft.limitClause := rfl
  cases group : draft.inGroup <;> simp [limit, group, same]

theorem offset_writtenAs (count : UInt64) :
    (draft.writtenAs rendered).offset count = (draft.offset count).writtenAs rendered := by
  have same : (draft.writtenAs rendered).limitClause = draft.limitClause := rfl
  cases group : draft.inGroup <;> simp [offset, group, same]

theorem apply_writtenAs (change : Edit) :
    (draft.writtenAs rendered).apply change = (draft.apply change).writtenAs rendered := by
  cases change with
  | select columns => exact draft.select_writtenAs rendered columns
  | distinct => exact draft.distinct_writtenAs rendered
  | table name => exact draft.table_writtenAs rendered name
  | remove removal => exact draft.remove_writtenAs rendered removal
  | giveName name => exact draft.giveName_writtenAs rendered name
  | join kind table => exact draft.join_writtenAs rendered kind table
  | joinOn kind table condition => exact draft.joinOn_writtenAs rendered kind table condition
  | restrict clause logic condition =>
    exact draft.restrict_writtenAs rendered clause logic condition
  | groupBy columns => exact draft.listColumns_writtenAs rendered .groupBy columns
  | orderBy columns => exact draft.listColumns_writtenAs rendered .orderBy columns
  | orderDown columns =>
    show ((draft.writtenAs rendered).listColumns .orderBy columns).direct .desc = _
    rw [listColumns_writtenAs, direct_writtenAs]
    rfl
  | direct direction => exact draft.direct_writtenAs rendered direction
  | limit count => exact draft.limit_writtenAs rendered count
  | offset count => exact draft.offset_writtenAs rendered count
  | showPage perPage page =>
    show ((draft.writtenAs rendered).limit perPage).offset _ = _
    rw [limit_writtenAs, offset_writtenAs]
    rfl

/-! ### Scopes -/

@[simp]
theorem openBelow_writtenAs (parent : Slot) (kind : ScopeKind) (handback : Handback) :
    (draft.writtenAs rendered).openBelow parent kind handback =
      (draft.openBelow parent kind handback).writtenAs rendered := rfl

@[simp]
theorem openCondition_writtenAs (clause : FilterClause) (logic : Connective)
    (nested : NestedCondition) : (draft.writtenAs rendered).openCondition clause logic nested =
      (draft.openCondition clause logic nested).writtenAs rendered := by
  have same : (draft.writtenAs rendered).conditionPlace? clause = draft.conditionPlace? clause :=
    rfl
  have lead (draft : Draft) (slot : Slot) : (draft.writtenAs rendered).pushLead slot nested =
      (draft.pushLead slot nested).writtenAs rendered := by
    unfold pushLead
    cases nested.lead? <;> rfl
  cases found : draft.conditionPlace? clause <;> simp [openCondition, same, found, lead]

theorem enter_writtenAs (opening : Opening) :
    (draft.writtenAs rendered).enter opening = (draft.enter opening).writtenAs rendered := by
  have can : (draft.writtenAs rendered).canTakeTable = draft.canTakeTable := rfl
  cases opening with
  | table => cases open_ : draft.canTakeTable <;> simp [enter, openTable, can, open_]
  | union all => cases group : draft.inGroup <;> simp [enter, openUnion, group]
  | joinTable kind => cases group : draft.inGroup <;> simp [enter, openJoin, group]
  | joinConditions kind table => exact draft.join_writtenAs rendered kind table
  | joinOperand kind table column operator =>
    cases group : draft.inGroup <;> simp [enter, group]
  | condition clause logic nested => exact draft.openCondition_writtenAs rendered clause logic nested

/-! ### Moves -/

/-- A question changes the text that the draft was last written as, and nothing else. -/
theorem asked_eq_writtenAs (question : Question) :
    draft.asked question = draft.writtenAs (draft.asked question).rendered := by
  cases question <;> rfl

/-- **A move is the same on a draft that was last written as another text.** -/
theorem exists_move_writtenAs (move : Move) :
    ∃ later, (draft.writtenAs rendered).move move = (draft.move move).writtenAs later := by
  cases move with
  | edit change => exact ⟨rendered, draft.apply_writtenAs rendered change⟩
  | ask question =>
    refine ⟨((draft.writtenAs rendered).asked question).rendered, ?_⟩
    cases question <;> rfl
  | startOver => exact ⟨"", rfl⟩
  | finish => exact ⟨"", rfl⟩
  | enter opening => exact ⟨rendered, draft.enter_writtenAs rendered opening⟩
  | close => exact ⟨rendered, draft.close_writtenAs rendered⟩

/-- **Moves lead to the same draft**, apart from the text that it was last written as. -/
theorem exists_moves_writtenAs (moves : List Move) :
    ∃ later, moves.foldl move (draft.writtenAs rendered) =
      (moves.foldl move draft).writtenAs later := by
  induction moves generalizing draft rendered with
  | nil => exact ⟨rendered, rfl⟩
  | cons first rest step =>
    obtain ⟨later, same⟩ := draft.exists_move_writtenAs rendered first
    rw [List.foldl_cons, same]
    exact step _ later

end SqlDraft.Draft
