/-
**What happened in a scope.**

A name and the conditions on a join go to what came last in the innermost scope. What that is can be
read off the calls in that scope alone, from the latest one back, with the scopes inside it that have
closed:

* `Turn`: what can happen in a scope that bears on names and joins.
* `Turn.join?`, `Turn.target?`: the join that conditions go to, and what a name goes to.
* `Chronicle.after`: a draft after some moves, with what happened in its open scopes.
* **`Draft.join_apply`**, **`Drawing.target_edited`**: what an edit changes of the two.
* `Draft.exists_around`, `Drawing.target_received`: what opening and closing a scope changes.
-/

import SqlDraft.Proofs.Run.Locality

namespace SqlDraft

/-! ### What can happen -/

/-- What can happen in a scope that bears on names and on conditions of joins. -/
inductive Turn
  /-- Columns were selected. -/
  | selected
  /-- The scope got its table. -/
  | tabled
  /-- A join was added in this slot. -/
  | joined (slot : Slot) (kind : JoinKind)
  /-- The scope was made a removal. -/
  | removed
  /-- A scope inside this one was closed. -/
  | closed (opening : Opening)

/-- What a name goes to when the scope that was opened is closed. -/
def Opening.target? : Opening → Option Target
  | table => some .table
  | joinTable _ => some .join
  | union _ | joinConditions _ _ | joinOperand _ _ _ _ | condition _ _ _ => none

namespace Turn

/-- The join that conditions go to, by what happened, the latest first: the latest join, unless it is
a cross join or a scope that lets go of it has closed since. -/
def join? : List Turn → Option Slot
  | [] => none
  | joined slot kind :: _ => if kind = .cross then none else some slot
  | closed opening :: earlier => if opening.keepsJoin then join? earlier else none
  | selected :: earlier | tabled :: earlier | removed :: earlier => join? earlier

/-- What a name goes to, by what happened, the latest first. A removal drops the columns. -/
def target? : List Turn → Option Target
  | [] => none
  | selected :: _ => some .column
  | tabled :: _ => some .table
  | joined _ _ :: _ => some .join
  | closed opening :: _ => opening.target?
  | removed :: earlier => (target? earlier).filter Target.outlivesColumns

end Turn

namespace Draft

/-- What happens in an edit. A refused edit does nothing, and so does one without columns. -/
def editTurns (draft : Draft) (change : Edit) : List Turn :=
  if (draft.refusal? change).isSome then []
  else
    match change with
    | .select columns => if columns = [] then [] else [.selected]
    | .table _ => [.tabled]
    | .remove _ => [.removed]
    | .join kind _ | .joinOn kind _ _ => [.joined draft.store.fresh kind]
    | .distinct | .giveName _ | .restrict _ _ _ | .groupBy _ | .orderBy _ | .orderDown _
    | .direct _ | .limit _ | .offset _ | .showPage _ _ => []

/-- What happens when something is opened, before it is filled: a join is made. -/
def enterTurns (draft : Draft) (opening : Opening) : List Turn :=
  if draft.inGroup then []
  else
    match opening with
    | .joinTable kind | .joinConditions kind _ | .joinOperand kind _ _ _ =>
      [.joined draft.store.fresh kind]
    | .table | .union _ | .condition _ _ _ => []

end Draft

/-! ### Chronicles -/

/-- A draft with what happened in its open scopes since it was last started over. -/
structure Chronicle where
  draft : Draft
  /-- What happened in the innermost scope, the latest first. -/
  turns : List Turn
  /-- What is being filled, the innermost first, each with what happened in the scope around it. -/
  pending : List (Opening × List Turn)

namespace Chronicle

/-- The chronicle of a draft in which nothing was said. -/
def new (draft : Draft) : Chronicle := ⟨draft, [], []⟩

/-- Something was opened. If that is a scope, nothing has happened in it. -/
def entered (chronicle : Chronicle) (opening : Opening) : Chronicle :=
  let met := chronicle.draft.enterTurns opening ++ chronicle.turns
  if chronicle.draft.admits opening ∧ (Draft.openedKind? opening).isSome then
    ⟨chronicle.draft.enter opening, [], (opening, met) :: chronicle.pending⟩
  else ⟨chronicle.draft.enter opening, met, chronicle.pending⟩

/-- The innermost scope was closed. The statement itself stays open. -/
def left (chronicle : Chronicle) : Chronicle :=
  match chronicle.pending with
  | [] => ⟨chronicle.draft.close, chronicle.turns, []⟩
  | (opening, met) :: outer => ⟨chronicle.draft.close, .closed opening :: met, outer⟩

/-- A chronicle goes on, or starts over. -/
def step (chronicle : Chronicle) : Move → Chronicle
  | .edit change =>
    ⟨chronicle.draft.apply change, chronicle.draft.editTurns change ++ chronicle.turns,
      chronicle.pending⟩
  | .ask question => ⟨chronicle.draft.asked question, chronicle.turns, chronicle.pending⟩
  | .startOver => new chronicle.draft.startOver
  | .finish => new (Draft.start Settings.standard)
  | .enter opening => chronicle.entered opening
  | .close => chronicle.left

/-- The chronicle of some moves. -/
def after (settings : Settings) (moves : List Move) : Chronicle :=
  moves.foldl step (new (Draft.start settings))

theorem draft_step (chronicle : Chronicle) (move : Move) :
    (chronicle.step move).draft = chronicle.draft.move move := by
  cases move with
  | edit | ask | startOver | finish => rfl
  | enter opening =>
    show (chronicle.entered opening).draft = _
    unfold entered
    dsimp only
    split <;> rfl
  | close =>
    show chronicle.left.draft = _
    unfold left
    split <;> rfl

/-- The draft of a chronicle is the draft of the story of the same moves. -/
theorem draft_after (settings : Settings) (moves : List Move) :
    (after settings moves).draft = (Story.after settings moves).draft := by
  have same (chronicle : Chronicle) :
      (moves.foldl step chronicle).draft = moves.foldl Draft.move chronicle.draft := by
    induction moves generalizing chronicle with
    | nil => rfl
    | cons move rest further => rw [List.foldl_cons, List.foldl_cons, further, draft_step]
  exact (same _).trans (Story.draft_foldl (.new (Draft.start settings)) moves).symm

end Chronicle

/-! ### What the innermost scope remembers of its joins -/

namespace Draft

variable (draft : Draft)

theorem join_select (columns : List String) :
    (draft.select columns).scope.join = draft.scope.join := by
  have commanded : draft.withCommand.scope.join = draft.scope.join := by
    unfold withCommand addCommand
    split <;> simp
  unfold select
  split
  · rfl
  · dsimp only
    split
    · exact commanded
    · rw [scope_adjust, scope_alter, commanded]

theorem join_distinct : draft.distinct.scope.join = draft.scope.join := by
  unfold distinct addCommand
  split
  · rfl
  · split
    · simp
    · split <;> rfl

theorem join_table (name : String) : (draft.table name).scope.join = draft.scope.join := by
  unfold table addTable
  split <;> simp

theorem join_remove (removal : Removal) :
    (draft.remove removal).scope.join = draft.scope.join := by
  unfold remove addCommand replaceCommand
  split
  · rfl
  · dsimp only
    split <;> split <;> simp

/-! ### Refusals -/

variable {draft}

theorem refusesTable?_isSome : draft.refusesTable?.isSome = !draft.canTakeTable := by
  unfold refusesTable? refusesPart? canTakeTable
  cases draft.inGroup <;> cases draft.scope.table <;> rfl

theorem refusesColumns?_isSome : draft.refusesColumns?.isSome = !draft.canProject := by
  unfold refusesColumns? refusesPart? canProject
  cases draft.inGroup
  · cases draft.scope.command <;> by_cases selects : draft.scopeCommand = .select <;> simp [selects]
  · rfl

theorem refusesPart?_isSome_eq (part : Part) : (draft.refusesPart? part).isSome = draft.inGroup := by
  unfold refusesPart?
  cases draft.inGroup <;> rfl

theorem editTurns_select (columns : List String) : draft.editTurns (.select columns) =
    if columns = [] ∨ draft.canProject = false then [] else [.selected] := by
  show (if (unlessEmpty columns draft.refusesColumns?).isSome = true then [] else _) = _
  unfold unlessEmpty
  by_cases empty : columns = []
  · simp [empty]
  · simp [empty, refusesColumns?_isSome]

theorem editTurns_table (name : String) : draft.editTurns (.table name) =
    if draft.canTakeTable then [.tabled] else [] := by
  show (if draft.refusesTable?.isSome = true then [] else _) = _
  rw [refusesTable?_isSome]
  cases draft.canTakeTable <;> rfl

theorem editTurns_remove (removal : Removal) : draft.editTurns (.remove removal) =
    if draft.inGroup then [] else [.removed] := by
  show (if (draft.refusesPart? (.remove removal)).isSome = true then [] else _) = _
  rw [refusesPart?_isSome_eq]

theorem editTurns_join (kind : JoinKind) (table : String) : draft.editTurns (.join kind table) =
    if draft.inGroup then [] else [.joined draft.store.fresh kind] := by
  show (if (draft.refusesPart? .join).isSome = true then [] else _) = _
  rw [refusesPart?_isSome_eq]

/-! ### The join that the innermost scope remembers -/

theorem join_join (plain : draft.inGroup = false) (kind : JoinKind) (table : String) :
    (draft.join kind table).scope.join = if kind = .cross then none else some draft.store.fresh := by
  rw [scope_join plain]

theorem editTurns_joinOn (kind : JoinKind) (table : String) (condition : Condition) :
    draft.editTurns (.joinOn kind table condition) = draft.editTurns (.join kind table) := rfl

/-- **An edit changes the current join as what happens in it tells.** -/
theorem join_apply {turns : List Turn} (remembers : draft.scope.join = Turn.join? turns)
    (change : Edit) :
    (draft.apply change).scope.join = Turn.join? (draft.editTurns change ++ turns) := by
  -- Edits in which nothing happens.
  have quiet (kept : (draft.apply change).scope.join = draft.scope.join)
      (nothing : draft.editTurns change = []) :
      (draft.apply change).scope.join = Turn.join? (draft.editTurns change ++ turns) := by
    rw [kept, nothing, remembers, List.nil_append]
  have unseen (same : (draft.apply change).opens = draft.opens)
      (nothing : draft.editTurns change = []) :
      (draft.apply change).scope.join = Turn.join? (draft.editTurns change ++ turns) :=
    quiet (congrArg Scope.join (scope_eq same)) nothing
  have joined (kind : JoinKind) (table : String) : (draft.join kind table).scope.join =
      Turn.join? (draft.editTurns (.join kind table) ++ turns) := by
    rw [editTurns_join]
    cases group : draft.inGroup with
    | true => rw [join_of_group group, remembers, if_pos rfl, List.nil_append]
    | false => exact (join_join group kind table).trans (by rfl)
  cases change with
  | select columns =>
    rw [editTurns_select, apply, join_select, remembers]
    split <;> rfl
  | table name =>
    rw [editTurns_table, apply, join_table, remembers]
    split <;> rfl
  | remove removal =>
    rw [editTurns_remove, apply, join_remove, remembers]
    split <;> rfl
  | join kind table => exact joined kind table
  | joinOn kind table condition =>
    rw [editTurns_joinOn, ← joined]
    show (draft.joinOn kind table condition).scope.join = _
    unfold joinOn
    split
    · next group => rw [join_of_group group]
    · rw [scope_eq (opens_restrict _ _ _ _)]
  | distinct => exact quiet draft.join_distinct (ite_self _)
  | giveName name => exact unseen (draft.opens_giveName name) (ite_self _)
  | restrict clause logic condition =>
    exact unseen (draft.opens_restrict clause logic condition) (ite_self _)
  | groupBy columns => exact unseen (draft.opens_listColumns .groupBy columns) (ite_self _)
  | orderBy columns => exact unseen (draft.opens_listColumns .orderBy columns) (ite_self _)
  | orderDown columns => exact unseen (draft.opens_orderDown columns) (ite_self _)
  | direct direction => exact unseen (draft.opens_direct direction) (ite_self _)
  | limit count => exact unseen (draft.opens_limit count) (ite_self _)
  | offset count => exact unseen (draft.opens_offset count) (ite_self _)
  | showPage perPage page => exact unseen (draft.opens_showPage perPage page) (ite_self _)

end Draft

/-! ### What a name goes to -/

namespace Sheet

variable (sheet : Sheet)

theorem target_adding (remark : Remark) (seat : Seat) :
    (sheet.adding remark seat).target = sheet.target := by
  cases seat <;> rfl

theorem target_restrict (clause : FilterClause) (remark : Remark) :
    (sheet.restrict clause remark).target = sheet.target := by
  unfold restrict
  split
  · rfl
  · exact sheet.target_adding remark _

theorem target_giveName (name : String) : (sheet.giveName name).target = sheet.target := by
  unfold giveName
  split
  · rfl
  · next target _ => cases target <;> rfl

theorem target_orderBy (columns : List String) : (sheet.orderBy columns).target = sheet.target := by
  unfold orderBy
  split <;> rfl

theorem target_direct (direction : Direction) : (sheet.direct direction).target = sheet.target := by
  unfold direct
  split <;> rfl

theorem target_limit (count : UInt64) : (sheet.limit count).target = sheet.target := by
  unfold limit
  split <;> rfl

theorem target_offset (count : UInt64) : (sheet.offset count).target = sheet.target := by
  unfold offset
  split <;> rfl

end Sheet

namespace Drawing

variable (drawing : Drawing)

/-- **An edit changes what a name goes to as what happens in it tells.** -/
theorem target_edited (inside : Slot → List Payload) {turns : List Turn}
    (aims : drawing.outline.target = Turn.target? turns) (change : Edit) :
    ((drawing.outline.sheet inside).edited change).target =
      Turn.target? (drawing.draft.editTurns change ++ turns) := by
  have aimsToo : (drawing.outline.sheet inside).target = Turn.target? turns := aims
  -- Edits in which nothing happens.
  have quiet (kept : ((drawing.outline.sheet inside).edited change).target =
        (drawing.outline.sheet inside).target) (nothing : drawing.draft.editTurns change = []) :
      ((drawing.outline.sheet inside).edited change).target =
        Turn.target? (drawing.draft.editTurns change ++ turns) := by
    rw [kept, nothing, aimsToo, List.nil_append]
  have joined (kind : JoinKind) (table : String) :
      ((drawing.outline.sheet inside).join kind table).target =
        Turn.target? (drawing.draft.editTurns (.join kind table) ++ turns) := by
    rw [Draft.editTurns_join, Sheet.join, drawing.grouped_eq inside]
    split
    · exact aimsToo
    · rfl
  cases change with
  | select columns =>
    rw [Draft.editTurns_select, Sheet.edited, Sheet.select, drawing.canProject_eq inside]
    split
    · exact aimsToo
    · rfl
  | table name =>
    rw [Draft.editTurns_table, Sheet.edited, Sheet.fromTable, drawing.canTakeTable_eq inside]
    split
    · rfl
    · exact aimsToo
  | remove removal =>
    rw [Draft.editTurns_remove, Sheet.edited, Sheet.remove, drawing.grouped_eq inside]
    split
    · exact aimsToo
    · exact congrArg (Option.filter Target.outlivesColumns) aimsToo
  | join kind table => exact joined kind table
  | joinOn kind table condition =>
    rw [Draft.editTurns_joinOn, ← joined, Sheet.edited, Sheet.joinOn]
    split
    · next group => rw [Sheet.join, if_pos group]
    · exact Sheet.target_restrict _ _ _
  | distinct =>
    refine quiet ?_ (ite_self _)
    show (drawing.outline.sheet inside).distinct.target = _
    unfold Sheet.distinct
    split <;> rfl
  | giveName name => exact quiet (Sheet.target_giveName _ name) (ite_self _)
  | restrict clause logic condition => exact quiet (Sheet.target_restrict _ clause _) (ite_self _)
  | groupBy columns =>
    refine quiet ?_ (ite_self _)
    show ((drawing.outline.sheet inside).groupBy columns).target = _
    unfold Sheet.groupBy
    split <;> rfl
  | orderBy columns => exact quiet (Sheet.target_orderBy _ columns) (ite_self _)
  | orderDown columns =>
    exact quiet ((Sheet.target_direct _ .desc).trans (Sheet.target_orderBy _ columns)) (ite_self _)
  | direct direction => exact quiet (Sheet.target_direct _ direction) (ite_self _)
  | limit count => exact quiet (Sheet.target_limit _ count) (ite_self _)
  | offset count => exact quiet (Sheet.target_offset _ count) (ite_self _)
  | showPage perPage page =>
    exact quiet ((Sheet.target_offset _ _).trans (Sheet.target_limit _ perPage)) (ite_self _)

/-- The target that a scope leaves when it is closed is the one of the opening. -/
theorem target_received {inside : Slot → List Payload} {opening : Opening} {kind : ScopeKind}
    (opened : Draft.openedKind? opening = some kind) (admits : drawing.draft.admits opening = true)
    (single : ∀ kind table column operator, opening ≠ .joinOperand kind table column operator)
    (body : List Payload) :
    ((drawing.outline.sheet inside).received body opening).target = opening.target? := by
  have clausal (plain : drawing.draft.inGroup = false) :
      (drawing.outline.sheet inside).grouped = false := (drawing.grouped_eq inside).trans plain
  cases opening with
  | table =>
    have can : (drawing.outline.sheet inside).canTakeTable = true :=
      (drawing.canTakeTable_eq inside).trans admits
    rw [Sheet.received, if_pos can]
    rfl
  | union all =>
    rw [Sheet.received, Sheet.ite_grouped (clausal (Bool.not_eq_true' _ ▸ admits))]
    rfl
  | joinTable kind =>
    rw [Sheet.received, Sheet.ite_grouped (clausal (Bool.not_eq_true' _ ▸ admits))]
    rfl
  | joinConditions kind table => cases opened
  | joinOperand kind table column operator => exact absurd rfl (single kind table column operator)
  | condition clause logic nested =>
    have takes : (drawing.outline.seat? clause).isSome = true :=
      (drawing.takesCondition_eq clause).symm.trans admits
    obtain ⟨seat, goes⟩ := Option.isSome_iff_exists.mp takes
    rw [Sheet.received, Sheet.nested, Outline.seat?_sheet, goes]
    rfl

end Drawing

/-! ### The scopes around the innermost one -/

namespace Draft

variable {draft : Draft}

/-- **When a scope is opened, the scope around it remembers the current join as what happened tells.**
A join on an operand is left aside, which is a join and a condition. -/
theorem exists_around {opening : Opening} {kind : ScopeKind} {turns : List Turn}
    (remembers : draft.scope.join = Turn.join? turns)
    (opened : openedKind? opening = some kind) (admits : draft.admits opening = true)
    (single : ∀ kind table column operator, opening ≠ .joinOperand kind table column operator) :
    ∃ outer, (draft.enter opening).around = outer :: draft.around ∧
      outer.frame = draft.scope.frame ∧
      outer.join = Turn.join? (draft.enterTurns opening ++ turns) := by
  cases opening with
  | table =>
    have can : draft.canTakeTable = true := admits
    refine ⟨{ draft.scope with table := some draft.store.fresh }, ?_, rfl, ?_⟩
    · rw [enter, openTable, if_pos can]
      exact opens_adjust _ _
    · rw [enterTurns, ite_self]
      exact remembers
  | union all =>
    have plain : draft.inGroup = false := Bool.not_eq_true' _ ▸ admits
    refine ⟨draft.scope, ?_, rfl, ?_⟩
    · rw [enter, openUnion, plain, if_neg Bool.false_ne_true]
      exact opens_eq _
    · rw [enterTurns, ite_self]
      exact remembers
  | joinTable kind =>
    have plain : draft.inGroup = false := Bool.not_eq_true' _ ▸ admits
    refine ⟨{ draft.scope with
      join := if kind = .cross then none else some draft.store.fresh, target := none }, ?_, rfl, ?_⟩
    · rw [enter, openJoin, plain, if_neg Bool.false_ne_true]
      exact opens_adjust _ _
    · rw [enterTurns, plain, if_neg Bool.false_ne_true]
      rfl
  | joinConditions kind table => cases opened
  | joinOperand kind table column operator => exact absurd rfl (single kind table column operator)
  | condition clause logic nested =>
    refine ⟨draft.scope, ?_, rfl, ?_⟩
    · obtain ⟨place, known⟩ := exists_conditionPlace admits
      rw [enter, openCondition, known]
      exact (opens_pushLead _ _ _).trans ((opens_withConditions _ clause).trans (opens_eq _))
    · rw [enterTurns, ite_self]
      exact remembers

/-- What opens no scope is a join or nothing. -/
theorem enter_without_scope {opening : Opening}
    (refused : ¬ (draft.admits opening = true ∧ (openedKind? opening).isSome = true)) :
    (draft.enter opening = draft ∧ draft.enterTurns opening = []) ∨ ∃ kind table,
      draft.enter opening = draft.join kind table ∧
        draft.enterTurns opening = draft.editTurns (.join kind table) := by
  have inGroup (isScope : (openedKind? opening).isSome = true) (admits : Bool)
      (same : draft.admits opening = !admits) : admits = true :=
    Bool.eq_true_of_not_eq_false fun no => refused ⟨by rw [same, no]; rfl, isScope⟩
  cases opening with
  | table => exact .inl ⟨if_neg fun can => refused ⟨can, rfl⟩, ite_self _⟩
  | union all => exact .inl ⟨if_pos (inGroup rfl _ rfl), ite_self _⟩
  | joinTable kind => exact .inl ⟨if_pos (inGroup rfl _ rfl), if_pos (inGroup rfl _ rfl)⟩
  | joinConditions kind table => exact .inr ⟨kind, table, rfl, editTurns_join kind table |>.symm⟩
  | joinOperand kind table column operator =>
    cases group : draft.inGroup with
    | true => exact .inl ⟨if_pos group, if_pos group⟩
    | false =>
      have cross : kind = .cross := by
        by_contra different
        refine refused ⟨?_, rfl⟩
        rw [admits, group, decide_eq_true different]
        rfl
      subst cross
      exact .inr ⟨.cross, table, enter_cross group table column operator,
        (editTurns_join .cross table).symm⟩
  | condition clause logic nested =>
    refine .inl ⟨?_, ite_self _⟩
    have missing : draft.takesCondition clause = false :=
      Bool.eq_false_iff.mpr fun takes => refused ⟨takes, rfl⟩
    rw [enter, openCondition, conditionPlace?_of_not_takes missing]

end Draft

end SqlDraft
