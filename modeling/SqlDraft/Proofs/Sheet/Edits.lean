/-
**What edits say in a draft.**

An edit changes the outline of the innermost scope, or nothing. The sheet of the changed outline is
what the edit says of the sheet before:

* `Outline.sheet_seated`, `Outline.sheet_projected`: the sheets of changed outlines.
* **`Drawing.edit`**: an edit says in a draft what it says on sheets.
-/

import SqlDraft.Proofs.Sheet.Drawing

namespace SqlDraft

/-! ### Columns -/

theorem Action.selects_deed (action : Action) :
    action.deed.selects = decide (action.command = .select) := by
  cases action with
  | columns distinct row => rfl
  | all distinct => rfl
  | removal which => cases which <;> rfl

theorem Action.deed_added {action : Action} {distinct : Bool} {old added : List Column}
    {columns : List String} (unstarred : action.unstarred = .columns distinct old)
    (each : List.Forall₂ (fun text column => ∃ at_, column = ⟨at_, text, none⟩) columns added) :
    (Action.columns distinct (old ++ added)).deed = action.deed.adding columns := by
  have entries : added.map Column.entry = columns.map fun text => (text, none) := by
    induction each with
    | nil => rfl
    | cons head _ step =>
      obtain ⟨slot, rfl⟩ := head
      rw [List.map_cons, List.map_cons, step]
      rfl
  cases action with
  | columns distinct row =>
    cases unstarred
    show Deed.columns _ ((old ++ added).map Column.entry) = Deed.columns _ _
    rw [List.map_append, entries]
  | all distinct =>
    cases unstarred
    exact congrArg (Deed.columns distinct) entries
  | removal which => cases unstarred

namespace Outline

variable (outline : Outline) (inside : Slot → List Payload)

theorem sheet_projected {fresh slot : Slot} {distinct : Bool} {old added : List Column}
    {columns : List String}
    (unstarred : (outline.projection fresh).part.unstarred = .columns distinct old)
    (each : List.Forall₂ (fun text column => ∃ at_, column = ⟨at_, text, none⟩) columns added) :
    (outline.acting ⟨slot, .columns distinct (old ++ added)⟩ (some .column)).sheet inside =
      { outline.sheet inside with
        command := some (((outline.sheet inside).command.getD (.columns false [])).adding columns)
        target := some .column } := by
  have start : (outline.sheet inside).command.getD (.columns false []) =
      (outline.projection fresh).part.deed := by
    unfold projection sheet
    cases outline.command <;> rfl
  rw [start, ← Action.deed_added unstarred each]
  rfl

theorem sheet_distinct (fresh : Slot) :
    (outline.acting (outline.distinction fresh) outline.target).sheet inside =
      { outline.sheet inside with
        command := some ((outline.sheet inside).command.elim (.all true) Deed.distinctly) } := by
  have deed : (outline.sheet inside).command.elim (.all true) Deed.distinctly =
      (outline.distinction fresh).part.deed := by
    unfold distinction sheet
    cases outline.command with
    | none => rfl
    | some clause =>
      obtain ⟨slot, action⟩ := clause
      cases action <;> rfl
  rw [deed]
  rfl

theorem sheet_grouped (slot : Slot) (columns : List String) :
    (outline.grouped slot (outline.grouping.elim [] Clause.part ++ columns)).sheet inside =
      { outline.sheet inside with
        grouping := some ((outline.sheet inside).grouping.getD [] ++ columns) } := by
  unfold grouped sheet
  cases outline.grouping <;> rfl

theorem sheet_sorted (slot : Slot) (columns : List (String × Option Direction)) :
    (outline.sorted slot (outline.ordering.elim [] Clause.part ++ columns)).sheet inside =
      { outline.sheet inside with
        ordering := some ((outline.sheet inside).ordering.getD [] ++ columns) } := by
  unfold sorted sheet
  cases outline.ordering <;> rfl

theorem sheet_directed (direction : Direction) :
    (outline.directed direction).sheet inside =
      { outline.sheet inside with
        ordering := (outline.sheet inside).ordering.map (directLast direction) } := by
  unfold directed
  cases said : outline.ordering with
  | none => simp only [sheet, said, Option.map_none]
  | some clause =>
    simp only [sheet, said, Option.map_some]
    rfl

end Outline

namespace Drawing

variable (drawing : Drawing)

theorem canProject_eq (inside : Slot → List Payload) :
    (drawing.outline.sheet inside).canProject = drawing.draft.canProject := by
  unfold Sheet.canProject Draft.canProject
  rw [grouped_eq]
  cases plain : drawing.draft.inGroup with
  | true => rfl
  | false =>
    have held : drawing.draft.scope.command = drawing.outline.command.map Clause.slot :=
      drawing.sketched.heldScope.command
    rw [held]
    show (!false && (drawing.outline.command.map _).all Deed.selects) = _
    cases said : drawing.outline.command with
    | none => rfl
    | some clause =>
      rw [drawing.sketched.scopeCommand_eq plain said]
      exact clause.part.selects_deed

theorem select (columns : List String) :
    drawing.Reaches (drawing.draft.select columns) (·.select columns) := by
  by_cases refused : columns = [] ∨ drawing.draft.canProject = false
  · refine drawing.reaches_self (if_pos refused) fun inside => if_pos ?_
    rwa [canProject_eq]
  · obtain ⟨asked, can⟩ := not_or.mp refused
    obtain ⟨slot, distinct, old, added, unstarred, each, sketched⟩ :=
      drawing.sketched.select asked (Bool.not_eq_false _ ▸ can)
    refine drawing.reaches_update sketched (drawing.draft.frames_select columns) fun inside => ?_
    rw [← canProject_eq drawing inside] at refused
    exact (drawing.outline.sheet_projected inside unstarred each).trans (if_neg refused).symm

theorem distinct : drawing.Reaches drawing.draft.distinct Sheet.distinct := by
  refine drawing.reaches_unless_group (fun group => if_pos group) (fun plain => ?_) fun _ => rfl
  exact drawing.reaches_update (drawing.sketched.distinct plain) (Draft.frames_distinct _)
    fun inside => drawing.outline.sheet_distinct inside _

/-- Columns of a clause that is a list. -/
theorem reaches_listed {keyword : Keyword} {columns : List String} {outline : Outline}
    {said : Sheet → Sheet} (listed : columns ≠ [] → drawing.draft.inGroup = false →
      (drawing.draft.listColumns keyword columns).Sketched drawing.scopes
        (Function.update drawing.outlines drawing.root outline))
    (sheet : ∀ inside, outline.sheet inside = said (drawing.outline.sheet inside)) :
    drawing.Reaches (drawing.draft.listColumns keyword columns)
      fun sheet => if columns = [] ∨ sheet.grouped then sheet else said sheet := by
  by_cases refused : columns = [] ∨ drawing.draft.inGroup = true
  · refine drawing.reaches_self (if_pos refused) fun inside => if_pos ?_
    rwa [grouped_eq]
  · obtain ⟨asked, plain⟩ := not_or.mp refused
    refine drawing.reaches_update (listed asked (Bool.not_eq_true _ ▸ plain))
      (drawing.draft.frames_listColumns keyword columns) fun inside => ?_
    rw [← grouped_eq drawing inside] at refused
    exact (sheet inside).trans (if_neg refused).symm

theorem groupBy (columns : List String) :
    drawing.Reaches (drawing.draft.groupBy columns) (·.groupBy columns) :=
  drawing.reaches_listed (fun asked plain => drawing.sketched.groupBy plain asked)
    fun inside => drawing.outline.sheet_grouped inside _ columns

theorem orderBy (columns : List String) :
    drawing.Reaches (drawing.draft.orderBy columns) (·.orderBy columns) :=
  drawing.reaches_listed (fun asked plain => drawing.sketched.orderBy plain asked)
    fun inside => drawing.outline.sheet_sorted inside _ _

theorem direct (direction : Direction) :
    drawing.Reaches (drawing.draft.direct direction) (·.direct direction) := by
  refine drawing.reaches_unless_group (fun group => if_pos group) (fun plain => ?_) fun _ => rfl
  exact drawing.reaches_update (drawing.sketched.direct plain direction)
    (drawing.draft.frames_direct direction) fun inside =>
      drawing.outline.sheet_directed inside direction

end Drawing

/-! ### Tables, joins, names and removals -/

/-- What is changed in the last of some things is changed in the last of what they are read as. -/
theorem map_modifyLast {Thing Entry : Type} {change : Thing → Thing} {changed : Entry → Entry}
    {entry : Thing → Entry} (same : ∀ thing, entry (change thing) = changed (entry thing))
    (things : List Thing) :
    (things.modifyLast change).map entry = (things.map entry).modifyLast changed := by
  rcases List.eq_nil_or_concat' things with rfl | ⟨front, last, rfl⟩
  · rfl
  · rw [List.modifyLast_concat, List.map_append, List.map_append, List.map_singleton,
      List.map_singleton, List.modifyLast_concat, same]

theorem Action.deed_nameLast (name : String) (action : Action) :
    (action.nameLast name).deed = action.deed.nameLast name := by
  cases action with
  | columns distinct row =>
    have named (column : Column) : (column.called name).entry = (column.entry.1, some name) := rfl
    exact congrArg (Deed.columns distinct) (map_modifyLast named row)
  | all distinct => rfl
  | removal which => rfl

namespace Outline

variable (outline : Outline) (inside : Slot → List Payload)

theorem sheet_tabled (slot : Slot) (source : Source) (target : Option Target) :
    ((outline.tabled slot source).aimed target).sheet inside =
      { outline.sheet inside with table := some ⟨source.body inside, none⟩, target } := rfl

theorem sheet_joined (slot : Slot) (kind : JoinKind) (source : Source) (target : Option Target) :
    ((outline.joined slot kind source).aimed target).sheet inside =
      { (outline.sheet inside).linked kind (source.body inside) with target } := by
  have joins : (outline.joins ++ [(⟨slot, { kind, source }⟩ : Clause Join)]).map
      (fun clause : Clause Join => clause.part.link inside) =
        (outline.sheet inside).joins ++ [{ kind, body := source.body inside }] := List.map_append
  exact congrArg (fun joins => { outline.sheet inside with
    joins, joining := decide (kind ≠ JoinKind.cross), target }) joins

theorem sheet_naming (name : String) (target : Target) :
    (outline.naming name target).sheet inside = (outline.sheet inside).naming name target := by
  cases target with
  | column =>
    have command : (outline.command.map (Clause.revise (Action.nameLast name))).map
        (fun clause => clause.part.deed) =
          (outline.sheet inside).command.map (Deed.nameLast name) := by
      rw [sheet, Option.map_map, Option.map_map]
      exact congrArg (outline.command.map ·)
        (funext fun clause => clause.part.deed_nameLast name)
    exact congrArg (fun command => { outline.sheet inside with command }) command
  | table =>
    have table : (outline.table.map (Clause.revise (Table.called name))).map
        (fun clause => clause.part.supply inside) =
          (outline.sheet inside).table.map (Supply.called name) := by
      rw [sheet, Option.map_map, Option.map_map]
      rfl
    exact congrArg (fun table => { outline.sheet inside with table }) table
  | join =>
    have joins : (outline.joins.modifyLast (Clause.revise (Join.called name))).map
        (fun clause => clause.part.link inside) =
          (outline.sheet inside).joins.modifyLast (Link.called name) :=
      map_modifyLast (fun clause => show (clause.part.called name).link inside =
        (clause.part.link inside).called name from rfl) outline.joins
    exact congrArg (fun joins => { outline.sheet inside with joins }) joins

theorem sheet_named (name : String) :
    (outline.named name).sheet inside = (outline.sheet inside).giveName name := by
  have target : (outline.sheet inside).target = outline.target := rfl
  unfold named Sheet.giveName
  rw [target]
  cases outline.target with
  | none => rfl
  | some target => exact outline.sheet_naming inside name target

end Outline

namespace Drawing

variable (drawing : Drawing)

theorem canTakeTable_eq (inside : Slot → List Payload) :
    (drawing.outline.sheet inside).canTakeTable = drawing.draft.canTakeTable := by
  have held : drawing.draft.scope.table = drawing.outline.table.map Clause.slot :=
    drawing.sketched.heldScope.table
  unfold Sheet.canTakeTable Draft.canTakeTable
  rw [grouped_eq, held, Option.isNone_map]
  exact congrArg _ Option.isNone_map

theorem table (name : String) : drawing.Reaches (drawing.draft.table name) (·.fromTable name) := by
  by_cases can : drawing.draft.canTakeTable = true
  · obtain ⟨leaf, sketched⟩ := drawing.sketched.table can name
    refine drawing.reaches_update sketched (drawing.draft.frames_table name) fun inside => ?_
    rw [← canTakeTable_eq drawing inside] at can
    exact (drawing.outline.sheet_tabled inside _ _ _).trans (if_pos can).symm
  · refine drawing.reaches_self (if_neg can) fun inside => if_neg ?_
    rwa [canTakeTable_eq]

theorem join (kind : JoinKind) (name : String) :
    drawing.Reaches (drawing.draft.join kind name) (·.join kind name) := by
  refine drawing.reaches_unless_group (fun group => if_pos group) (fun plain => ?_) fun _ => rfl
  obtain ⟨leaf, sketched⟩ := drawing.sketched.join plain kind name
  exact drawing.reaches_update sketched (drawing.draft.frames_join kind name) fun inside =>
    drawing.outline.sheet_joined inside _ kind _ _

theorem giveName (name : String) :
    drawing.Reaches (drawing.draft.giveName name) (·.giveName name) :=
  drawing.reaches_update (drawing.sketched.giveName name) (drawing.draft.frames_giveName name)
    fun inside => drawing.outline.sheet_named inside name

theorem remove (removal : Removal) :
    drawing.Reaches (drawing.draft.remove removal) (·.remove removal) := by
  refine drawing.reaches_unless_group (fun group => if_pos group) (fun plain => ?_) fun _ => rfl
  obtain ⟨slot, sketched⟩ := drawing.sketched.remove plain removal
  exact drawing.reaches_update sketched (drawing.draft.frames_remove removal) fun _ => rfl

end Drawing

/-! ### Conditions and limits -/

namespace Outline

variable (outline : Outline) (inside : Slot → List Payload)

theorem seat?_sheet (clause : FilterClause) :
    (outline.sheet inside).seat? clause = outline.seat? clause := by
  have grouped : ((outline.sheet inside).grouped = true) = (outline.kind = .group) :=
    propext decide_eq_true_iff
  unfold Sheet.seat? seat?
  simp only [grouped]
  rfl

/-- **One more condition on a sheet.** -/
theorem sheet_seated (place : Slot) (item : Item) (seat : Seat) :
    (outline.seated place (outline.items seat ++ [item]) seat).sheet inside =
      (outline.sheet inside).adding (item.remark inside) seat := by
  have row (old : Option (Clause (List Item))) :
      (old.elim [] Clause.part ++ [item]).map (Item.remark inside) =
        (old.map fun clause => clause.part.map (Item.remark inside)).getD [] ++
          [item.remark inside] := by
    rw [List.map_append]
    cases old <;> rfl
  cases seat with
  | members =>
    have members : (outline.members ++ [item]).map (Item.remark inside) =
        (outline.sheet inside).members ++ [item.remark inside] := List.map_append
    exact congrArg (fun members => { outline.sheet inside with members }) members
  | filters =>
    exact congrArg (fun filters => { outline.sheet inside with filters := some filters })
      (row outline.filters)
  | havings =>
    exact congrArg (fun havings => { outline.sheet inside with havings := some havings })
      (row outline.havings)
  | lastJoin =>
    have joins : (outline.joins.modifyLast (Clause.revise
        (.joinedOn place (outline.items .lastJoin ++ [item])))).map
          (fun clause => clause.part.link inside) =
        (outline.joins.map fun clause => clause.part.link inside).modifyLast
          (Link.adding (item.remark inside)) := by
      rw [items]
      rcases List.eq_nil_or_concat' outline.joins with none_ | ⟨front, last, some_⟩
      · rw [none_]
        rfl
      · rw [some_, List.getLast?_concat, List.modifyLast_concat, List.map_append, List.map_append,
          List.map_singleton, List.map_singleton, List.modifyLast_concat]
        exact congrArg (fun conditions => _ ++ [{ last.part.link inside with
          conditions := some conditions }]) (row last.part.conditions)
    exact congrArg (fun joins => { outline.sheet inside with joins }) joins

theorem sheet_paged (fresh : Slot) (change : Page → Page) :
    (outline.paged ((outline.pageClause fresh).revise change)).sheet inside =
      { outline.sheet inside with page := some (change ((outline.sheet inside).page.getD {})) } := by
  unfold paged pageClause sheet
  cases outline.page <;> rfl

end Outline

namespace Drawing

variable (drawing : Drawing)

theorem restrict (clause : FilterClause) (logic : Connective) (condition : Condition) :
    drawing.Reaches (drawing.draft.restrict clause logic condition)
      (·.restrict clause ⟨logic, [.literal condition.sql]⟩) := by
  cases goes : drawing.outline.seat? clause with
  | none =>
    refine drawing.reaches_self ?_ fun inside => ?_
    · unfold Draft.restrict
      rw [drawing.sketched.conditionPlace?_eq_none goes]
    · rw [Sheet.restrict, Outline.seat?_sheet, goes]
  | some seat =>
    obtain ⟨place, mark, sketched⟩ := drawing.sketched.restrict goes logic condition
    refine drawing.reaches_update sketched (drawing.draft.frames_restrict _ _ _) fun inside => ?_
    rw [Sheet.restrict, Outline.seat?_sheet, goes]
    exact drawing.outline.sheet_seated inside place ⟨mark, logic, .leaf condition.sql⟩ seat

theorem joinOn (kind : JoinKind) (name : String) (condition : Condition) :
    drawing.Reaches (drawing.draft.joinOn kind name condition) (·.joinOn kind name condition) := by
  refine drawing.reaches_unless_group (fun group => if_pos group) (fun plain => ?_) fun _ => rfl
  have joined : drawing.draft.joinOn kind name condition =
      (drawing.draft.join kind name).restrict .joinOn .and condition := by
    rw [Draft.joinOn, plain, if_neg Bool.false_ne_true]
  rw [joined]
  exact (drawing.join kind name).trans fun between same =>
    same ▸ between.restrict .joinOn .and condition

theorem limit (count : UInt64) : drawing.Reaches (drawing.draft.limit count) (·.limit count) := by
  refine drawing.reaches_unless_group (fun group => if_pos group) (fun plain => ?_) fun _ => rfl
  exact drawing.reaches_update (drawing.sketched.limit plain count)
    (drawing.draft.frames_limit count) fun inside =>
      drawing.outline.sheet_paged inside _ (Page.limited count)

theorem offset (count : UInt64) :
    drawing.Reaches (drawing.draft.offset count) (·.offset count) := by
  refine drawing.reaches_unless_group (fun group => if_pos group) (fun plain => ?_) fun _ => rfl
  exact drawing.reaches_update (drawing.sketched.offset plain count)
    (drawing.draft.frames_offset count) fun inside =>
      drawing.outline.sheet_paged inside _ (Page.skipping count)

/-! ### All edits -/

/-- **An edit says in a draft what it says on sheets.** -/
theorem edit (change : Edit) :
    drawing.Reaches (drawing.draft.apply change) (·.edited change) := by
  cases change with
  | select columns => exact drawing.select columns
  | distinct => exact drawing.distinct
  | table name => exact drawing.table name
  | remove removal => exact drawing.remove removal
  | giveName name => exact drawing.giveName name
  | join kind table => exact drawing.join kind table
  | joinOn kind table condition => exact drawing.joinOn kind table condition
  | restrict clause logic condition => exact drawing.restrict clause logic condition
  | groupBy columns => exact drawing.groupBy columns
  | orderBy columns => exact drawing.orderBy columns
  | orderDown columns =>
    exact (drawing.orderBy columns).trans fun between same => same ▸ between.direct .desc
  | direct direction => exact drawing.direct direction
  | limit count => exact drawing.limit count
  | offset count => exact drawing.offset count
  | showPage perPage page =>
    exact (drawing.limit perPage).trans fun between same =>
      same ▸ between.offset (Paging.skipped perPage page)

end Drawing

end SqlDraft
