/-
**What a sheet tells of the edits in its scope.**

The columns that a scope lists are those of the edits that were made in it, in their order, its limit
and its offset are those that were set last, and its command follows from the edits as well:

* `Edit.selected`, `Edit.grouped`, `Edit.sorted`: the columns that an edit adds to a list.
* `Edit.limit?`, `Edit.offset?`: the numbers that an edit sets.
* `Command.ofEdits`: what a statement does after some edits.
* `Sheet.Tells`: the lists, the limit clause and the command of a sheet are what the edits say.
* **`Sheet.Tells.edited`**: they are so after one more edit.
-/

import SqlDraft.Proofs.Sheet.Openings
import SqlDraft.Proofs.Sheet.Passing

namespace SqlDraft

/-! ### Reading edits -/

namespace Edit

/-- The columns that an edit adds to a projection. -/
def selected : Edit → List String
  | select columns => columns
  | _ => []

/-- The columns that an edit adds to a grouping. -/
def grouped : Edit → List String
  | groupBy columns => columns
  | _ => []

/-- The columns that an edit adds to an ordering. -/
def sorted : Edit → List String
  | orderBy columns | orderDown columns => columns
  | _ => []

/-- The limit that an edit sets. -/
def limit? : Edit → Option Nat
  | limit count => some count.toNat
  | showPage perPage _ => some perPage.toNat
  | _ => none

/-- The offset that an edit sets. Pages are counted from one, page zero is the first one too, and an
offset that is too great to be written is the greatest one. -/
def offset? : Edit → Option Nat
  | offset count => some count.toNat
  | showPage perPage page => some (min ((max page.toNat 1 - 1) * perPage.toNat) (2 ^ 64 - 1))
  | _ => none

/-- What the last of some edits set that set anything. -/
def last? (read : Edit → Option Nat) (edits : List Edit) : Option Nat :=
  (edits.filterMap read).getLast?

theorem last?_concat (read : Edit → Option Nat) (edits : List Edit) (change : Edit) :
    last? read (edits ++ [change]) = (read change).or (last? read edits) := by
  unfold last?
  rw [List.filterMap_append, List.getLast?_append]
  cases said : read change <;> simp [said]

theorem flatMap_concat (read : Edit → List String) (edits : List Edit) (change : Edit) :
    (edits ++ [change]).flatMap read = edits.flatMap read ++ read change := by
  rw [List.flatMap_append, List.flatMap_singleton]

end Edit

/-- What a statement does after an edit. The first columns make it a query, and nothing but another
removal changes what a removal does. -/
def Command.revised (now : Command) : Edit → Command
  | .select columns => if columns = [] ∨ now ≠ .none then now else .select
  | .distinct => if now = .none then .select else now
  | .remove which => .ofKeyword (some which.keyword)
  | _ => now

/-- What a statement does after some edits. -/
def Command.ofEdits (edits : List Edit) : Command := edits.foldl Command.revised .none

theorem Command.ofEdits_concat (edits : List Edit) (change : Edit) :
    ofEdits (edits ++ [change]) = (ofEdits edits).revised change := List.foldl_concat _ _ _ _

/-- A statement empties a table after the edit that says so, and goes on to unless it deletes. -/
theorem Command.revised_eq_truncate_iff (now : Command) (change : Edit) :
    now.revised change = .truncate ↔
      change = .remove .truncate ∨ now = .truncate ∧ change ≠ .remove .delete := by
  cases change with
  | select columns =>
    show (if columns = [] ∨ now ≠ none then now else select) = truncate ↔ _
    split
    · simp
    · next begins => simp [not_not.mp (not_or.mp begins).2]
  | distinct =>
    show (if now = none then select else now) = truncate ↔ _
    split
    · next begins => simp [begins]
    · simp
  | remove which => cases which <;> simp [revised, ofKeyword, Removal.keyword]
  | _ => simp [revised]

/-! ### What a command tells -/

/-- A command tells of the columns that were asked for. All columns are returned where none was asked
for and distinct rows were, or where the scope is closed. -/
def Deed.Tells (closed : Bool) (edits : List Edit) : Option Deed → Prop
  | none => edits.flatMap Edit.selected = []
  | some (.columns _ row) => row ≠ [] ∧ row.map Prod.fst = edits.flatMap Edit.selected
  | some (.all distinct) =>
    edits.flatMap Edit.selected = [] ∧ if distinct then .distinct ∈ edits else closed = true
  | some (.removal which) => .remove which ∈ edits

/-- An edit without columns leaves a command as it is. -/
theorem Deed.Tells.passed {closed : Bool} {edits : List Edit} {command : Option Deed}
    (tells : Deed.Tells closed edits command) {change : Edit} (silent : change.selected = []) :
    Deed.Tells closed (edits ++ [change]) command := by
  have same : (edits ++ [change]).flatMap Edit.selected = edits.flatMap Edit.selected := by
    rw [Edit.flatMap_concat, silent, List.append_nil]
  match command, tells with
  | none, tells => exact same.trans tells
  | some (.columns _ _), tells => exact ⟨tells.1, tells.2.trans same.symm⟩
  | some (.all true), tells => exact ⟨same.trans tells.1, List.mem_append_left _ tells.2⟩
  | some (.all false), tells => exact ⟨same.trans tells.1, tells.2⟩
  | some (.removal _), tells => exact List.mem_append_left _ tells

/-- The lists and the limit clause of a sheet are what the edits in its scope say. -/
structure Sheet.TellsLists (sheet : Sheet) (closed : Bool) (edits : List Edit) : Prop where
  command : Deed.Tells closed edits sheet.command
  grouping : sheet.grouping = extended none (edits.flatMap Edit.grouped)
  ordering : sheet.ordering.map (List.map Prod.fst) = extended none (edits.flatMap Edit.sorted)
  limit : (sheet.page.bind Page.limit).map UInt64.toNat = Edit.last? Edit.limit? edits
  offset : (sheet.page.bind Page.offset).map UInt64.toNat = Edit.last? Edit.offset? edits
  paged : ∀ page ∈ sheet.page, page.limit.isSome ∨ page.offset.isSome

/-- What the lists and the limit clause of a sheet hold. -/
def Sheet.lists (sheet : Sheet) : Option Deed × Option (List String) ×
    Option (List (String × Option Direction)) × Option Page :=
  (sheet.command, sheet.grouping, sheet.ordering, sheet.page)

namespace Sheet

variable {sheet other : Sheet} {closed : Bool} {edits : List Edit}

theorem TellsLists.congr (tells : sheet.TellsLists closed edits)
    (same : other.lists = sheet.lists) : other.TellsLists closed edits := by
  obtain ⟨command, rest⟩ := Prod.mk.inj same
  obtain ⟨grouping, rest⟩ := Prod.mk.inj rest
  obtain ⟨ordering, page⟩ := Prod.mk.inj rest
  constructor
  · rw [command]
    exact tells.command
  · rw [grouping]
    exact tells.grouping
  · rw [ordering]
    exact tells.ordering
  · rw [page]
    exact tells.limit
  · rw [page]
    exact tells.offset
  · rw [page]
    exact tells.paged

theorem tellsLists_silent (kind : ScopeKind) : (silent kind).TellsLists false [] :=
  ⟨rfl, rfl, rfl, rfl, rfl, nofun⟩

/-! ### What leaves the lists alone -/

theorem lists_adding (sheet : Sheet) (remark : Remark) (seat : Seat) :
    (sheet.adding remark seat).lists = sheet.lists := by
  cases seat <;> rfl

theorem lists_restrict (sheet : Sheet) (clause : FilterClause) (remark : Remark) :
    (sheet.restrict clause remark).lists = sheet.lists := by
  unfold restrict
  split
  · rfl
  · exact sheet.lists_adding remark _

theorem lists_fromTable (sheet : Sheet) (name : String) :
    (sheet.fromTable name).lists = sheet.lists := by
  unfold fromTable
  split <;> rfl

theorem lists_join (sheet : Sheet) (kind : JoinKind) (table : String) :
    (sheet.join kind table).lists = sheet.lists := by
  unfold join
  split <;> rfl

theorem lists_joinOn (sheet : Sheet) (kind : JoinKind) (table : String) (condition : Condition) :
    (sheet.joinOn kind table condition).lists = sheet.lists := by
  unfold joinOn
  split
  · rfl
  · rw [lists_restrict, lists_join]

theorem lists_nested (sheet : Sheet) (clause : FilterClause) (logic : Connective)
    (content : NestedCondition) (body : List Payload) :
    (sheet.nested clause logic content body).lists = sheet.lists := by
  unfold nested
  split
  · rfl
  · exact sheet.lists_adding _ _

/-- **What is opened in a scope leaves its lists alone.** -/
theorem lists_received (sheet : Sheet) (body : List Payload) (opening : Opening) :
    (sheet.received body opening).lists = sheet.lists := by
  cases opening with
  | table | union all | joinTable kind =>
    rw [received]
    split <;> rfl
  | joinConditions kind table => exact sheet.lists_join kind table
  | joinOperand kind table column operator =>
    rw [received]
    split
    · rfl
    · rw [lists_nested, lists_join]
  | condition clause logic content => exact sheet.lists_nested clause logic content body

/-! ### One more edit -/

section Passed

variable {change : Edit} (tells : sheet.TellsLists closed edits)
include tells

theorem TellsLists.grouping_passed (silent : change.grouped = []) :
    sheet.grouping = extended none ((edits ++ [change]).flatMap Edit.grouped) := by
  rw [Edit.flatMap_concat, silent, List.append_nil]
  exact tells.grouping

theorem TellsLists.ordering_passed (silent : change.sorted = []) :
    sheet.ordering.map (List.map Prod.fst) =
      extended none ((edits ++ [change]).flatMap Edit.sorted) := by
  rw [Edit.flatMap_concat, silent, List.append_nil]
  exact tells.ordering

theorem TellsLists.limit_passed (silent : change.limit? = none) :
    (sheet.page.bind Page.limit).map UInt64.toNat = Edit.last? Edit.limit? (edits ++ [change]) := by
  rw [Edit.last?_concat, silent, Option.none_or]
  exact tells.limit

theorem TellsLists.offset_passed (silent : change.offset? = none) :
    (sheet.page.bind Page.offset).map UInt64.toNat =
      Edit.last? Edit.offset? (edits ++ [change]) := by
  rw [Edit.last?_concat, silent, Option.none_or]
  exact tells.offset

/-- An edit that leaves the lists alone and adds nothing to them. -/
theorem TellsLists.passed (same : other.lists = sheet.lists) (selected : change.selected = [])
    (grouped : change.grouped = []) (sorted : change.sorted = []) (limit : change.limit? = none)
    (offset : change.offset? = none) : other.TellsLists closed (edits ++ [change]) :=
  have here := tells.congr same
  ⟨here.command.passed selected, here.grouping_passed grouped, here.ordering_passed sorted,
    here.limit_passed limit, here.offset_passed offset, here.paged⟩

end Passed

/-! ### Commands -/

/-- The texts of columns that have no mark yet. -/
theorem map_fst_bare {Mark : Type} (columns : List String) :
    (columns.map fun text => ((text, none) : String × Option Mark)).map Prod.fst = columns := by
  simp [Function.comp_def]

/-- Columns are added to a command that may take them. -/
theorem tells_adding {command : Option Deed} (tells : Deed.Tells closed edits command)
    (selects : command.all Deed.selects = true) {columns : List String} (given : columns ≠ []) :
    Deed.Tells closed (edits ++ [.select columns])
      (some ((command.getD (.columns false [])).adding columns)) := by
  have all : (edits ++ [Edit.select columns]).flatMap Edit.selected =
      edits.flatMap Edit.selected ++ columns := Edit.flatMap_concat _ _ _
  have some_ : (columns.map fun text => ((text, none) : String × Option String)) ≠ [] :=
    mt List.map_eq_nil_iff.mp given
  match command, tells, selects with
  | none, tells, _ =>
    refine ⟨some_, ?_⟩
    rw [all, show edits.flatMap Edit.selected = [] from tells]
    exact map_fst_bare columns
  | some (.columns _ row), tells, _ =>
    refine ⟨List.append_ne_nil_of_left_ne_nil tells.1 _, ?_⟩
    rw [all, List.map_append, tells.2, map_fst_bare]
  | some (.all _), tells, _ =>
    refine ⟨some_, ?_⟩
    rw [all, tells.1]
    exact map_fst_bare columns

theorem TellsLists.select (tells : sheet.TellsLists closed edits) (clausal : sheet.grouped = false)
    (columns : List String) :
    (sheet.select columns).TellsLists closed (edits ++ [.select columns]) := by
  unfold Sheet.select
  split
  · next refused =>
    refine ⟨?_, tells.grouping_passed rfl, tells.ordering_passed rfl, tells.limit_passed rfl,
      tells.offset_passed rfl, tells.paged⟩
    rcases refused with rfl | refused
    · exact tells.command.passed rfl
    · -- A removal takes no columns.
      have removal : sheet.command.all Deed.selects = false := by
        rw [canProject, clausal] at refused
        exact refused
      have told := tells.command
      cases said : sheet.command with
      | none =>
        rw [said] at removal
        exact absurd removal (by decide)
      | some deed =>
        rw [said] at removal told
        cases deed with
        | columns distinct row => exact Bool.noConfusion removal
        | all distinct => exact Bool.noConfusion removal
        | removal which => exact List.mem_append_left _ told
  · next can =>
    obtain ⟨given, can⟩ := not_or.mp can
    have selects : sheet.command.all Deed.selects = true := by
      rw [canProject, clausal, Bool.not_eq_false] at can
      exact can
    exact ⟨tells_adding tells.command selects given, tells.grouping_passed rfl,
      tells.ordering_passed rfl, tells.limit_passed rfl, tells.offset_passed rfl, tells.paged⟩

theorem TellsLists.distinct (tells : sheet.TellsLists closed edits) :
    sheet.distinct.TellsLists closed (edits ++ [.distinct]) := by
  unfold Sheet.distinct
  split
  · exact tells.passed rfl rfl rfl rfl rfl rfl
  · refine ⟨?_, tells.grouping_passed rfl, tells.ordering_passed rfl, tells.limit_passed rfl,
      tells.offset_passed rfl, tells.paged⟩
    have told := @Deed.Tells.passed _ _ _ tells.command .distinct rfl
    have said : Edit.distinct ∈ edits ++ [.distinct] := List.mem_append_right _ (.head _)
    match sheet.command, told with
    | none, told => exact ⟨told, said⟩
    | some (.columns _ _), told => exact told
    | some (.all _), told => exact ⟨told.1, said⟩
    | some (.removal _), told => exact told

theorem TellsLists.remove (tells : sheet.TellsLists closed edits) (clausal : sheet.grouped = false)
    (removal : Removal) :
    (sheet.remove removal).TellsLists closed (edits ++ [.remove removal]) := by
  unfold Sheet.remove
  rw [ite_grouped clausal]
  exact ⟨List.mem_append_right _ (.head _), tells.grouping_passed rfl, tells.ordering_passed rfl,
    tells.limit_passed rfl, tells.offset_passed rfl, tells.paged⟩

/-- A name leaves the columns as they are. -/
theorem tells_nameLast {command : Option Deed} (tells : Deed.Tells closed edits command)
    (name : String) : Deed.Tells closed edits (command.map (Deed.nameLast name)) := by
  match command, tells with
  | none, tells => exact tells
  | some (.columns _ row), tells =>
    obtain ⟨filled, told⟩ := tells
    have texts : (row.modifyLast fun column => (column.1, some name)).map Prod.fst =
        row.map Prod.fst := by
      rcases List.eq_nil_or_concat' row with rfl | ⟨front, last, rfl⟩
      · rfl
      · rw [List.modifyLast_concat, List.map_append, List.map_append]
        rfl
    refine ⟨fun none => filled ?_, texts.trans told⟩
    rw [none] at texts
    exact List.map_eq_nil_iff.mp texts.symm
  | some (.all _), tells => exact tells
  | some (.removal _), tells => exact tells

theorem TellsLists.giveName (tells : sheet.TellsLists closed edits) (name : String) :
    (sheet.giveName name).TellsLists closed (edits ++ [.giveName name]) := by
  unfold Sheet.giveName
  split
  · exact tells.passed rfl rfl rfl rfl rfl rfl
  · next target _ =>
    cases target with
    | column =>
      exact ⟨tells_nameLast (tells.command.passed rfl) name, tells.grouping_passed rfl,
        tells.ordering_passed rfl, tells.limit_passed rfl, tells.offset_passed rfl, tells.paged⟩
    | table | join => exact tells.passed rfl rfl rfl rfl rfl rfl

/-! ### Grouping and ordering -/

theorem extended_extended {Entry : Type} (row : Option (List Entry)) (front back : List Entry) :
    extended (extended row front) back = extended row (front ++ back) := by
  cases front with
  | nil => rfl
  | cons first rest =>
    cases back with
    | nil => rw [List.append_nil]; rfl
    | cons next more => simp [extended]

theorem map_extended {Entry Text : Type} (read : Entry → Text) (row : Option (List Entry))
    (more : List Entry) : (extended row more).map (List.map read) =
      extended (row.map (List.map read)) (more.map read) := by
  cases more with
  | nil => rfl
  | cons first rest => cases row <;> simp [extended]

theorem groupBy_eq (clausal : sheet.grouped = false) (columns : List String) :
    sheet.groupBy columns = { sheet with grouping := extended sheet.grouping columns } := by
  cases columns with
  | nil => exact if_pos (.inl rfl)
  | cons first rest =>
    exact if_neg (not_or.mpr ⟨List.cons_ne_nil _ _, Bool.eq_false_iff.mp clausal⟩)

theorem TellsLists.groupBy (tells : sheet.TellsLists closed edits) (clausal : sheet.grouped = false)
    (columns : List String) :
    (sheet.groupBy columns).TellsLists closed (edits ++ [.groupBy columns]) := by
  rw [groupBy_eq clausal]
  refine ⟨tells.command.passed rfl, ?_, tells.ordering_passed rfl, tells.limit_passed rfl,
    tells.offset_passed rfl, tells.paged⟩
  rw [Edit.flatMap_concat, ← extended_extended, ← tells.grouping]
  rfl

theorem map_fst_directLast (direction : Direction) (columns : List (String × Option Direction)) :
    (Outline.directLast direction columns).map Prod.fst = columns.map Prod.fst := by
  unfold Outline.directLast
  rcases List.eq_nil_or_concat' columns with rfl | ⟨front, last, rfl⟩
  · rfl
  · simp

/-- What the columns to sort by are when some are added and the last one is directed. -/
theorem TellsLists.ordering_concat (tells : sheet.TellsLists closed edits) {change : Edit}
    {columns : List String} (sorted : change.sorted = columns) :
    (extended sheet.ordering (columns.map fun text => (text, none))).map (List.map Prod.fst) =
      extended none ((edits ++ [change]).flatMap Edit.sorted) := by
  rw [Edit.flatMap_concat, sorted, ← extended_extended, ← tells.ordering, map_extended,
    map_fst_bare]

theorem TellsLists.orderBy (tells : sheet.TellsLists closed edits) (clausal : sheet.grouped = false)
    (columns : List String) :
    (sheet.orderBy columns).TellsLists closed (edits ++ [.orderBy columns]) := by
  rw [orderBy_eq_settle clausal]
  exact ⟨tells.command.passed rfl, tells.grouping_passed rfl, tells.ordering_concat rfl,
    tells.limit_passed rfl, tells.offset_passed rfl, tells.paged⟩

theorem map_fst_directed (direction : Direction)
    (ordering : Option (List (String × Option Direction))) :
    (ordering.map (Outline.directLast direction)).map (List.map Prod.fst) =
      ordering.map (List.map Prod.fst) := by
  rw [Option.map_map]
  exact congrArg (ordering.map ·) (funext (map_fst_directLast direction))

theorem TellsLists.direct (tells : sheet.TellsLists closed edits) (direction : Direction) :
    (sheet.direct direction).TellsLists closed (edits ++ [.direct direction]) := by
  unfold Sheet.direct
  split
  · exact tells.passed rfl rfl rfl rfl rfl rfl
  · exact ⟨tells.command.passed rfl, tells.grouping_passed rfl,
      (map_fst_directed direction _).trans (tells.ordering_passed rfl), tells.limit_passed rfl,
      tells.offset_passed rfl, tells.paged⟩

theorem TellsLists.orderDown (tells : sheet.TellsLists closed edits) (clausal : sheet.grouped = false)
    (columns : List String) :
    ((sheet.orderBy columns).direct .desc).TellsLists closed (edits ++ [.orderDown columns]) := by
  rw [orderBy_eq_settle clausal, Sheet.direct, grouped_settle, ite_grouped clausal]
  exact ⟨tells.command.passed rfl, tells.grouping_passed rfl,
    (map_fst_directed .desc _).trans (tells.ordering_concat rfl), tells.limit_passed rfl,
    tells.offset_passed rfl, tells.paged⟩

/-! ### Limits -/

theorem TellsLists.setLimit (tells : sheet.TellsLists closed edits) (clausal : sheet.grouped = false)
    (count : UInt64) : (sheet.limit count).TellsLists closed (edits ++ [.limit count]) := by
  unfold Sheet.limit
  rw [ite_grouped clausal]
  refine ⟨tells.command.passed rfl, tells.grouping_passed rfl, tells.ordering_passed rfl, ?_, ?_, ?_⟩
  · rw [Edit.last?_concat]
    rfl
  · rw [← tells.offset_passed rfl]
    cases sheet.page <;> rfl
  · rintro _ ⟨⟩
    exact .inl rfl

theorem TellsLists.setOffset (tells : sheet.TellsLists closed edits) (clausal : sheet.grouped = false)
    (count : UInt64) : (sheet.offset count).TellsLists closed (edits ++ [.offset count]) := by
  unfold Sheet.offset
  rw [ite_grouped clausal]
  refine ⟨tells.command.passed rfl, tells.grouping_passed rfl, tells.ordering_passed rfl, ?_, ?_, ?_⟩
  · rw [← tells.limit_passed rfl]
    cases sheet.page <;> rfl
  · rw [Edit.last?_concat]
    rfl
  · rintro _ ⟨⟩
    exact .inr rfl

theorem TellsLists.showPage (tells : sheet.TellsLists closed edits) (clausal : sheet.grouped = false)
    (perPage page : UInt64) : ((sheet.limit perPage).offset (Paging.skipped perPage page)).TellsLists
      closed (edits ++ [.showPage perPage page]) := by
  unfold Sheet.offset Sheet.limit
  rw [ite_grouped clausal, ite_grouped clausal]
  refine ⟨tells.command.passed rfl, tells.grouping_passed rfl, tells.ordering_passed rfl, ?_, ?_, ?_⟩
  · rw [Edit.last?_concat]
    rfl
  · rw [Edit.last?_concat]
    exact congrArg some (Paging.toNat_skipped perPage page)
  · rintro _ ⟨⟩
    exact .inl rfl

/-! ### All edits -/

/-- The lists of a sheet with clauses are what the edits say after one more edit. -/
theorem TellsLists.edited (tells : sheet.TellsLists closed edits) (clausal : sheet.grouped = false)
    (change : Edit) : (sheet.edited change).TellsLists closed (edits ++ [change]) := by
  cases change with
  | select columns => exact tells.select clausal columns
  | distinct => exact tells.distinct
  | table name => exact tells.passed (sheet.lists_fromTable name) rfl rfl rfl rfl rfl
  | remove removal => exact tells.remove clausal removal
  | giveName name => exact tells.giveName name
  | join kind table => exact tells.passed (sheet.lists_join kind table) rfl rfl rfl rfl rfl
  | joinOn kind table condition =>
    exact tells.passed (sheet.lists_joinOn kind table condition) rfl rfl rfl rfl rfl
  | restrict clause logic condition =>
    exact tells.passed (sheet.lists_restrict clause _) rfl rfl rfl rfl rfl
  | groupBy columns => exact tells.groupBy clausal columns
  | orderBy columns => exact tells.orderBy clausal columns
  | orderDown columns => exact tells.orderDown clausal columns
  | direct direction => exact tells.direct direction
  | limit count => exact tells.setLimit clausal count
  | offset count => exact tells.setOffset clausal count
  | showPage perPage page => exact tells.showPage clausal perPage page

/-- A closed scope returns all columns if none was asked for, and its lists stay. -/
theorem TellsLists.completed (tells : sheet.TellsLists false edits) :
    sheet.completed.TellsLists true edits := by
  have command : Deed.Tells true edits sheet.command := by
    have told := tells.command
    match sheet.command, told with
    | none, told => exact told
    | some (.columns _ _), told => exact told
    | some (.all true), told => exact told
    | some (.all false), told => exact absurd told.2 Bool.false_ne_true
    | some (.removal _), told => exact told
  unfold Sheet.completed
  split
  · next lacks =>
    refine ⟨⟨?_, rfl⟩, tells.grouping, tells.ordering, tells.limit, tells.offset, tells.paged⟩
    have told := tells.command
    rw [Option.isNone_iff_eq_none.mp lacks.2.1] at told
    exact told
  · exact ⟨command, tells.grouping, tells.ordering, tells.limit, tells.offset, tells.paged⟩

/-! ### What a statement does -/

/-- What a scope does, as far as it was said. -/
def acts (sheet : Sheet) : Command := .ofKeyword (sheet.command.map Deed.keyword)

theorem acts_congr (same : other.command = sheet.command) : other.acts = sheet.acts :=
  congrArg (fun command : Option Deed => Command.ofKeyword (command.map Deed.keyword)) same

theorem acts_eq_of_lists (same : other.lists = sheet.lists) : other.acts = sheet.acts :=
  acts_congr (congrArg Prod.fst same)

theorem acts_select (clausal : sheet.grouped = false) (columns : List String) :
    (sheet.select columns).acts = sheet.acts.revised (.select columns) := by
  show (if columns = [] ∨ sheet.canProject = false then sheet else _).acts =
    if columns = [] ∨ sheet.acts ≠ .none then sheet.acts else .select
  by_cases none : columns = []
  · rw [if_pos (Or.inl none), if_pos (Or.inl none)]
  unfold canProject acts
  rw [clausal]
  cases said : sheet.command with
  | none => simp [none, Command.ofKeyword, Deed.adding, Deed.keyword]
  | some deed =>
    cases deed with
    | columns distinct _ | all distinct =>
      cases distinct <;> simp [none, Deed.selects, Deed.adding, Deed.keyword, Command.ofKeyword]
    | removal which =>
      cases which <;> simp [said, Deed.selects, Deed.keyword, Removal.keyword, Command.ofKeyword]

theorem acts_distinct (clausal : sheet.grouped = false) :
    sheet.distinct.acts = sheet.acts.revised .distinct := by
  unfold Sheet.distinct Command.revised acts
  rw [ite_grouped clausal]
  cases sheet.command with
  | none => rfl
  | some deed =>
    cases deed with
    | columns distinct _ | all distinct => cases distinct <;> rfl
    | removal which => cases which <;> rfl

theorem acts_giveName (name : String) : (sheet.giveName name).acts = sheet.acts := by
  unfold Sheet.giveName
  split
  · rfl
  · next target _ =>
    cases target with
    | column =>
      have keyword (deed : Deed) : (deed.nameLast name).keyword = deed.keyword := by
        cases deed <;> rfl
      unfold naming acts
      rw [Option.map_map]
      exact congrArg (Command.ofKeyword <| sheet.command.map ·) (funext keyword)
    | table | join => rfl

/-- **What a scope does after one more edit.** -/
theorem acts_edited (clausal : sheet.grouped = false) (change : Edit) :
    (sheet.edited change).acts = sheet.acts.revised change := by
  have directed (sheet : Sheet) (direction : Direction) :
      (sheet.direct direction).command = sheet.command := by
    unfold Sheet.direct
    split <;> rfl
  have sorted (columns : List String) : (sheet.orderBy columns).command = sheet.command := by
    unfold Sheet.orderBy
    split <;> rfl
  have limited (sheet : Sheet) (count : UInt64) : (sheet.limit count).command = sheet.command := by
    unfold Sheet.limit
    split <;> rfl
  have skipping (sheet : Sheet) (count : UInt64) :
      (sheet.offset count).command = sheet.command := by
    unfold Sheet.offset
    split <;> rfl
  cases change with
  | select columns => exact acts_select clausal columns
  | distinct => exact acts_distinct clausal
  | table name => exact acts_eq_of_lists (sheet.lists_fromTable name)
  | remove removal =>
    show (sheet.remove removal).acts = _
    unfold Sheet.remove
    rw [ite_grouped clausal]
    rfl
  | giveName name => exact acts_giveName name
  | join kind table => exact acts_eq_of_lists (sheet.lists_join kind table)
  | joinOn kind table condition => exact acts_eq_of_lists (sheet.lists_joinOn kind table condition)
  | restrict clause logic condition => exact acts_eq_of_lists (sheet.lists_restrict clause _)
  | groupBy columns =>
    show (sheet.groupBy columns).acts = _
    rw [groupBy_eq clausal]
    rfl
  | orderBy columns => exact acts_congr (sorted columns)
  | orderDown columns => exact acts_congr ((directed _ .desc).trans (sorted columns))
  | direct direction => exact acts_congr (directed sheet direction)
  | limit count => exact acts_congr (limited sheet count)
  | offset count => exact acts_congr (skipping sheet count)
  | showPage perPage page => exact acts_congr ((skipping _ _).trans (limited sheet perPage))

/-! ### All that a sheet tells -/

/-- **A sheet tells of the edits in its scope.** Its command is theirs as long as the scope is open, and
a closed scope empties a table just where its edits do. -/
structure Tells (sheet : Sheet) (closed : Bool) (edits : List Edit) : Prop
    extends sheet.TellsLists closed edits where
  acts : closed = false → sheet.acts = .ofEdits edits
  truncates : sheet.acts = .truncate ↔ Command.ofEdits edits = .truncate

theorem Tells.congr (tells : sheet.Tells closed edits) (same : other.lists = sheet.lists) :
    other.Tells closed edits := by
  have acts := acts_eq_of_lists same
  exact ⟨tells.toTellsLists.congr same, fun isOpen => acts.trans (tells.acts isOpen),
    acts ▸ tells.truncates⟩

theorem tells_silent (kind : ScopeKind) : (silent kind).Tells false [] :=
  ⟨tellsLists_silent kind, fun _ => rfl, Iff.rfl⟩

/-- **A sheet with clauses tells of one more edit.** -/
theorem Tells.edited (tells : sheet.Tells closed edits) (clausal : sheet.grouped = false)
    (change : Edit) : (sheet.edited change).Tells closed (edits ++ [change]) := by
  refine ⟨tells.toTellsLists.edited clausal change, fun isOpen => ?_, ?_⟩
  · rw [acts_edited clausal, tells.acts isOpen, Command.ofEdits_concat]
  · rw [acts_edited clausal, Command.ofEdits_concat, Command.revised_eq_truncate_iff,
      Command.revised_eq_truncate_iff, tells.truncates]

/-- All columns are returned where nothing else was said, and so no table is emptied. -/
theorem acts_completed_eq_truncate_iff (sheet : Sheet) :
    sheet.completed.acts = .truncate ↔ sheet.acts = .truncate := by
  unfold Sheet.completed
  split
  · next lacks =>
    unfold acts
    rw [Option.isNone_iff_eq_none.mp lacks.2.1]
    exact ⟨nofun, nofun⟩
  · rfl

/-- A closed scope tells the same. -/
theorem Tells.completed (tells : sheet.Tells false edits) : sheet.completed.Tells true edits :=
  ⟨tells.toTellsLists.completed, nofun, sheet.acts_completed_eq_truncate_iff.trans tells.truncates⟩

end Sheet

end SqlDraft
