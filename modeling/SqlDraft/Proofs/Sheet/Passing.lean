/-
**What calls depend on.**

A call that says something in one region of a sheet looks at nothing else there. Names and conditions
that follow it look at what it left for them, and no call before it is seen any more:

* `Sheet.Shares`, `Sheet.Resumes`: what two sheets have in common.
* `Passes`: calls depend on what two sheets share, and leave what they share later.
* `leads_select`, ...: the calls that names and conditions may follow.
* `continues_naming`, ...: names and conditions.
* `changes_distinct`, ...: the calls that stand alone.
-/

import SqlDraft.Proofs.Sheet.Failing
import SqlDraft.Proofs.Sheet.Regions

namespace SqlDraft

/-! ### What regions hold with more in them -/

/-- A row with more entries, which begins with the first of them. -/
def extended {Entry : Type} (row : Option (List Entry)) : List Entry → Option (List Entry)
  | [] => row
  | first :: rest => some (row.getD [] ++ first :: rest)

/-- What the region of a clause holds with one more condition. -/
def FilterClause.adding (remark : Remark) :
    (clause : FilterClause) → clause.region.Content → clause.region.Content
  | whereClause, row | having, row => some (Option.getD row [] ++ [remark])
  | joinOn, joins => List.modifyLast (Link.adding remark) joins

/-- What a region holds with a name given there. -/
def Region.called (name : String) : (region : Region) → region.Content → region.Content
  | .command, content => Option.map (Deed.nameLast name) content
  | .table, content => Option.map (Supply.called name) content
  | .joins, content => List.modifyLast (Link.called name) content
  | .filters, content | .grouping, content | .havings, content | .unions, content
  | .ordering, content | .limit, content | .offset, content => content

/-! ### What two sheets share -/

/-- Two sheets with clauses hold the same in a region. -/
structure Sheet.Shares (region : Region) (first second : Sheet) : Prop where
  clausal : first.grouped = false
  clausalToo : second.grouped = false
  content : first.get region = second.get region

/-- Two sheets with clauses hold the same in all regions. -/
structure Sheet.Matches (first second : Sheet) : Prop where
  shares : ∀ region, Sheet.Shares region first second
  page : first.page.isSome = second.page.isSome

/-- The next call may refer to the same in a region of two sheets, and to nothing else. -/
structure Sheet.Resumes (region : Region) (first second : Sheet) : Prop
    extends Sheet.Shares region first second where
  target : first.target = second.target
  aims : ∀ found ∈ first.target, found.region = region
  joining : region = .joins → first.joining = second.joining

namespace Sheet.Matches

variable {first second : Sheet} (same : first.Matches second)
include same

theorem clausal : first.grouped = false := (same.shares .command).clausal

theorem clausalToo : second.grouped = false := (same.shares .command).clausalToo

/-- **Sheets that hold the same are written the same.** -/
theorem payloads_eq : first.payloads = second.payloads :=
  payloads_eq_of_get same.clausal same.clausalToo (fun region => (same.shares region).content)
    same.page

/-- So one lacks columns if the other one does. -/
theorem lacks_iff : (first.grouped = false ∧ first.command.isNone ∧ first.table.isSome) ↔
    (second.grouped = false ∧ second.command.isNone ∧ second.table.isSome) := by
  have command : first.command = second.command := (same.shares .command).content
  have table : first.table = second.table := (same.shares .table).content
  rw [same.clausal, same.clausalToo, command, table]

end Sheet.Matches

/-- **Calls depend on what two sheets share.** They fail on both or on none, and if they do not, they
change one region and leave something that both share. -/
def Passes (region : Region) (before after : Sheet → Sheet → Prop) (said : Sheet → Sheet)
    (fails : Sheet → Bool) : Prop :=
  ∀ first second, before first second → fails first = fails second ∧
    (fails first = false → (∃ corner : Corner region, said first = first.settle corner) ∧
      after (said first) (said second))

variable {region : Region} {before between after : Sheet → Sheet → Prop}
  {said more : Sheet → Sheet} {fails failsToo : Sheet → Bool}

namespace Passes

theorem comp (first : Passes region before between said fails)
    (second : Passes region between after more failsToo) :
    Passes region before after (fun sheet => more (said sheet))
      fun sheet => fails sheet || failsToo (said sheet) := by
  intro sheet other shared
  obtain ⟨same, passes⟩ := first sheet other shared
  refine ⟨?_, fun passed => ?_⟩
  · show (fails sheet || _) = (fails other || _)
    rw [← same]
    cases failing : fails sheet with
    | true => rfl
    | false => exact (second _ _ (passes failing).2).1
  · obtain ⟨passed, passedToo⟩ := Bool.or_eq_false_iff.mp passed
    obtain ⟨⟨corner, goes⟩, resumed⟩ := passes passed
    obtain ⟨⟨further, goesToo⟩, left⟩ := (second _ _ resumed).2 passedToo
    refine ⟨⟨further, goesToo.trans ?_⟩, left⟩
    rw [goes, Sheet.settle_settle]

theorem congr (passes : Passes region (Sheet.Shares region) after said fails)
    (sameSaid : ∀ sheet : Sheet, sheet.grouped = false → more sheet = said sheet)
    (sameFails : ∀ sheet : Sheet, sheet.grouped = false → failsToo sheet = fails sheet) :
    Passes region (Sheet.Shares region) after more failsToo := by
  intro first second shared
  rw [sameSaid first shared.clausal, sameSaid second shared.clausalToo,
    sameFails first shared.clausal, sameFails second shared.clausalToo]
  exact passes first second shared

/-- What is shared less. -/
theorem weaken (passes : Passes region before (Sheet.Resumes region) said fails) :
    Passes region before (Sheet.Shares region) said fails := by
  intro first second shared
  obtain ⟨same, passes⟩ := passes first second shared
  exact ⟨same, fun passed => ⟨(passes passed).1, (passes passed).2.toShares⟩⟩

variable (region) in
/-- A call that says something in one region, by what the region holds. -/
theorem of_content (turn : Sheet → Corner region) (fault : region.Content → Bool)
    (failing : ∀ sheet, sheet.grouped = false → fails sheet = fault (sheet.get region))
    (goes : ∀ sheet, sheet.grouped = false → fails sheet = false →
      said sheet = sheet.settle (turn sheet))
    (content : ∀ first second, first.get region = second.get region →
      (turn first).content = (turn second).content) :
    Passes region (Sheet.Shares region) (Sheet.Shares region) said fails := by
  rintro first second ⟨clausal, clausalToo, same⟩
  have both : fails first = fails second := by
    rw [failing first clausal, failing second clausalToo, same]
  refine ⟨both, fun passed => ⟨⟨_, goes first clausal passed⟩, ?_⟩⟩
  rw [goes first clausal passed, goes second clausalToo (both ▸ passed)]
  refine ⟨?_, ?_, ?_⟩
  · rw [Sheet.grouped_settle, clausal]
  · rw [Sheet.grouped_settle, clausalToo]
  · rw [Sheet.get_settle, Sheet.get_settle, content first second same]

variable (region) in
/-- A call that may be followed by names and conditions for what it says. -/
theorem of_start (start : Sheet → Corner region) (fault : region.Content → Bool)
    (failing : ∀ sheet, sheet.grouped = false → fails sheet = fault (sheet.get region))
    (goes : ∀ sheet, sheet.grouped = false → fails sheet = false →
      said sheet = sheet.settle (start sheet))
    (content : ∀ first second, first.get region = second.get region →
      (start first).content = (start second).content) (target : Option Target)
    (targeted : ∀ sheet, (start sheet).target = target)
    (aims : ∀ found ∈ target, found.region = region)
    (joining : region = .joins → ∀ first second, (start first).joining = (start second).joining) :
    Passes region (Sheet.Shares region) (Sheet.Resumes region) said fails := by
  intro first second shared
  obtain ⟨same, passes⟩ := of_content region start fault failing goes content first second shared
  refine ⟨same, fun passed => ⟨(passes passed).1, ?_⟩⟩
  have shares := (passes passed).2
  rw [goes first shared.clausal passed, goes second shared.clausalToo (same ▸ passed)] at shares ⊢
  exact ⟨shares, (targeted first).trans (targeted second).symm,
    fun found member => aims found (targeted first ▸ member),
    fun isJoins => joining isJoins first second⟩

end Passes

/-! ### The kinds of calls in a block -/

/-- Calls that say something in a region by what it holds, and that names and conditions may
follow. -/
abbrev Leads (region : Region) (deep : Bool) (call : Call) : Prop :=
  Passes region (Sheet.Shares region) (Sheet.Resumes region) (Call.say · call)
    (Call.failsOn deep · call)

/-- Calls that say something in a region by what it holds, and that nothing may follow. -/
abbrev Changes (region : Region) (deep : Bool) (call : Call) : Prop :=
  Passes region (Sheet.Shares region) (Sheet.Shares region) (Call.say · call)
    (Call.failsOn deep · call)

/-- Calls that go on with what was said in a region. -/
abbrev Continues (region : Region) (said : Sheet → Sheet) (fails : Sheet → Bool) : Prop :=
  Passes region (Sheet.Resumes region) (Sheet.Resumes region) said fails

variable (deep : Bool)

/-! ### Calls that names and conditions may follow -/

theorem leads_select {columns : List String} (given : columns ≠ []) :
    Leads .command deep (.edit (.select columns)) := by
  have failing (sheet : Sheet) (clausal : sheet.grouped = false) :
      Call.failsOn deep sheet (.edit (.select columns)) = !sheet.command.all Deed.selects := by
    rw [Call.failsOn, Sheet.refuses, decide_eq_true given, Bool.true_and, Sheet.canProject, clausal]
    rfl
  let said (command : Option Deed) : Option Deed :=
    some ((command.getD (.columns false [])).adding columns)
  refine Passes.of_start .command
    (fun sheet => ⟨said sheet.command, some .column, sheet.joining⟩)
    (fun command : Option Deed => !command.all Deed.selects)
    failing (fun sheet clausal passed => ?_) (fun first second same => congrArg said same)
    (some .column) (fun _ => rfl) (by rintro _ ⟨⟩; rfl) nofun
  rw [failing sheet clausal, Bool.not_eq_false'] at passed
  have can : sheet.canProject = true := by
    rw [Sheet.canProject, clausal, passed]
    rfl
  rw [Call.say, Sheet.edited, Sheet.select,
    if_neg (not_or.mpr ⟨given, ne_false_of_eq_true can⟩)]
  rfl

/-- A table of any kind. -/
theorem Passes.of_tabled (body : List Payload) (joining : Sheet → Bool) (fault : Bool)
    (failing : ∀ sheet, sheet.grouped = false →
      fails sheet = (!sheet.canTakeTable || (sheet.canTakeTable && fault)))
    (goes : ∀ sheet, sheet.canTakeTable = true →
      said sheet = { sheet.tabled body with joining := joining sheet }) :
    Passes .table (Sheet.Shares .table) (Sheet.Resumes .table) said fails := by
  have can (sheet : Sheet) (clausal : sheet.grouped = false) :
      sheet.canTakeTable = sheet.table.isNone := by
    rw [Sheet.canTakeTable, clausal]
    rfl
  refine of_start .table (fun sheet => ⟨some ⟨body, none⟩, some .table, joining sheet⟩)
    (fun table : Option Supply => !table.isNone || (table.isNone && fault)) (fun sheet clausal => ?_)
    (fun sheet clausal passed => ?_) (fun _ _ _ => rfl) (some .table) (fun _ => rfl)
    (by rintro _ ⟨⟩; rfl) nofun
  · rw [failing sheet clausal, can sheet clausal]
    rfl
  · rw [failing sheet clausal, Bool.or_eq_false_iff, Bool.not_eq_false'] at passed
    rw [goes sheet passed.1]
    rfl

theorem leads_table (name : String) : Leads .table deep (.edit (.table name)) := by
  refine Passes.of_tabled [.literal name] Sheet.joining false (fun sheet _ => ?_)
    fun sheet can => ?_
  · rw [Call.failsOn, Sheet.refuses, Bool.and_false, Bool.or_false]
  · rw [Call.say, Sheet.edited, Sheet.fromTable, if_pos can]
    rfl

theorem leads_within_table (program : List Call) :
    Leads .table deep (.within .table program) := by
  refine Passes.of_tabled (.blank :: (Call.sayAll (.silent .subquery) program).enclosed
    .subquery) (fun _ => false) (deep && Call.failsAllOn deep (.silent .subquery) program)
    (fun sheet _ => ?_) fun sheet can => ?_
  · rw [Call.failsOn, Sheet.refuses, Sheet.admits, Bool.and_left_comm, Bool.and_assoc]
    rfl
  · rw [Call.say]
    exact if_pos can

/-- A join of any table, which takes conditions unless it is a cross join. -/
theorem Passes.of_linked (kind : JoinKind) (body : List Payload) (fault : Bool)
    (failing : ∀ sheet, sheet.grouped = false → fails sheet = fault)
    (linked : ∀ sheet, sheet.grouped = false → said sheet = sheet.linked kind body) :
    Passes .joins (Sheet.Shares .joins) (Sheet.Resumes .joins) said fails := by
  let more (joins : List Link) : List Link := joins ++ [{ kind := kind, body := body }]
  refine of_start .joins (fun sheet => ⟨more sheet.joins, some .join, kind ≠ .cross⟩)
    (fun _ => fault) failing (fun sheet clausal _ => (linked sheet clausal).trans ?_)
    (fun _ _ same => congrArg more same) (some .join) (fun _ => rfl) (by rintro _ ⟨⟩; rfl)
    fun _ _ _ => rfl
  rfl

theorem leads_join (kind : JoinKind) (table : String) :
    Leads .joins deep (.edit (.join kind table)) := by
  refine Passes.of_linked kind [.literal table] false (fun sheet _ => ?_) fun sheet clausal => ?_
  · rw [Call.failsOn]
    rfl
  · rw [Call.say, Sheet.edited, Sheet.join, clausal, if_neg Bool.false_ne_true]

theorem leads_joinTable (kind : JoinKind) (program : List Call) :
    Leads .joins deep (.within (.joinTable kind) program) := by
  refine Passes.of_linked kind (.blank :: (Call.sayAll (.silent .subquery) program).enclosed
    .subquery) (deep && Call.failsAllOn deep (.silent .subquery) program)
    (fun sheet clausal => ?_) fun sheet clausal => ?_
  · rw [Call.failsOn, Sheet.admits, clausal, Bool.not_false, Bool.and_true]
    rfl
  · rw [Call.say]
    exact Sheet.ite_grouped clausal

/-! ### Calls that go on with a region -/

theorem Continues.nothing (plain : region.isPaging = false) :
    Continues region id fun _ => false := fun first _ shared =>
  ⟨rfl, fun _ => ⟨⟨first.corner region, (Sheet.settle_corner plain).symm⟩, shared⟩⟩

/-- Calls in a row go on with a region if each of them does. -/
theorem Continues.all (plain : region.isPaging = false) {program : List Call}
    (each : ∀ call ∈ program, Continues region (Call.say · call) (Call.failsOn deep · call)) :
    Continues region (Call.sayAll · program) (Call.failsAllOn deep · program) := by
  induction program with
  | nil => exact nothing plain
  | cons call rest step =>
    exact (each call List.mem_cons_self).comp
      (step fun other member => each other (List.mem_cons_of_mem call member))

/-- A name goes on with a region, as it goes to nothing outside. -/
theorem continues_naming (plain : region.isPaging = false) (name : String) :
    Continues region (Call.say · (.edit (.giveName name)))
      (Call.failsOn deep · (.edit (.giveName name))) := by
  intro first second shared
  show Call.failsOn _ _ _ = Call.failsOn _ _ _ ∧ (_ → (∃ _, Call.say _ _ = _) ∧
    Sheet.Resumes region (Call.say _ _) (Call.say _ _))
  rw [Call.failsOn, Call.failsOn, Call.say, Call.say, Sheet.edited, Sheet.edited, Sheet.giveName,
    Sheet.giveName, ← shared.target]
  refine ⟨rfl, fun _ => ?_⟩
  cases goes : first.target with
  | none => exact ⟨⟨first.corner region, (Sheet.settle_corner plain).symm⟩, shared⟩
  | some target =>
    obtain rfl : target.region = region := shared.aims target goes
    have named (sheet : Sheet) : sheet.naming name target = sheet.settle
        ⟨target.region.called name (sheet.get target.region), sheet.target, sheet.joining⟩ := by
      cases target <;> rfl
    dsimp only
    rw [named, named]
    refine ⟨⟨_, rfl⟩, ⟨?_, ?_, ?_⟩, shared.target, shared.aims, shared.joining⟩
    · exact (Sheet.grouped_settle _ _).trans shared.clausal
    · exact (Sheet.grouped_settle _ _).trans shared.clausalToo
    · rw [Sheet.get_settle, Sheet.get_settle, shared.content]

/-- A condition on the last join, if that takes conditions. -/
theorem Continues.of_joinedOn (remark : Remark) (keepsTarget : Bool) (fault : Bool)
    (failing : ∀ sheet, sheet.grouped = false → fails sheet = (sheet.joining && fault))
    (ignored : ∀ sheet, sheet.grouped = false → sheet.joining = false → said sheet = sheet)
    (added : ∀ sheet, sheet.grouped = false → sheet.joining = true → said sheet =
      { sheet.adding remark .lastJoin with target := if keepsTarget then sheet.target else none }) :
    Continues .joins said fails := by
  intro first second shared
  have joining := shared.joining rfl
  rw [failing first shared.clausal, failing second shared.clausalToo, joining]
  refine ⟨rfl, fun _ => ?_⟩
  cases takes : second.joining with
  | false =>
    rw [ignored first shared.clausal (joining.trans takes), ignored second shared.clausalToo takes]
    exact ⟨⟨first.corner .joins, (Sheet.settle_corner rfl).symm⟩, shared⟩
  | true =>
    rw [added first shared.clausal (joining.trans takes), added second shared.clausalToo takes]
    refine ⟨⟨⟨first.joins.modifyLast (Link.adding remark), if keepsTarget then first.target
      else none, first.joining⟩, rfl⟩, ⟨shared.clausal, shared.clausalToo, ?_⟩, ?_, ?_,
      fun _ => joining⟩
    · exact congrArg (List.modifyLast (Link.adding remark)) shared.content
    · exact congrArg (fun target => if keepsTarget then target else none) shared.target
    · cases keepsTarget with
      | false => exact nofun
      | true => exact shared.aims

theorem seat?_joinOn {sheet : Sheet} (clausal : sheet.grouped = false) :
    sheet.seat? .joinOn = if sheet.joining then some .lastJoin else none := by
  rw [Sheet.seat?, clausal, if_neg Bool.false_ne_true]

theorem continues_restrict (logic : Connective) (condition : Condition) :
    Continues .joins (Call.say · (.edit (.restrict .joinOn logic condition)))
      (Call.failsOn deep · (.edit (.restrict .joinOn logic condition))) := by
  refine Continues.of_joinedOn ⟨logic, [.literal condition.sql]⟩ true false (fun sheet _ => ?_)
    (fun sheet clausal ignored => ?_) fun sheet clausal takes => ?_
  · rw [Call.failsOn, Bool.and_false]
    rfl
  · rw [Call.say, Sheet.edited, Sheet.restrict, seat?_joinOn clausal, ignored]
    rfl
  · rw [Call.say, Sheet.edited, Sheet.restrict, seat?_joinOn clausal, takes]
    rfl

theorem continues_nested (logic : Connective) (nested : NestedCondition) (program : List Call) :
    Continues .joins (Call.say · (.within (.condition .joinOn logic nested) program))
      (Call.failsOn deep · (.within (.condition .joinOn logic nested) program)) := by
  refine Continues.of_joinedOn ⟨logic, nested.lead?.toList ++ .blank :: (Call.sayAll
    (.silent nested.kind) program).enclosed nested.kind⟩ false
    (deep && Call.failsAllOn deep (.silent nested.kind) program) (fun sheet clausal => ?_)
    (fun sheet clausal ignored => ?_) fun sheet clausal takes => ?_
  · rw [Call.failsOn, Sheet.admits, seat?_joinOn clausal, ← Bool.and_assoc,
      Bool.and_comm sheet.joining]
    cases sheet.joining <;> rfl
  · rw [Call.say, Sheet.filled]
    show Sheet.nested sheet .joinOn logic nested _ = _
    rw [Sheet.nested, seat?_joinOn clausal, ignored]
    rfl
  · rw [Call.say, Sheet.filled]
    show Sheet.nested sheet .joinOn logic nested _ = _
    rw [Sheet.nested, seat?_joinOn clausal, takes]
    exact congrArg (fun joining => { sheet.adding _ .lastJoin with target := none, joining })
      takes.symm

/-! ### Joins with conditions -/

theorem leads_joinOn (kind : JoinKind) (table : String) (condition : Condition) :
    Leads .joins deep (.edit (.joinOn kind table condition)) := by
  refine ((leads_join deep kind table).comp
    (continues_restrict deep .and condition)).congr (fun sheet clausal => ?_) fun sheet clausal => ?_
  · rw [Call.say, Call.say, Call.say]
    exact Sheet.ite_grouped clausal
  · rw [Call.failsOn, Call.failsOn, Call.failsOn]
    rfl

theorem leads_joinOperand (kind : JoinKind) (table column operator : String)
    (program : List Call) :
    Leads .joins deep (.within (.joinOperand kind table column operator) program) := by
  refine ((leads_join deep kind table).comp
    (continues_nested deep .and (.operand column operator) program)).congr (fun sheet clausal => ?_)
      fun sheet clausal => ?_
  · rw [Call.say, Call.say, Call.say]
    exact Sheet.ite_grouped clausal
  · have seat : ((Call.say sheet (.edit (.join kind table))).seat? .joinOn).isSome =
        decide (kind ≠ .cross) := by
      have plain : (sheet.linked kind [.literal table]).grouped = false := clausal
      rw [Call.say, Sheet.edited, Sheet.join, clausal, if_neg Bool.false_ne_true,
        seat?_joinOn plain, Sheet.linked]
      cases kind <;> rfl
    rw [Call.failsOn, Call.failsOn, Call.failsOn, Sheet.admits, Sheet.admits, seat, clausal]
    rfl

theorem leads_joinConditions (kind : JoinKind) (table : String) {program : List Call}
    (each : ∀ call ∈ program, Continues .joins (Call.say · call) (Call.failsOn deep · call))
    (never : ∀ sheet, Call.failsAllOn false sheet program = false) :
    Leads .joins deep (.within (.joinConditions kind table) program) := by
  refine ((leads_join deep kind table).comp (Continues.all deep rfl each)).congr
    (fun sheet clausal => ?_) fun sheet clausal => ?_
  · rw [Call.say, Call.say]
    exact Sheet.ite_grouped clausal
  · rw [Call.failsOn, Call.failsOn, Sheet.admits, clausal, Call.say]
    cases deep with
    | false => exact (never _).symm
    | true => rfl

/-! ### Calls that stand alone -/

variable {deep} (region) in
/-- An edit that does not fail. -/
theorem Passes.of_edit {change : Edit} (turn : region.Content → region.Content)
    (target : Sheet → Option Target)
    (never : ∀ sheet : Sheet, sheet.grouped = false → sheet.refuses (.edit change) = false)
    (goes : ∀ sheet : Sheet, sheet.grouped = false → sheet.edited change =
      sheet.settle ⟨turn (sheet.get region), target sheet, sheet.joining⟩) :
    Changes region deep (.edit change) := by
  refine of_content region (fun sheet => ⟨turn (sheet.get region), target sheet, sheet.joining⟩)
    (fun _ => false) (fun sheet clausal => ?_) (fun sheet clausal _ => ?_)
    fun _ _ same => congrArg turn same
  · rw [Call.failsOn, never sheet clausal]
  · rw [Call.say, goes sheet clausal]

theorem changes_distinct : Changes .command deep (.edit .distinct) :=
  Passes.of_edit .command
    (fun command : Option Deed => some (command.elim (.all true) Deed.distinctly)) Sheet.target
    (fun _ _ => rfl) fun _ clausal => Sheet.ite_grouped clausal

theorem changes_remove (removal : Removal) : Changes .command deep (.edit (.remove removal)) :=
  Passes.of_edit .command (fun _ => some (.removal removal))
    (fun sheet => sheet.target.filter Target.outlivesColumns) (fun _ clausal => clausal)
    fun _ clausal => Sheet.ite_grouped clausal

theorem changes_groupBy (columns : List String) :
    Changes .grouping deep (.edit (.groupBy columns)) := by
  refine Passes.of_edit .grouping (extended · columns) Sheet.target
    (fun _ _ => rfl) fun sheet clausal => ?_
  cases columns with
  | nil =>
    have same : sheet.groupBy [] = sheet := if_pos (.inl rfl)
    exact same.trans (@Sheet.settle_corner .grouping sheet rfl).symm
  | cons first rest =>
    exact if_neg (not_or.mpr ⟨List.cons_ne_nil _ _, Bool.eq_false_iff.mp clausal⟩)

theorem orderBy_eq_settle {sheet : Sheet} (clausal : sheet.grouped = false)
    (columns : List String) : sheet.orderBy columns = sheet.settle
      (⟨extended sheet.ordering (columns.map fun text => (text, none)), sheet.target,
        sheet.joining⟩ : Corner .ordering) := by
  cases columns with
  | nil =>
    have same : sheet.orderBy [] = sheet := if_pos (.inl rfl)
    exact same.trans (@Sheet.settle_corner .ordering sheet rfl).symm
  | cons first rest =>
    exact if_neg (not_or.mpr ⟨List.cons_ne_nil _ _, Bool.eq_false_iff.mp clausal⟩)

theorem changes_orderBy (columns : List String) :
    Changes .ordering deep (.edit (.orderBy columns)) :=
  Passes.of_edit .ordering (extended · (columns.map fun text => (text, none)))
    Sheet.target (fun _ _ => rfl) fun _ clausal => orderBy_eq_settle clausal columns

theorem changes_direct (direction : Direction) :
    Changes .ordering deep (.edit (.direct direction)) :=
  Passes.of_edit .ordering
    (fun ordering : Option (List (String × Option Direction)) =>
      ordering.map (Outline.directLast direction)) Sheet.target
    (fun _ _ => rfl) fun _ clausal => Sheet.ite_grouped clausal

theorem changes_orderDown (columns : List String) :
    Changes .ordering deep (.edit (.orderDown columns)) := by
  refine Passes.of_edit .ordering (fun ordering =>
    (extended ordering (columns.map fun text => (text, none))).map (Outline.directLast .desc))
    Sheet.target (fun _ _ => rfl) fun sheet clausal => ?_
  rw [Sheet.edited, orderBy_eq_settle clausal]
  exact Sheet.ite_grouped clausal

theorem changes_limit (count : UInt64) : Changes .limit deep (.edit (.limit count)) := by
  refine Passes.of_edit .limit (fun _ => some count) Sheet.target (fun _ _ => rfl)
    fun sheet clausal => (Sheet.ite_grouped clausal).trans ?_
  have page : (sheet.page.getD {}).limited count =
      { limit := some count, offset := sheet.page.bind Page.offset } := by
    cases sheet.page <;> rfl
  rw [page]
  rfl

theorem changes_offset (count : UInt64) : Changes .offset deep (.edit (.offset count)) := by
  refine Passes.of_edit .offset (fun _ => some count) Sheet.target (fun _ _ => rfl)
    fun sheet clausal => (Sheet.ite_grouped clausal).trans ?_
  have page : (sheet.page.getD {}).skipping count =
      { limit := sheet.page.bind Page.limit, offset := some count } := by
    cases sheet.page <;> rfl
  rw [page]
  rfl

variable {deep} (region) in
/-- Something that is opened and can be filled, whatever was said before. -/
theorem Passes.of_received {opening : Opening} {kind : ScopeKind} {program : List Call}
    (opened : Draft.openedKind? opening = some kind)
    (never : ∀ sheet : Sheet, sheet.refuses (.within opening program) = false)
    (admits : ∀ sheet : Sheet, sheet.grouped = false → sheet.admits opening = true)
    (turn : List Payload → region.Content → region.Content)
    (goes : ∀ (sheet : Sheet) (body : List Payload), sheet.grouped = false →
      sheet.received body opening = sheet.settle ⟨turn body (sheet.get region), none, false⟩) :
    Changes region deep (.within opening program) := by
  let body : List Payload := .blank :: (Call.sayAll (.silent kind) program).enclosed kind
  refine of_content region (fun sheet => ⟨turn body (sheet.get region), none, false⟩)
    (fun _ => deep && Call.failsAllOn deep (.silent kind) program) (fun sheet clausal => ?_)
    (fun sheet clausal _ => ?_) fun _ _ same => congrArg (turn body) same
  · rw [Call.failsOn, never, admits sheet clausal, Bool.false_or, Bool.and_true, Sheet.entered,
      opened]
  · rw [Call.say, Sheet.filled, opened]
    exact goes sheet body clausal

theorem changes_union (all : Bool) (program : List Call) :
    Changes .unions deep (.within (.union all) program) :=
  Passes.of_received .unions rfl (fun _ => rfl) (fun _ => congrArg not)
    (fun body (unions : List (Bool × List Payload)) => unions ++ [(all, body)])
    fun _ _ clausal => Sheet.ite_grouped clausal

/-! ### Conditions of a clause -/

theorem exists_seat {clause : FilterClause} (own : clause ≠ .joinOn) {sheet : Sheet}
    (clausal : sheet.grouped = false) : ∃ seat, sheet.seat? clause = some seat ∧
      ∀ remark, sheet.adding remark seat = sheet.settle
        ⟨clause.adding remark (sheet.get clause.region), sheet.target, sheet.joining⟩ := by
  cases clause with
  | whereClause =>
    exact ⟨.filters, congrArg some (Sheet.ite_grouped clausal), fun _ => rfl⟩
  | having =>
    exact ⟨.havings, congrArg some (Sheet.ite_grouped clausal), fun _ => rfl⟩
  | joinOn => exact absurd rfl own

theorem changes_restrict {clause : FilterClause} (own : clause ≠ .joinOn) (logic : Connective)
    (condition : Condition) :
    Changes clause.region deep (.edit (.restrict clause logic condition)) := by
  refine Passes.of_edit clause.region (clause.adding ⟨logic, [.literal condition.sql]⟩) Sheet.target
    (fun _ _ => rfl) fun sheet clausal => ?_
  obtain ⟨seat, goes, adding⟩ := exists_seat own clausal
  rw [Sheet.edited, Sheet.restrict, goes]
  exact adding _

theorem changes_nested {clause : FilterClause} (own : clause ≠ .joinOn) (logic : Connective)
    (nested : NestedCondition) (program : List Call) :
    Changes clause.region deep (.within (.condition clause logic nested) program) := by
  refine Passes.of_received clause.region rfl (fun _ => rfl) (fun sheet clausal => ?_)
    (fun body => clause.adding ⟨logic, nested.lead?.toList ++ body⟩) fun sheet body clausal => ?_
  · obtain ⟨seat, goes, -⟩ := exists_seat own clausal
    rw [Sheet.admits, goes]
    rfl
  · obtain ⟨seat, goes, adding⟩ := exists_seat own clausal
    rw [Sheet.received, Sheet.nested, goes, decide_eq_false own]
    dsimp only
    rw [adding, Bool.and_false]
    rfl

end SqlDraft
