/-
**Blocks of calls that belong to one region.**

A block begins with a call that changes one region of a sheet, and goes on with names and conditions
for what was said there. It depends on what the region held and on nothing else of the sheet, so
blocks of different regions may change places:

* `Call.region?`, `Call.leads`: the region of a call, and what a block with it may go on with.
* `Block`: a call and those that go on with it.
* `Block.passes`: a block changes its region by what this holds.
* `Block.Reordered`: the blocks of each region are the same, in the same order.
* **`Block.sayAll_reordered`**: blocks in another order say the same.
-/

import SqlDraft.Proofs.Sheet.Passing

namespace SqlDraft

namespace Call

/-- Whether a call gives a name. -/
def isNaming : Call → Bool
  | .edit (.giveName _) => true
  | _ => false

/-- Whether a call is a condition on a join. -/
def isOn : Call → Bool
  | .edit (.restrict .joinOn _ _) | .within (.condition .joinOn _ _) _ => true
  | _ => false

/-- The region of a call that a block begins with. Conditions that follow a join are in its block. -/
def region? : Call → Option Region
  | .edit (.select columns) => if columns = [] then none else some .command
  | .edit .distinct | .edit (.remove _) => some .command
  | .edit (.table _) | .within .table _ => some .table
  | .edit (.join _ _) | .edit (.joinOn _ _ _) | .within (.joinTable _) _
  | .within (.joinOperand _ _ _ _) _ => some .joins
  | .within (.joinConditions _ _) program =>
    if program.all fun call => call.isNaming || call.isOn then some .joins else none
  | .edit (.restrict clause _ _) | .within (.condition clause _ _) _ =>
    if clause = .joinOn then none else some clause.region
  | .edit (.groupBy _) => some .grouping
  | .within (.union _) _ => some .unions
  | .edit (.orderBy _) | .edit (.orderDown _) | .edit (.direct _) => some .ordering
  | .edit (.limit _) => some .limit
  | .edit (.offset _) => some .offset
  | _ => none

/-- Whether a block that begins with a call may go on with another one. -/
def leads : Call → Call → Bool
  | .edit (.select _), call | .edit (.table _), call | .within .table _, call => call.isNaming
  | .edit (.join _ _), call | .edit (.joinOn _ _ _), call | .within (.joinTable _) _, call
  | .within (.joinConditions _ _) _, call | .within (.joinOperand _ _ _ _) _, call =>
    call.isNaming || call.isOn
  | _, _ => false

end Call

/-- **A block of calls that belongs to a region.** -/
structure Block where
  region : Region
  head : Call
  tail : List Call := []
  heads : head.region? = some region
  follows : tail.all head.leads = true
  goesOn : Call.goOn (head :: tail) = true

/-- The calls of a block. -/
def Block.calls (block : Block) : List Call := block.head :: block.tail

variable {region : Region} (deep : Bool)

/-! ### What a block depends on -/

theorem continues_of_isNaming (plain : region.isPaging = false) {call : Call}
    (naming : call.isNaming = true) :
    Continues region (Call.say · call) (Call.failsOn deep · call) := by
  cases call with
  | edit change =>
    cases change with
    | giveName name => exact continues_naming deep plain name
    | _ => cases naming
  | _ => cases naming

/-- Names and conditions go on with the joins. -/
theorem continues_of_isOn {call : Call} (goesOn : (call.isNaming || call.isOn) = true) :
    Continues .joins (Call.say · call) (Call.failsOn deep · call) := by
  cases call with
  | edit change =>
    cases change with
    | giveName name => exact continues_naming deep rfl name
    | restrict clause logic condition =>
      cases clause with
      | joinOn => exact continues_restrict deep logic condition
      | whereClause | having => cases goesOn
    | _ => cases goesOn
  | within opening program =>
    cases opening with
    | condition clause logic nested =>
      cases clause with
      | joinOn => exact continues_nested deep logic nested program
      | whereClause | having => cases goesOn
    | _ => cases goesOn
  | _ => cases goesOn

/-- Names and conditions do not fail themselves. -/
theorem failsAllOn_of_isOn {program : List Call}
    (goesOn : ∀ call ∈ program, (call.isNaming || call.isOn) = true) (sheet : Sheet) :
    Call.failsAllOn false sheet program = false := by
  induction program generalizing sheet with
  | nil => rfl
  | cons call rest step =>
    rw [Call.failsAllOn, step (fun other member => goesOn other (List.mem_cons_of_mem call member)),
      Bool.or_false]
    have first := goesOn call List.mem_cons_self
    cases call with
    | edit change => cases change <;> first | rfl | cases first
    | within opening program => cases opening <;> first | rfl | cases first
    | _ => rfl

section Parts

variable {deep} {head : Call} {tail : List Call}

theorem Passes.of_leads (leads : Leads region deep head) (plain : region.isPaging = false)
    (follows : ∀ call ∈ tail, Continues region (Call.say · call) (Call.failsOn deep · call)) :
    Passes region (Sheet.Shares region) (Sheet.Shares region) (Call.sayAll · (head :: tail))
      (Call.failsAllOn deep · (head :: tail)) :=
  (leads.comp (Continues.all deep plain follows)).weaken

theorem Passes.of_changes (changes : Changes region deep head)
    (alone : (tail.all fun _ => false) = true) :
    Passes region (Sheet.Shares region) (Sheet.Shares region) (Call.sayAll · (head :: tail))
      (Call.failsAllOn deep · (head :: tail)) := by
  cases tail with
  | nil => exact changes.congr (fun _ _ => rfl) fun _ _ => Bool.or_false _
  | cons call rest => cases alone

end Parts

/-- **A block changes its region by what this holds**, and whether it fails depends on that, too. -/
theorem Block.passes (block : Block) :
    Passes block.region (Sheet.Shares block.region) (Sheet.Shares block.region)
      (Call.sayAll · block.calls) (Call.failsAllOn deep · block.calls) := by
  -- The head decides on the region and on what may follow, so the cases are those of the head.
  obtain ⟨region, head, tail, heads, follows, -⟩ := block
  have named {region : Region} (plain : region.isPaging = false)
      (follows : tail.all Call.isNaming = true) : ∀ call ∈ tail,
        Continues region (Call.say · call) (Call.failsOn deep · call) := fun call member =>
    continues_of_isNaming deep plain (List.all_eq_true.mp follows call member)
  have joined (follows : (tail.all fun call => call.isNaming || call.isOn) = true) :
      ∀ call ∈ tail, Continues .joins (Call.say · call) (Call.failsOn deep · call) :=
    fun call member => continues_of_isOn deep (List.all_eq_true.mp follows call member)
  cases head with
  | edit change =>
    cases change with
    | select columns =>
      obtain ⟨given, same⟩ := Option.ite_none_left_eq_some.mp heads
      cases same
      exact (leads_select deep given).of_leads rfl (named rfl follows)
    | distinct =>
      cases heads
      exact (changes_distinct deep).of_changes follows
    | remove removal =>
      cases heads
      exact (changes_remove deep removal).of_changes follows
    | table name =>
      cases heads
      exact (leads_table deep name).of_leads rfl (named rfl follows)
    | join kind table =>
      cases heads
      exact (leads_join deep kind table).of_leads rfl (joined follows)
    | joinOn kind table condition =>
      cases heads
      exact (leads_joinOn deep kind table condition).of_leads rfl (joined follows)
    | restrict clause logic condition =>
      obtain ⟨own, same⟩ := Option.ite_none_left_eq_some.mp heads
      cases same
      exact (changes_restrict deep own logic condition).of_changes follows
    | groupBy columns =>
      cases heads
      exact (changes_groupBy deep columns).of_changes follows
    | orderBy columns =>
      cases heads
      exact (changes_orderBy deep columns).of_changes follows
    | orderDown columns =>
      cases heads
      exact (changes_orderDown deep columns).of_changes follows
    | direct direction =>
      cases heads
      exact (changes_direct deep direction).of_changes follows
    | limit count =>
      cases heads
      exact (changes_limit deep count).of_changes follows
    | offset count =>
      cases heads
      exact (changes_offset deep count).of_changes follows
    | giveName | showPage => cases heads
  | within opening program =>
    cases opening with
    | table =>
      cases heads
      exact (leads_within_table deep program).of_leads rfl (named rfl follows)
    | union all =>
      cases heads
      exact (changes_union deep all program).of_changes follows
    | joinTable kind =>
      cases heads
      exact (leads_joinTable deep kind program).of_leads rfl (joined follows)
    | joinConditions kind table =>
      obtain ⟨only, same⟩ := Option.ite_none_right_eq_some.mp heads
      cases same
      have only := List.all_eq_true.mp only
      exact (leads_joinConditions deep kind table (fun call member =>
        continues_of_isOn deep (only call member)) (failsAllOn_of_isOn only)).of_leads rfl
          (joined follows)
    | joinOperand kind table column operator =>
      cases heads
      exact (leads_joinOperand deep kind table column operator program).of_leads rfl
        (joined follows)
    | condition clause logic nested =>
      obtain ⟨own, same⟩ := Option.ite_none_left_eq_some.mp heads
      cases same
      exact (changes_nested deep own logic nested program).of_changes follows
  | ask | startOver | finish => cases heads

/-! ### Blocks in another order -/

namespace Block

/-- The calls of blocks in a row. -/
def program (blocks : List Block) : List Call := blocks.flatMap calls

/-- The blocks that belong to a region. -/
def belonging (region : Region) (blocks : List Block) : List Block :=
  blocks.filter (·.region = region)

/-- The blocks of each region are the same and in the same order. Blocks of different regions may
have changed places. -/
def Reordered (first second : List Block) : Prop :=
  ∀ region, belonging region first = belonging region second

theorem program_cons (block : Block) (rest : List Block) :
    program (block :: rest) = block.calls ++ program rest := List.flatMap_cons

theorem belonging_own (block : Block) (rest : List Block) :
    belonging block.region (block :: rest) = block :: belonging block.region rest :=
  List.filter_cons_of_pos (decide_eq_true rfl)

theorem belonging_other {block : Block} (other : block.region ≠ region) (rest : List Block) :
    belonging region (block :: rest) = belonging region rest :=
  List.filter_cons_of_neg (decide_eq_true_iff.not.mpr other)

section Depends

variable {sheet other : Sheet} (block : Block)

theorem fails_congr (shared : sheet.Shares block.region other) :
    Call.failsAllOn deep sheet block.calls = Call.failsAllOn deep other block.calls :=
  (block.passes deep sheet other shared).1

variable {deep} in
theorem shares (shared : sheet.Shares block.region other)
    (passed : Call.failsAllOn deep sheet block.calls = false) :
    (Call.sayAll sheet block.calls).Shares block.region (Call.sayAll other block.calls) :=
  ((block.passes deep sheet other shared).2 passed).2

variable {deep} in
theorem exists_settle (clausal : sheet.grouped = false)
    (passed : Call.failsAllOn deep sheet block.calls = false) :
    ∃ corner : Corner block.region, Call.sayAll sheet block.calls = sheet.settle corner :=
  ((block.passes deep sheet sheet ⟨clausal, clausal, rfl⟩).2 passed).1

variable {deep} in
/-- The other regions stay as they are. -/
theorem shares_other (shared : sheet.Shares region other) (different : region ≠ block.region)
    (passed : Call.failsAllOn deep sheet block.calls = false) :
    (Call.sayAll sheet block.calls).Shares region other := by
  obtain ⟨corner, said⟩ := block.exists_settle shared.clausal passed
  rw [said]
  exact ⟨(Sheet.grouped_settle sheet corner).trans shared.clausal, shared.clausalToo,
    (Sheet.get_settle_other sheet corner different).trans shared.content⟩

end Depends

variable {deep} {sheet : Sheet} {blocks : List Block}

/-- Blocks make of a region what those of the region make of it alone. -/
theorem passes_belonging (region : Region) {other : Sheet} (shared : sheet.Shares region other)
    (passed : Call.failsAllOn deep sheet (program blocks) = false) :
    Call.failsAllOn deep other (program (belonging region blocks)) = false ∧
      (Call.sayAll sheet (program blocks)).Shares region
        (Call.sayAll other (program (belonging region blocks))) := by
  induction blocks generalizing sheet other with
  | nil => exact ⟨rfl, shared⟩
  | cons block rest step =>
    rw [program_cons, Call.failsAllOn_append, Bool.or_eq_false_iff] at passed
    obtain ⟨first, further⟩ := passed
    rw [program_cons, Call.sayAll_append]
    -- A block of the region is made on both sheets, and any other one on the first sheet only.
    by_cases own : block.region = region
    · subst own
      rw [belonging_own, program_cons, Call.failsAllOn_append, Call.sayAll_append,
        ← block.fails_congr deep shared, first, Bool.false_or]
      exact step (block.shares shared first) further
    · rw [belonging_other own]
      exact step (block.shares_other shared (Ne.symm own) first) further

/-- Blocks do not fail if those of each region do not. -/
theorem passed_of_belonging (clausal : sheet.grouped = false)
    (each : ∀ region, ∃ other, sheet.Shares region other ∧
      Call.failsAllOn deep other (program (belonging region blocks)) = false) :
    Call.failsAllOn deep sheet (program blocks) = false := by
  induction blocks generalizing sheet with
  | nil => rfl
  | cons block rest step =>
    obtain ⟨other, shared, passed⟩ := each block.region
    rw [belonging_own, program_cons, Call.failsAllOn_append, Bool.or_eq_false_iff,
      ← block.fails_congr deep shared] at passed
    obtain ⟨first, further⟩ := passed
    have left := block.shares shared first
    rw [program_cons, Call.failsAllOn_append, first, Bool.false_or]
    refine step left.clausal fun region => ?_
    by_cases own : block.region = region
    · subst own
      exact ⟨_, left, further⟩
    · obtain ⟨elsewhere, sharedToo, passedToo⟩ := each region
      rw [belonging_other own] at passedToo
      exact ⟨elsewhere, block.shares_other sharedToo (Ne.symm own) first, passedToo⟩

theorem page_program (clausal : sheet.grouped = false)
    (passed : Call.failsAllOn deep sheet (program blocks) = false) :
    (Call.sayAll sheet (program blocks)).page.isSome =
      (sheet.page.isSome || blocks.any (·.region.isPaging)) := by
  induction blocks generalizing sheet with
  | nil => exact (Bool.or_false _).symm
  | cons block rest step =>
    rw [program_cons, Call.failsAllOn_append, Bool.or_eq_false_iff] at passed
    obtain ⟨corner, said⟩ := block.exists_settle clausal passed.1
    rw [program_cons, Call.sayAll_append, step ?_ passed.2, said, Sheet.page_settle,
      List.any_cons, Bool.or_assoc]
    rw [said, Sheet.grouped_settle, clausal]

/-- Reordered blocks are the same in another order. -/
theorem Reordered.any {first second : List Block} (reordered : Reordered first second)
    (test : Region → Bool) :
    (first.any fun block => test block.region) = second.any fun block => test block.region := by
  have mem (block : Block) : block ∈ first ↔ block ∈ second := by
    have same := congrArg (block ∈ ·) (reordered block.region)
    simpa [belonging] using same
  rw [Bool.eq_iff_iff, List.any_eq_true, List.any_eq_true]
  exact exists_congr fun block => and_congr_left fun _ => mem block

/-- **Blocks in another order say the same**, and none of them fails if none did before. -/
theorem sayAll_reordered {first second : List Block} (reordered : Reordered first second)
    {sheet other : Sheet} (same : sheet.Matches other)
    (passed : Call.failsAllOn deep sheet (program first) = false) :
    Call.failsAllOn deep other (program second) = false ∧
      (Call.sayAll sheet (program first)).Matches (Call.sayAll other (program second)) := by
  have passedToo : Call.failsAllOn deep other (program second) = false := by
    refine passed_of_belonging same.clausalToo fun region => ?_
    have each := passes_belonging region (same.shares region) passed
    rw [reordered region] at each
    exact ⟨other, ⟨same.clausalToo, same.clausalToo, rfl⟩, each.1⟩
  refine ⟨passedToo, ?_, ?_⟩
  · intro region
    have itself : other.Shares region other := ⟨same.clausalToo, same.clausalToo, rfl⟩
    obtain ⟨-, left⟩ := passes_belonging region (same.shares region) passed
    obtain ⟨-, right⟩ := passes_belonging region itself passedToo
    rw [← reordered region] at right
    exact ⟨left.clausal, right.clausal, left.content.trans right.content.symm⟩
  · rw [page_program same.clausal passed, page_program same.clausalToo passedToo, same.page,
      reordered.any]

end Block

end SqlDraft
