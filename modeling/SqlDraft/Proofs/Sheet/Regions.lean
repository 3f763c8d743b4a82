/-
**Regions of a sheet.**

A sheet is made of regions, each for the calls of one clause; a limit and an offset are regions of
their own. Where a name goes and whether conditions go to a join is no region, and is kept beside it:

* `Sheet.get`, `Sheet.settle`: what a region holds, and a sheet with a region changed.
* `Sheet.payloads_eq_of_get`: sheets that hold the same are written the same.
* `Corner`: a region with what the next call may refer to.
-/

import SqlDraft.Proofs.Sheet.Saying

namespace SqlDraft

/-! ### Regions -/

/-- The regions of a sheet. -/
inductive Region
  | command
  | table
  | joins
  | filters
  | grouping
  | havings
  | unions
  | ordering
  | limit
  | offset
deriving DecidableEq

namespace Region

/-- What a region holds. -/
def Content : Region → Type
  | command => Option Deed
  | table => Option Supply
  | joins => List Link
  | filters | havings => Option (List Remark)
  | grouping => Option (List String)
  | unions => List (Bool × List Payload)
  | ordering => Option (List (String × Option Direction))
  | limit | offset => Option UInt64

/-- Whether a region is a part of the limit clause. -/
def isPaging : Region → Bool
  | limit | offset => true
  | _ => false

end Region

/-- The region of what a name goes to. -/
def Target.region : Target → Region
  | column => .command
  | table => .table
  | join => .joins

/-- The region that the conditions of a clause go to. -/
def FilterClause.region : FilterClause → Region
  | whereClause => .filters
  | having => .havings
  | joinOn => .joins

variable {region other : Region}

/-- A region with what the next call may refer to. -/
structure Corner (region : Region) where
  content : region.Content
  target : Option Target
  joining : Bool

namespace Sheet

/-- What a region of a sheet holds. -/
def get (sheet : Sheet) : (region : Region) → region.Content
  | .command => sheet.command
  | .table => sheet.table
  | .joins => sheet.joins
  | .filters => sheet.filters
  | .grouping => sheet.grouping
  | .havings => sheet.havings
  | .unions => sheet.unions
  | .ordering => sheet.ordering
  | .limit => sheet.page.bind Page.limit
  | .offset => sheet.page.bind Page.offset

/-- A sheet with something else in a region. -/
def put (sheet : Sheet) : (region : Region) → region.Content → Sheet
  | .command, content => { sheet with command := content }
  | .table, content => { sheet with table := content }
  | .joins, content => { sheet with joins := content }
  | .filters, content => { sheet with filters := content }
  | .grouping, content => { sheet with grouping := content }
  | .havings, content => { sheet with havings := content }
  | .unions, content => { sheet with unions := content }
  | .ordering, content => { sheet with ordering := content }
  | .limit, content =>
    { sheet with page := some { limit := content, offset := sheet.page.bind Page.offset } }
  | .offset, content =>
    { sheet with page := some { limit := sheet.page.bind Page.limit, offset := content } }

/-- A region of a sheet with what the next call may refer to. -/
def corner (sheet : Sheet) (region : Region) : Corner region :=
  ⟨sheet.get region, sheet.target, sheet.joining⟩

/-- A sheet with a region changed. -/
def settle (sheet : Sheet) (corner : Corner region) : Sheet :=
  { sheet.put region corner.content with target := corner.target, joining := corner.joining }

variable {sheet : Sheet} {corner : Corner region}

@[simp]
theorem get_settle (sheet : Sheet) (corner : Corner region) :
    (sheet.settle corner).get region = corner.content := by
  cases region <;> rfl

theorem get_settle_other (sheet : Sheet) (corner : Corner region) (different : other ≠ region) :
    (sheet.settle corner).get other = sheet.get other := by
  cases region <;> cases other <;> first | rfl | exact absurd rfl different

@[simp]
theorem settle_settle (sheet : Sheet) (corner later : Corner region) :
    (sheet.settle corner).settle later = sheet.settle later := by
  cases region <;> rfl

theorem settle_corner (plain : region.isPaging = false) :
    sheet.settle (sheet.corner region) = sheet := by
  cases region <;> first | rfl | cases plain

@[simp]
theorem grouped_settle (sheet : Sheet) (corner : Corner region) :
    (sheet.settle corner).grouped = sheet.grouped := by
  cases region <;> rfl

theorem page_settle (sheet : Sheet) (corner : Corner region) :
    (sheet.settle corner).page.isSome = (sheet.page.isSome || region.isPaging) := by
  cases region <;> first | exact (Bool.or_false _).symm | exact (Bool.or_true _).symm

/-! ### Sheets that hold the same -/

theorem page_eq_of_get {first second : Sheet} (limit : first.get .limit = second.get .limit)
    (offset : first.get .offset = second.get .offset)
    (said : first.page.isSome = second.page.isSome) : first.page = second.page := by
  unfold get at limit offset
  cases page : first.page <;> cases other : second.page <;> rw [page, other] at limit offset said
  · cases said
  · cases said
  · exact congrArg some (congrArg₂ Page.mk limit offset)

/-- **Sheets that hold the same in all regions are written the same.** -/
theorem payloads_eq_of_get {first second : Sheet} (clausal : first.grouped = false)
    (clausalToo : second.grouped = false)
    (same : ∀ region, first.get region = second.get region)
    (said : first.page.isSome = second.page.isSome) : first.payloads = second.payloads := by
  have word : first.tableKeyword = second.tableKeyword := by
    rw [tableKeyword, tableKeyword, show first.command = second.command from same .command]
  have rows (rank : Nat) : first.row rank = second.row rank := by
    match rank with
    | 0 => exact congrArg (fun command : Option Deed => command.toList.flatMap _) (same .command)
    | 1 =>
      rw [row, row, word]
      exact congrArg (fun table : Option Supply => table.toList.flatMap _) (same .table)
    | 2 => exact congrArg (fun joins : List Link => joins.flatMap _) (same .joins)
    | 3 => exact congrArg (fun row : Option (List Remark) => row.toList.flatMap _) (same .filters)
    | 4 => exact congrArg (fun row : Option (List String) => row.toList.flatMap _) (same .grouping)
    | 5 => exact congrArg (fun row : Option (List Remark) => row.toList.flatMap _) (same .havings)
    | 6 => exact congrArg (fun unions : List (Bool × List Payload) => unions.flatMap _) (same .unions)
    | 7 =>
      exact congrArg (fun row : Option (List (String × Option Direction)) => row.toList.flatMap _)
        (same .ordering)
    | 8 => rw [row, row, page_eq_of_get (same .limit) (same .offset) said]
    | _ + 9 => rfl
  rw [payloads, payloads, clausal, clausalToo, if_neg Bool.false_ne_true,
    if_neg Bool.false_ne_true]
  exact List.flatMap_congr fun rank _ => rows rank

end Sheet

end SqlDraft
