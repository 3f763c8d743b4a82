/-
**The words and marks of a statement.**

A statement carries its words as tags. Their text is chosen when the statement is written, which
is the only place where the dialects differ; the order of the clauses is read off the tags.

* `Keyword.text`: the text of a tag in a dialect, empty for a tag that leaves no trace.
* `Keyword.rank?`: the place of a clause in its statement, for the tags that head a clause.
* `Keyword.isCommand_iff`: the four commands are the clauses of rank zero.
-/

import SqlDraft.Dialect

namespace SqlDraft

/-- The tags of words and marks. -/
inductive Keyword
  /-- A place that is not filled. -/
  | blank
  | select
  | selectDistinct
  | delete
  | truncate
  /-- The table clause of every statement but a `TRUNCATE`. -/
  | fromTable
  /-- The table clause of a `TRUNCATE`. -/
  | emptiedTable
  | join
  | leftJoin
  | rightJoin
  | fullJoin
  | crossJoin
  | joinOn
  | whereClause
  | and
  | or
  | not
  | existsTest
  | groupBy
  | having
  | union
  | unionAll
  | orderBy
  | asc
  | desc
  | limit
  /-- A limit clause that has an offset and no limit. -/
  | noLimit
  | offset
  | asName
  | comma
  | leftParen
  | rightParen
  | star
deriving DecidableEq, Inhabited

namespace Keyword

/-- The text of a tag where the dialects agree. -/
def commonText : Keyword → String
  | blank => ""
  | select => "SELECT"
  | selectDistinct => "SELECT DISTINCT"
  | delete => "DELETE"
  | truncate => "TRUNCATE"
  | fromTable => "FROM"
  | emptiedTable => "TABLE"
  | join => "JOIN"
  | leftJoin => "LEFT JOIN"
  | rightJoin => "RIGHT JOIN"
  | fullJoin => "FULL JOIN"
  | crossJoin => "CROSS JOIN"
  | joinOn => "ON"
  | whereClause => "WHERE"
  | and => "AND"
  | or => "OR"
  | not => "NOT"
  | existsTest => "EXISTS"
  | groupBy => "GROUP BY"
  | having => "HAVING"
  | union => "UNION"
  | unionAll => "UNION ALL"
  | orderBy => "ORDER BY"
  | asc => "ASC"
  | desc => "DESC"
  | limit => "LIMIT"
  | noLimit => "LIMIT"
  | offset => "OFFSET"
  | asName => "AS"
  | comma => ","
  | leftParen => "("
  | rightParen => ")"
  | star => "*"

/-- The text of a tag in a dialect: an offset without a limit needs an unbounded limit before it
in all dialects but one, and SQLite empties a table by deleting from it. -/
def text (dialect : Dialect) : Keyword → String
  | noLimit =>
    match dialect with
    | .postgres => ""
    | .mysql => "LIMIT 18446744073709551615"
    | .sqlite => "LIMIT -1"
  | truncate =>
    match dialect with
    | .sqlite => "DELETE"
    | _ => "TRUNCATE"
  | emptiedTable =>
    match dialect with
    | .sqlite => "FROM"
    | _ => "TABLE"
  | keyword => keyword.commonText

/-- The place of a clause among the clauses of its statement, `none` for a tag that heads none. -/
def rank? : Keyword → Option Nat
  | select | selectDistinct | delete | truncate => some 0
  | fromTable | emptiedTable => some 1
  | join | leftJoin | rightJoin | fullJoin | crossJoin => some 2
  | whereClause => some 3
  | groupBy => some 4
  | having => some 5
  | union | unionAll => some 6
  | orderBy => some 7
  | limit | noLimit => some 8
  | _ => none

/-- Whether a clause says what the statement does. -/
def isCommand (keyword : Keyword) : Bool := keyword.rank? = some 0

/-- Whether a clause lists what a query returns. -/
def isProjection : Keyword → Bool
  | select | selectDistinct => true
  | _ => false

/-- Whether a tag is a direction of sorting. -/
def isDirection : Keyword → Bool
  | asc | desc => true
  | _ => false

theorem isCommand_iff (keyword : Keyword) : keyword.isCommand = true ↔
    keyword = select ∨ keyword = selectDistinct ∨ keyword = delete ∨ keyword = truncate := by
  cases keyword <;> decide

end Keyword

end SqlDraft
