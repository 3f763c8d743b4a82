/-
**The calls by their usual names.**

Most conditions have a call of their own for each clause and each way to combine. They are all made
from the few general calls here.

* `Call.condition`: a condition in a clause, which all calls of one condition are made from.
* `Call.nested`: a condition with a scope, which all calls of conditions with a program are made
  from.
-/

import SqlDraft.Program.Call

namespace SqlDraft.Call

/-! ### Columns, tables and joins -/

/-- Columns to return. -/
def select (columns : List String) : Call := edit (.select columns)

/-- An expression to return. -/
def selectRaw (expression : String) : Call := select [expression]

/-- A table joined on a comparison. -/
def joinWhere (kind : JoinKind) (table column operator : String) (value : Value) : Call :=
  edit (.joinOn kind table (.compare column operator value))

/-- A table joined with every row. -/
def crossJoin (table : String) : Call := edit (.join .cross table)

/-! ### Conditions -/

/-- A condition in a clause. -/
def condition (clause : FilterClause) (logic : Connective) (condition : Condition) : Call :=
  edit (.restrict clause logic condition)

/-- A comparison with a value. -/
def comparison (clause : FilterClause) (logic : Connective) (column operator : String)
    (value : Value) : Call :=
  condition clause logic (.compare column operator value)

/-- A condition as it stands. -/
def verbatim (clause : FilterClause) (logic : Connective) (sql : String) : Call :=
  condition clause logic (.verbatim sql)

/-- An equality of two strings. -/
def equals (logic : Connective) (column operand : String) (values : List Value) : Call :=
  condition .whereClause logic (.equals column operand values)

/-- A filled template. -/
def filled (logic : Connective) (template : String) (values : List Value) : Call :=
  condition .whereClause logic (.filled template values)

/-- A range. -/
def between (logic : Connective) (column : String) (low high : Value) : Call :=
  condition .whereClause logic (.between column low high false)

/-- The outside of a range. -/
def notBetween (column : String) (low high : Value) : Call :=
  condition .whereClause .and (.between column low high true)

/-- A list of values. -/
def among (logic : Connective) (column : String) (values : List Value) : Call :=
  condition .whereClause logic (.among column values false)

/-- All values but those of a list. -/
def notAmong (column : String) (values : List Value) : Call :=
  condition .whereClause .and (.among column values true)

/-- A test for null, or for anything else. -/
def isNull (logic : Connective) (column : String) (negated : Bool) : Call :=
  condition .whereClause logic (.isNull column negated)

/-! ### Conditions with a program -/

/-- A condition with a scope. -/
def nested (clause : FilterClause) (logic : Connective) (content : NestedCondition)
    (program : List Call) : Call :=
  within (.condition clause logic content) program

/-- A comparison with a statement. -/
def operand (clause : FilterClause) (logic : Connective) (column operator : String)
    (program : List Call) : Call :=
  nested clause logic (.operand column operator) program

/-- A column whose value is among the rows of a statement. -/
def inRows (column : String) (program : List Call) : Call :=
  operand .whereClause .and column "IN" program

/-- A column whose value is not among the rows of a statement. -/
def notInRows (column : String) (program : List Call) : Call :=
  operand .whereClause .and column "NOT IN" program

/-- A statement that has rows. -/
def existence (logic : Connective) (program : List Call) : Call :=
  nested .whereClause logic .existence program

/-- Conditions in parentheses. -/
def group (clause : FilterClause) (logic : Connective) (program : List Call) : Call :=
  nested clause logic .group program

end SqlDraft.Call
