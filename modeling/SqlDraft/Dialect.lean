/-
**The SQL dialects a statement can be written in.**

A draft is kept in one form for all dialects. The choice is made when the text is written, and
only there, so one draft can be read in every dialect.

* `Dialect.ofName?_name`: the settings name of a dialect reads back as that dialect.
-/

namespace SqlDraft

/-- The dialects that the keywords have a text in. -/
inductive Dialect
  | postgres
  | mysql
  | sqlite
deriving DecidableEq, Inhabited

namespace Dialect

/-- The name of a dialect in settings text. -/
def name : Dialect → String
  | postgres => "postgres"
  | mysql => "mysql"
  | sqlite => "sqlite"

/-- The dialect of a settings name, which is written in lower case. -/
def ofName? (name : String) : Option Dialect :=
  if name = "postgres" then some postgres
  else if name = "mysql" then some mysql
  else if name = "sqlite" then some sqlite
  else none

theorem ofName?_name (dialect : Dialect) : ofName? dialect.name = some dialect := by
  cases dialect <;> rfl

end Dialect

end SqlDraft
