/-
**The vocabulary of statements.**

What a statement does, how tables are joined, where conditions stand and how they combine. Each of
these choices has a tag, and nothing else about it shows in the text.

* `Command.ofKeyword`: what a statement does is read off the tag of its command clause.
-/

import SqlDraft.Keyword

namespace SqlDraft

/-- What a statement does, as far as it was said. -/
inductive Command
  | none
  | select
  | delete
  | truncate
deriving DecidableEq

namespace Command

/-- The command that a clause tag stands for. -/
def ofKeyword : Option Keyword → Command
  | some .select | some .selectDistinct => select
  | some .delete => delete
  | some .truncate => truncate
  | _ => none

/-- The name of a command in messages. -/
def text : Command → String
  | none => "NONE"
  | select => "SELECT"
  | delete => "DELETE"
  | truncate => "TRUNCATE"

end Command

/-- The commands that replace the projection of a statement. -/
inductive Removal
  | delete
  | truncate
deriving DecidableEq

namespace Removal

/-- The tag of the command. -/
def keyword : Removal → Keyword
  | delete => .delete
  | truncate => .truncate

/-- The tag of the table clause under the command. -/
def tableKeyword : Removal → Keyword
  | delete => .fromTable
  | truncate => .emptiedTable

end Removal

/-- The ways to join a table. -/
inductive JoinKind
  | inner
  | left
  | right
  | full
  | cross
deriving DecidableEq

/-- The tag of a join. -/
def JoinKind.keyword : JoinKind → Keyword
  | inner => .join
  | left => .leftJoin
  | right => .rightJoin
  | full => .fullJoin
  | cross => .crossJoin

/-- How a condition combines with those before it. -/
inductive Connective
  | and
  | or
  | andNot
  | orNot
deriving DecidableEq

namespace Connective

/-- The tag that joins a condition to those before it. -/
def keyword : Connective → Keyword
  | and | andNot => .and
  | or | orNot => .or

/-- Whether the condition itself is negated. -/
def negates : Connective → Bool
  | andNot | orNot => true
  | and | or => false

end Connective

/-- The clauses that hold conditions. -/
inductive FilterClause
  | whereClause
  | joinOn
  | having
deriving DecidableEq

/-- The direction of sorting. -/
inductive Direction
  | asc
  | desc
deriving DecidableEq

namespace Direction

/-- The tag of a direction. -/
def keyword : Direction → Keyword
  | asc => .asc
  | desc => .desc

/-- The name of a direction in messages. -/
def text : Direction → String
  | asc => "ASC"
  | desc => "DESC"

end Direction

end SqlDraft
