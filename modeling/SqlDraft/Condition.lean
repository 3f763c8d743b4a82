/-
**Conditions.**

A condition is a comparison or a text that is taken as it stands. Ranges, lists and tests for null
are texts made from their parts; values are put into them unquoted, as a statement shows them.

* `Condition.sql`: the text of a condition.
* `Condition.sql_equals`: two strings are an equality, whether or not the second is a template.
-/

import SqlDraft.Template

namespace SqlDraft

/-- A condition without a nested scope. -/
inductive Condition
  | comparison (column operator value : String)
  | verbatim (sql : String)
deriving DecidableEq

namespace Condition

/-- Texts in a row with one blank between them. -/
def spaced (texts : List String) : String := " ".intercalate texts

/-- The text of a condition. -/
def sql : Condition → String
  | comparison column operator value => spaced [column, operator, value]
  | verbatim sql => sql

/-! ### Comparisons -/

/-- A comparison with a value. -/
def compare (column operator : String) (value : Value) : Condition :=
  comparison column operator value.sql

/-- A comparison with a filled template. -/
def compareFilled (column operator template : String) (values : List Value) : Condition :=
  comparison column operator (Template.expanded template values)

/-- An equality whose operand is a template if it has a `%`, and else stands for itself. -/
def equals (column operand : String) (values : List Value) : Condition :=
  comparison column "="
    (if Template.hasMarker operand then Template.expanded operand values else operand)

/-! ### Texts -/

/-- A filled template as a condition. -/
def filled (template : String) (values : List Value) : Condition :=
  verbatim (Template.expanded template values)

/-- A condition that a column lies between two values, or does not. -/
def between (column : String) (low high : Value) (negated : Bool) : Condition :=
  verbatim (spaced [column, if negated then "NOT BETWEEN" else "BETWEEN", low.sql, "AND", high.sql])

/-- A condition that a column has one of these values, or none of them. -/
def among (column : String) (values : List Value) (negated : Bool) : Condition :=
  verbatim (spaced [column, if negated then "NOT IN" else "IN", (Value.list values).sql])

/-- A condition that a column is null, or is not. -/
def isNull (column : String) (negated : Bool) : Condition :=
  verbatim (spaced [column, if negated then "IS NOT NULL" else "IS NULL"])

/-- Text without `%` stands for itself, so the operand may as well always be a template. -/
theorem equals_eq_comparison (column operand : String) (values : List Value) :
    equals column operand values =
      comparison column "=" (Template.expanded operand values) := by
  unfold equals
  split
  · rfl
  · next literal =>
    have plain : '%' ∉ operand.toList := by simpa [Template.hasMarker] using literal
    rw [Template.expanded, Template.expand_plain _ _ plain, String.ofList_toList]

theorem sql_equals (column operand : String) (values : List Value) :
    (equals column operand values).sql =
      spaced [column, "=", Template.expanded operand values] := by
  rw [equals_eq_comparison]
  rfl

end Condition

end SqlDraft
