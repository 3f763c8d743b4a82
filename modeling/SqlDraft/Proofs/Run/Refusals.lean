/-
**Refused calls leave the draft as it is.**

A call that the innermost scope cannot take is told to the caller as a fault, or it is ignored. In
both cases nothing is left of it, and the program that would have filled what it opens is not run.
This is so for every draft, also for one that no program makes.

* `Call.fault?`: what the caller is told about a call.
* `Draft.Ignores`: the calls that a draft ignores.
* `Draft.apply_of_refusal`, `Draft.enter_of_not_admits`: an edit with a reason not to make it does
  nothing, and what cannot be filled is not opened. A cross join is made without its condition.
* `Draft.LeadsAtOnce`: where a call leads that makes no other call.
* **`Draft.refused_leaves_no_trace`**: a call with a fault and an ignored call lead at once to the
  draft itself, and a cross join with a condition leads at once to the join alone.
-/

import Mathlib.Logic.Basic
import SqlDraft.Program.Trace
import SqlDraft.Proofs.Run.Moves
import SqlDraft.Proofs.Sketch.Sketched

namespace SqlDraft

/-! ### Which calls are refused -/

/-- Whether a call asks for a part that a group of conditions does not have, of the calls whose
caller is not told. -/
def Call.asksForPart : Call → Bool
  | .edit .distinct | .edit (.join _ _) | .edit (.joinOn _ _ _) | .edit (.groupBy _)
  | .edit (.orderBy _) | .edit (.orderDown _) | .edit (.direct _) | .edit (.limit _)
  | .edit (.offset _) | .edit (.showPage _ _) => true
  | .within (.union _) _ | .within (.joinTable _) _ | .within (.joinConditions _ _) _
  | .within (.joinOperand _ _ _ _) _ => true
  | _ => false

/-- What the caller is told about a call that was refused. -/
def Call.fault? (draft : Draft) : Call → Option Refusal
  | .edit change => draft.fault? change
  | .within opening _ => draft.openingFault? opening
  | .ask _ | .startOver | .finish => none

/-- Whether a refusal is one that callers are told. -/
def Refusal.isTold : Refusal → Bool
  | .hasTable | .isRemoval _ | .withinGroup _ => true
  | .notDistinct _ | .noJoin | .noOrdering _ | .nothingToName _ => false

namespace Draft

/-- The calls that a draft ignores. -/
inductive Ignores (draft : Draft) : Call → Prop
  /-- A group has no clauses. -/
  | part {call : Call} (group : draft.inGroup = true) (asks : call.asksForPart = true) :
      Ignores draft call
  /-- No join takes the condition. -/
  | noJoin (logic : Connective) (condition : Condition) (outside : draft.inGroup = false)
      (missing : draft.scope.join = none) :
      Ignores draft (.edit (.restrict .joinOn logic condition))
  /-- No join takes the condition that a program would fill. -/
  | noJoinAround (logic : Connective) (nested : NestedCondition) (program : List Call)
      (outside : draft.inGroup = false) (missing : draft.scope.join = none) :
      Ignores draft (.within (.condition .joinOn logic nested) program)
  /-- No ordering takes the direction. -/
  | noOrdering (direction : Direction) (missing : draft.ordering? = none) :
      Ignores draft (.edit (.direct direction))
  /-- No ordering takes the direction, and no columns make one. -/
  | noOrderingDown (missing : draft.ordering? = none) : Ignores draft (.edit (.orderDown []))
  /-- A removal returns no rows. -/
  | noRows (removal : draft.scopeCommand = .delete ∨ draft.scopeCommand = .truncate) :
      Ignores draft (.edit .distinct)
  /-- Nothing takes the name. -/
  | noTarget (name : String) (missing : draft.scope.target = none) :
      Ignores draft (.edit (.giveName name))

variable {draft : Draft}

/-! ### The checks -/

theorem refusesPart?_isSome {part : Part} :
    (draft.refusesPart? part).isSome = true ↔ draft.inGroup = true := by
  unfold refusesPart?
  split <;> simp_all

theorem canTakeTable_of_refused (refused : draft.refusesTable?.isSome = true) :
    draft.canTakeTable = false := by
  rw [refusesTable?, Option.isSome_or, Bool.or_eq_true, refusesPart?_isSome] at refused
  unfold canTakeTable
  rcases refused with group | taken
  · rw [group]
    rfl
  · split at taken
    · next there => rw [Option.isNone_eq_false_iff.mpr there, Bool.and_false]
    · exact nomatch taken

theorem canProject_of_refused (refused : draft.refusesColumns?.isSome = true) :
    draft.canProject = false := by
  rw [refusesColumns?, Option.isSome_or, Bool.or_eq_true, refusesPart?_isSome] at refused
  unfold canProject
  rcases refused with group | removal
  · rw [group]
    rfl
  · split at removal
    · next other =>
      rw [Option.isNone_eq_false_iff.mpr other.1, decide_eq_false other.2, Bool.or_false,
        Bool.and_false]
    · exact nomatch removal

theorem columns_ne_nil {columns : List String} {refusal : Option Refusal}
    (refused : (unlessEmpty columns refusal).isSome = true) :
    columns ≠ [] ∧ refusal.isSome = true := by
  unfold unlessEmpty at refused
  split at refused
  · exact nomatch refused
  · next given => exact ⟨given, refused⟩

theorem takesCondition_of_refused {clause : FilterClause}
    (refused : (draft.refusesCondition? clause).isSome = true) :
    draft.takesCondition clause = false := by
  unfold refusesCondition? at refused
  split at refused
  · exact nomatch refused
  · next missing => exact Bool.eq_false_iff.mpr missing

theorem not_takes_of_missing (outside : draft.inGroup = false)
    (missing : draft.scope.join = none) : draft.takesCondition .joinOn = false := by
  rw [takesCondition, outside, missing]
  rfl

/-- A condition without a place is one on a join that is not there. -/
theorem conditionPlace?_of_not_takes {clause : FilterClause}
    (missing : draft.takesCondition clause = false) : draft.conditionPlace? clause = none := by
  unfold takesCondition at missing
  obtain ⟨rest, noJoin⟩ := Bool.or_eq_false_iff.mp missing
  obtain ⟨outside, onJoin⟩ := Bool.or_eq_false_iff.mp rest
  obtain rfl : clause = .joinOn := not_not.mp (of_decide_eq_false onJoin)
  have missing : draft.scope.join = none :=
    Option.not_isSome_iff_eq_none.mp (Bool.eq_false_iff.mp noJoin)
  rw [conditionPlace?, outside, if_neg Bool.false_ne_true, missing]
  rfl

/-! ### The calls that open no scope -/

section Group

variable (group : draft.inGroup = true)
include group

theorem join_of_group (kind : JoinKind) (table : String) : draft.join kind table = draft :=
  if_pos group

theorem listColumns_of_group (keyword : Keyword) (columns : List String) :
    draft.listColumns keyword columns = draft :=
  if_pos (.inr group)

theorem direct_of_group (direction : Direction) : draft.direct direction = draft := if_pos group

theorem orderDown_of_group (columns : List String) : draft.orderDown columns = draft := by
  rw [orderDown, orderBy, listColumns_of_group group, direct_of_group group]

theorem limit_of_group (count : UInt64) : draft.limit count = draft := if_pos group

theorem offset_of_group (count : UInt64) : draft.offset count = draft := if_pos group

theorem showPage_of_group (perPage page : UInt64) : draft.showPage perPage page = draft := by
  rw [showPage, limit_of_group group, offset_of_group group]

end Group

/-- A command that is not a projection does not become one of distinct rows. -/
theorem distinct_of_removal (said : draft.scope.command.isSome = true)
    (other : draft.scopeCommand ≠ .select) : draft.distinct = draft := by
  obtain ⟨clause, command⟩ := Option.isSome_iff_exists.mp said
  unfold distinct
  rw [command]
  have noProjection : (draft.store.node clause).payload.isKeyword .select = false := by
    refine decide_eq_false fun projection => other ?_
    rw [scopeCommand, commandKeyword, command, Option.bind_some, projection]
    rfl
  dsimp only
  rw [noProjection, if_neg Bool.false_ne_true, ite_self]

theorem distinct_of_refused (refused : draft.refusesDistinct?.isSome = true) :
    draft.distinct = draft := by
  rw [refusesDistinct?, Option.isSome_or, Bool.or_eq_true, refusesPart?_isSome] at refused
  rcases refused with group | removal
  · exact if_pos group
  · split at removal
    · next other => exact distinct_of_removal other.1 other.2
    · exact nomatch removal

theorem refusesDirection?_of_missing {direction : Direction} (missing : draft.ordering? = none) :
    (draft.refusesDirection? direction).isSome = true := by
  rw [refusesDirection?, missing, Option.isSome_or]
  exact Bool.or_true _

theorem direct_of_refused {direction : Direction}
    (refused : (draft.refusesDirection? direction).isSome = true) :
    draft.direct direction = draft := by
  rw [refusesDirection?, Option.isSome_or, Bool.or_eq_true, refusesPart?_isSome] at refused
  rcases refused with group | missing
  · exact direct_of_group group direction
  · split at missing
    · next empty =>
      unfold direct
      rw [Option.isNone_iff_eq_none.mp empty]
      split <;> rfl
    · exact nomatch missing

/-- No columns to sort by leave only the direction. -/
theorem orderDown_of_refused {columns : List String}
    (refused : (draft.refusal? (.orderDown columns)).isSome = true) :
    draft.orderDown columns = draft := by
  change (if columns = [] then draft.refusesDirection? .desc
    else draft.refusesPart? .orderBy).isSome = true at refused
  split at refused
  · next empty =>
    have kept : draft.orderBy columns = draft := if_pos (.inl empty)
    rw [orderDown, kept, direct_of_refused refused]
  · exact orderDown_of_group (refusesPart?_isSome.mp refused) columns

theorem target_of_refused {name : String}
    (refused : (draft.refusal? (.giveName name)).isSome = true) : draft.scope.target = none := by
  change (if draft.scope.target.isNone then some (Refusal.nothingToName name)
    else none).isSome = true at refused
  split at refused
  · next missing => exact Option.isNone_iff_eq_none.mp missing
  · exact nomatch refused

/-- **An edit that there is a reason not to make does nothing.** -/
theorem apply_of_refusal {change : Edit} (refused : (draft.refusal? change).isSome = true) :
    draft.apply change = draft := by
  cases change with
  | select columns =>
    exact if_pos (.inr (canProject_of_refused (columns_ne_nil refused).2))
  | distinct => exact distinct_of_refused refused
  | table name => exact if_neg (Bool.eq_false_iff.mp (canTakeTable_of_refused refused))
  | remove removal => exact if_pos (refusesPart?_isSome.mp refused)
  | giveName name =>
    show draft.giveName name = draft
    rw [giveName, target_of_refused refused]
  | join kind table => exact join_of_group (refusesPart?_isSome.mp refused) kind table
  | joinOn kind table condition => exact if_pos (refusesPart?_isSome.mp refused)
  | restrict clause logic condition =>
    show draft.restrict clause logic condition = draft
    rw [restrict, conditionPlace?_of_not_takes (takesCondition_of_refused refused)]
  | groupBy columns =>
    exact listColumns_of_group (refusesPart?_isSome.mp (columns_ne_nil refused).2) .groupBy columns
  | orderBy columns =>
    exact listColumns_of_group (refusesPart?_isSome.mp (columns_ne_nil refused).2) .orderBy columns
  | orderDown columns => exact orderDown_of_refused refused
  | direct direction => exact direct_of_refused refused
  | limit count => exact limit_of_group (refusesPart?_isSome.mp refused) count
  | offset count => exact offset_of_group (refusesPart?_isSome.mp refused) count
  | showPage perPage page => exact showPage_of_group (refusesPart?_isSome.mp refused) perPage page

/-! ### The calls that open something -/

theorem scope_join (outside : draft.inGroup = false) (kind : JoinKind) (table : String) :
    (draft.join kind table).scope =
      { draft.scope with
        join := if kind = .cross then none else some draft.store.fresh
        target := some (draft.startJoin kind).store.fresh } := by
  rw [join, outside, if_neg Bool.false_ne_true, scope_adjust, scope_alter, startJoin,
    scope_adjust, scope_alter]

/-- A join takes conditions unless it is a cross join. -/
theorem takesCondition_join (outside : draft.inGroup = false) (kind : JoinKind) (table : String) :
    (draft.join kind table).takesCondition .joinOn = decide (kind ≠ .cross) := by
  have plain : (draft.join kind table).inGroup = false := by
    rw [inGroup, scope_join outside]
    exact outside
  rw [takesCondition, plain, scope_join outside]
  cases kind <;> rfl

/-- A join with an operand is a join, and then a condition on it is opened. -/
theorem enter_joinOperand {kind : JoinKind} {table column operator : String}
    (admits : draft.admits (.joinOperand kind table column operator) = true) :
    draft.inGroup = false ∧
      (draft.join kind table).admits (.condition .joinOn .and (.operand column operator)) = true ∧
      draft.enter (.joinOperand kind table column operator) =
        (draft.join kind table).enter (.condition .joinOn .and (.operand column operator)) := by
  have both : (!draft.inGroup && decide (kind ≠ .cross)) = true := admits
  rw [Bool.and_eq_true, Bool.not_eq_true'] at both
  obtain ⟨plain, ordinary⟩ := both
  refine ⟨plain, (takesCondition_join plain kind table).trans ordinary, ?_⟩
  rw [enter, plain, if_neg Bool.false_ne_true]
  rfl

/-- A cross join on a condition is a cross join. -/
theorem enter_cross (outside : draft.inGroup = false) (table column operator : String) :
    draft.enter (.joinOperand .cross table column operator) = draft.join .cross table := by
  rw [enter, outside, if_neg Bool.false_ne_true, openCondition,
    conditionPlace?_of_not_takes (takesCondition_join outside .cross table)]

/-- **What cannot be filled is not opened.** A cross join is made, and only its condition is left
out. -/
theorem enter_of_not_admits {opening : Opening} (refused : draft.admits opening = false) :
    draft.enter opening = draft ∨ draft.inGroup = false ∧ ∃ table column operator,
      opening = .joinOperand .cross table column operator ∧
        draft.enter opening = draft.join .cross table := by
  cases opening with
  | table => exact .inl (if_neg (Bool.eq_false_iff.mp refused))
  | union all | joinTable kind | joinConditions kind table =>
    exact .inl (if_pos (Bool.not_eq_eq_eq_not.mp refused))
  | condition clause logic nested =>
    refine .inl ?_
    show draft.openCondition clause logic nested = draft
    rw [openCondition, conditionPlace?_of_not_takes refused]
  | joinOperand kind table column operator =>
    show (if draft.inGroup then draft else _) = _ ∨ _
    by_cases group : draft.inGroup = true
    · exact .inl (if_pos group)
    · have outside : draft.inGroup = false := Bool.eq_false_iff.mpr group
      have cross : decide (kind ≠ .cross) = false := by
        have both : (!draft.inGroup && decide (kind ≠ .cross)) = false := refused
        rwa [outside, Bool.not_false, Bool.true_and] at both
      obtain rfl : kind = .cross := not_not.mp (of_decide_eq_false cross)
      exact .inr ⟨outside, table, column, operator, rfl, enter_cross outside table column operator⟩

/-! ### What a refused call leaves -/

/-- A call leads to a draft and makes no other call: no other draft is passed through, and one entry
is written down. -/
structure LeadsAtOnce (draft : Draft) (call : Call) (result : Draft) : Prop where
  leads : call.run draft = result
  through : ∀ found, Call.Passes draft [call] found → found = draft ∨ found = result
  alone : ∀ (session : Session) (path : List Nat), session.draft = draft →
    ∃ entry, (session.call path call).entries = entry :: session.entries ∧ entry.path = path ∧
      entry.fault = call.fault? draft

theorem leadsAtOnce_edit (change : Edit) :
    draft.LeadsAtOnce (.edit change) (draft.apply change) where
  leads := rfl
  through found passes := by
    cases passes with
    | here => exact .inl rfl
    | later further =>
      cases further with
      | here => exact .inr rfl
  alone := by
    rintro session path rfl
    exact ⟨_, rfl, rfl, rfl⟩

theorem leadsAtOnce_within (opening : Opening) (program : List Call)
    (refused : draft.admits opening = false) :
    draft.LeadsAtOnce (.within opening program) (draft.enter opening) where
  leads := by rw [Call.run, refused, if_neg Bool.false_ne_true]
  through found passes := by
    cases passes with
    | here => exact .inl rfl
    | later further =>
      cases further with
      | here =>
        rw [Call.run, refused, if_neg Bool.false_ne_true]
        exact .inr rfl
    | inside admits deeper => exact absurd (refused.symm.trans admits) Bool.false_ne_true
  alone := by
    rintro session path rfl
    rw [Session.call, refused, if_neg Bool.false_ne_true]
    exact ⟨_, rfl, rfl, rfl⟩

theorem leavesNoTrace_edit {change : Edit} (same : draft.apply change = draft) :
    draft.LeadsAtOnce (.edit change) draft := by
  have atOnce := draft.leadsAtOnce_edit change
  rwa [same] at atOnce

theorem leavesNoTrace_within (opening : Opening) (program : List Call)
    (refused : draft.admits opening = false) (unopened : draft.enter opening = draft) :
    draft.LeadsAtOnce (.within opening program) draft := by
  have atOnce := leadsAtOnce_within opening program refused
  rwa [unopened] at atOnce

/-- A group has no part of a statement, whatever is asked for. -/
theorem leavesNoTrace_of_part {call : Call} (group : draft.inGroup = true)
    (asks : call.asksForPart = true) : draft.LeadsAtOnce call draft := by
  have closed : (!draft.inGroup) = false := by rw [group]; rfl
  cases call with
  | ask question => exact nomatch asks
  | startOver => exact nomatch asks
  | finish => exact nomatch asks
  | edit change =>
    refine leavesNoTrace_edit ?_
    cases change with
    | select columns => exact nomatch asks
    | table name => exact nomatch asks
    | remove removal => exact nomatch asks
    | giveName name => exact nomatch asks
    | restrict clause logic condition => exact nomatch asks
    | distinct => exact if_pos group
    | join kind table => exact join_of_group group kind table
    | joinOn kind table condition => exact if_pos group
    | groupBy columns => exact listColumns_of_group group .groupBy columns
    | orderBy columns => exact listColumns_of_group group .orderBy columns
    | orderDown columns => exact orderDown_of_group group columns
    | direct direction => exact direct_of_group group direction
    | limit count => exact limit_of_group group count
    | offset count => exact offset_of_group group count
    | showPage perPage page => exact showPage_of_group group perPage page
  | within opening program =>
    cases opening with
    | table => exact nomatch asks
    | condition clause logic nested => exact nomatch asks
    | union all => exact leavesNoTrace_within (.union all) program closed (if_pos group)
    | joinTable kind => exact leavesNoTrace_within (.joinTable kind) program closed (if_pos group)
    | joinConditions kind table =>
      exact leavesNoTrace_within (.joinConditions kind table) program closed
        (join_of_group group kind table)
    | joinOperand kind table column operator =>
      have refused : draft.admits (.joinOperand kind table column operator) = false := by
        rw [admits, closed, Bool.false_and]
      exact leavesNoTrace_within (.joinOperand kind table column operator) program refused
        (if_pos group)

theorem leavesNoTrace_of_fault {call : Call} (told : (call.fault? draft).isSome = true) :
    draft.LeadsAtOnce call draft := by
  cases call with
  | ask question => exact nomatch told
  | startOver => exact nomatch told
  | finish => exact nomatch told
  | edit change =>
    change (draft.fault? change).isSome = true at told
    unfold fault? at told
    split at told
    · exact leavesNoTrace_edit (apply_of_refusal told)
    · exact nomatch told
  | within opening program =>
    change (draft.openingFault? opening).isSome = true at told
    unfold openingFault? at told
    split at told
    · next isTable =>
      subst isTable
      have full := canTakeTable_of_refused told
      exact leavesNoTrace_within .table program full (if_neg (Bool.eq_false_iff.mp full))
    · exact nomatch told

theorem leavesNoTrace_of_ignored {call : Call} (ignored : draft.Ignores call) :
    draft.LeadsAtOnce call draft := by
  cases ignored with
  | part group asks => exact leavesNoTrace_of_part group asks
  | noJoin logic condition outside missing =>
    refine leavesNoTrace_edit ?_
    show draft.restrict .joinOn logic condition = draft
    rw [restrict, conditionPlace?_of_not_takes (not_takes_of_missing outside missing)]
  | noJoinAround logic nested program outside missing =>
    have refused : draft.admits (.condition .joinOn logic nested) = false :=
      not_takes_of_missing outside missing
    refine leavesNoTrace_within (.condition .joinOn logic nested) program refused ?_
    exact (enter_of_not_admits refused).resolve_right nofun
  | noOrdering direction missing =>
    exact leavesNoTrace_edit (direct_of_refused (refusesDirection?_of_missing missing))
  | noOrderingDown missing =>
    exact leavesNoTrace_edit (orderDown_of_refused (refusesDirection?_of_missing missing))
  | noRows removal =>
    have other : draft.scopeCommand ≠ .select := by
      rcases removal with removal | removal <;> rw [removal] <;> exact nofun
    refine leavesNoTrace_edit (distinct_of_removal ?_ other)
    refine Option.isSome_iff_ne_none.mpr fun empty => ?_
    rw [scopeCommand, commandKeyword, empty] at removal
    exact removal.elim nofun nofun
  | noTarget name missing =>
    refine leavesNoTrace_edit ?_
    show draft.giveName name = draft
    rw [giveName, missing]

/-! ### What the caller is told -/

theorem refusesPart?_isTold {part : Part} {refusal : Refusal}
    (told : draft.refusesPart? part = some refusal) : refusal.isTold = true := by
  unfold refusesPart? at told
  split at told
  · rw [← Option.some.inj told]
    rfl
  · exact nomatch told

theorem refusesTable?_isTold {refusal : Refusal} (told : draft.refusesTable? = some refusal) :
    refusal.isTold = true := by
  rcases Option.or_eq_some_iff.mp told with group | ⟨-, taken⟩
  · exact refusesPart?_isTold group
  · split at taken
    · rw [← Option.some.inj taken]
      rfl
    · exact nomatch taken

theorem refusesColumns?_isTold {refusal : Refusal} (told : draft.refusesColumns? = some refusal) :
    refusal.isTold = true := by
  rcases Option.or_eq_some_iff.mp told with group | ⟨-, removal⟩
  · exact refusesPart?_isTold group
  · split at removal
    · rw [← Option.some.inj removal]
      rfl
    · exact nomatch removal

/-- A fault is about a second table, columns of a removal or a part in a group. -/
theorem isTold_of_fault {call : Call} {refusal : Refusal}
    (told : call.fault? draft = some refusal) : refusal.isTold = true := by
  cases call with
  | ask question => exact nomatch told
  | startOver => exact nomatch told
  | finish => exact nomatch told
  | edit change =>
    obtain ⟨fallible, told⟩ := Option.ite_none_right_eq_some.mp told
    cases change with
    | select columns =>
      obtain ⟨-, told⟩ := Option.ite_none_left_eq_some.mp told
      exact refusesColumns?_isTold told
    | table name => exact refusesTable?_isTold told
    | remove removal => exact refusesPart?_isTold told
    | _ => exact nomatch fallible
  | within opening program =>
    obtain ⟨isTable, told⟩ := Option.ite_none_right_eq_some.mp told
    subst isTable
    exact refusesTable?_isTold told

/-- **A call that is refused with a fault and a call that is ignored leave no trace.** A fault tells
of a second table, of columns in a removal or of a part in a group. A join that is ignored in a
group adds no condition to the group either, and the condition of a cross join is left out together
with the program that would fill it. -/
theorem refused_leaves_no_trace (draft : Draft) :
    (∀ call : Call, (call.fault? draft).isSome = true ∨ draft.Ignores call →
      draft.LeadsAtOnce call draft) ∧
    (∀ (call : Call) (refusal : Refusal), call.fault? draft = some refusal →
      refusal.isTold = true) ∧
    (draft.inGroup = false → ∀ table condition column operator program,
      draft.LeadsAtOnce (.edit (.joinOn .cross table condition)) (draft.join .cross table) ∧
      draft.LeadsAtOnce (.within (.joinOperand .cross table column operator) program)
        (draft.join .cross table)) := by
  refine ⟨?_, fun _ _ => isTold_of_fault, ?_⟩
  · rintro call (told | ignored)
    · exact leavesNoTrace_of_fault told
    · exact leavesNoTrace_of_ignored ignored
  · intro outside table condition column operator program
    constructor
    · have noPlace := conditionPlace?_of_not_takes (takesCondition_join outside .cross table)
      have atOnce := draft.leadsAtOnce_edit (.joinOn .cross table condition)
      rwa [apply, joinOn, outside, if_neg Bool.false_ne_true, restrict, noPlace] at atOnce
    · have refused : draft.admits (.joinOperand .cross table column operator) = false :=
        Bool.and_false _
      have atOnce := leadsAtOnce_within (.joinOperand .cross table column operator) program refused
      rwa [enter_cross outside] at atOnce

/-- A join with a nested condition in a group, a second table and a cross join on a statement. -/
theorem refused_leaves_no_trace_join :
    ((start .standard).enter (.condition .whereClause .and .group)).LeadsAtOnce
      (.within (.joinOperand .left "b" "b.id" "IN") [.edit (.select ["id"])])
      ((start .standard).enter (.condition .whereClause .and .group)) ∧
    ((start .standard).table "a").LeadsAtOnce (.edit (.table "b")) ((start .standard).table "a") ∧
    Refusal.hasTable.isTold = true ∧
    (start .standard).LeadsAtOnce
      (.within (.joinOperand .cross "b" "b.id" "IN") [.edit (.select ["id"])])
      ((start .standard).join .cross "b") :=
  ⟨(refused_leaves_no_trace _).1 _ (.inr (.part rfl rfl)),
    (refused_leaves_no_trace _).1 _ (.inl rfl),
    (refused_leaves_no_trace ((start .standard).table "a")).2.1 (.edit (.table "b")) _ rfl,
    ((refused_leaves_no_trace (start .standard)).2.2 rfl "b" (.verbatim "") "b.id" "IN" _).2⟩

end Draft

end SqlDraft
