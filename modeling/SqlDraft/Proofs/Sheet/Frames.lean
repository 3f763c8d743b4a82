/-
**The frames of the open scopes.**

What a call says changes what the innermost scope remembers. Which scopes are open, of which kinds and
with what they hand back, changes only where a scope is opened or closed:

* `Draft.frames`: the open scopes without what they remember.
* `Draft.frames_apply`: an edit leaves them as they are.
* `Draft.frames_close`: a scope that is closed is no longer among them.
* `Draft.root_enter`, `Draft.root_close`: the node of the statement stays the same.
-/

import SqlDraft.Draft.Edit
import SqlDraft.Proofs.Sketch.Closing

namespace SqlDraft

/-- A scope without what it remembers. -/
def Scope.frame (scope : Scope) : Slot × ScopeKind × Handback :=
  (scope.root, scope.kind, scope.handback)

namespace Draft

/-- The open scopes without what they remember, the innermost first. -/
def frames (draft : Draft) : List (Slot × ScopeKind × Handback) := draft.opens.map Scope.frame

variable (draft : Draft)

theorem frames_eq : draft.frames = draft.scope.frame :: draft.around.map Scope.frame := by
  rw [frames, opens_eq, List.map_cons]

theorem depth_eq_length : draft.depth = draft.frames.length := by
  rw [frames, List.length_map, opens, List.length_append]
  rfl

variable {draft} {other : Draft}

/-- Drafts with the same frames have the same innermost scope. -/
theorem frame_eq (same : other.frames = draft.frames) : other.scope.frame = draft.scope.frame := by
  rw [frames_eq, frames_eq] at same
  exact (List.cons.inj same).1

theorem scope_root_eq (same : other.frames = draft.frames) :
    other.scope.root = draft.scope.root :=
  congrArg Prod.fst (frame_eq same)

theorem inGroup_eq (same : other.frames = draft.frames) : other.inGroup = draft.inGroup := by
  have kind : other.scope.kind = draft.scope.kind :=
    congrArg (fun frame => frame.2.1) (frame_eq same)
  rw [inGroup, inGroup, kind]

theorem root_eq (same : other.frames = draft.frames) : other.root = draft.root := by
  have last : ∀ draft : Draft, draft.frames.getLast? = some draft.base.frame := fun draft => by
    rw [frames, opens, List.map_append]
    exact List.getLast?_concat
  exact congrArg Prod.fst (Option.some.inj ((last other).symm.trans (same ▸ last draft)))

theorem depth_eq (same : other.frames = draft.frames) : other.depth = draft.depth := by
  rw [depth_eq_length, depth_eq_length, same]

/-- Drafts with the same open scopes have the same innermost scope. -/
theorem scope_eq (same : other.opens = draft.opens) : other.scope = draft.scope := by
  rw [opens_eq, opens_eq] at same
  exact (List.cons.inj same).1

theorem frames_eq_of_opens (same : other.opens = draft.opens) : other.frames = draft.frames :=
  congrArg (List.map Scope.frame) same

/-! ### What no open scope remembers -/

variable (draft)

theorem opens_giveName (name : String) : (draft.giveName name).opens = draft.opens := by
  unfold giveName
  split
  · rfl
  · split
    · split <;> rfl
    · rfl

theorem opens_withConditions (clause : FilterClause) :
    (draft.withConditions clause).opens = draft.opens := by
  unfold withConditions
  split
  · rfl
  · split
    · rfl
    · rfl
    · split
      · rfl
      · split <;> rfl

theorem opens_restrict (clause : FilterClause) (logic : Connective) (condition : Condition) :
    (draft.restrict clause logic condition).opens = draft.opens := by
  unfold restrict
  split
  · rfl
  · exact draft.opens_withConditions clause

theorem opens_listColumns (keyword : Keyword) (columns : List String) :
    (draft.listColumns keyword columns).opens = draft.opens := by
  unfold listColumns
  split <;> rfl

theorem opens_direct (direction : Direction) : (draft.direct direction).opens = draft.opens := by
  unfold direct
  split
  · rfl
  · split
    · rfl
    · split
      · rfl
      · split <;> rfl

theorem opens_orderDown (columns : List String) :
    (draft.orderDown columns).opens = draft.opens :=
  (opens_direct _ _).trans (draft.opens_listColumns .orderBy columns)

theorem opens_withLimitClause : draft.withLimitClause.opens = draft.opens := by
  unfold withLimitClause
  split <;> rfl

theorem opens_limit (count : UInt64) : (draft.limit count).opens = draft.opens := by
  unfold limit
  split
  · rfl
  · exact draft.opens_withLimitClause

theorem opens_offset (count : UInt64) : (draft.offset count).opens = draft.opens := by
  unfold offset
  split
  · rfl
  · exact draft.opens_withLimitClause

theorem opens_showPage (perPage page : UInt64) :
    (draft.showPage perPage page).opens = draft.opens :=
  (opens_offset _ _).trans (draft.opens_limit perPage)

theorem opens_pushLead (slot : Slot) (nested : NestedCondition) :
    (draft.pushLead slot nested).opens = draft.opens := by
  unfold pushLead
  split <;> rfl

/-! ### Edits -/

theorem frames_adjust {change : Scope → Scope} (same : ∀ scope, (change scope).frame = scope.frame) :
    (draft.adjust change).frames = draft.frames := by
  rw [frames, opens_adjust, List.map_cons, same, frames_eq]

theorem frames_alter (change : Store → Store) : (draft.alter change).frames = draft.frames := rfl

theorem frames_addCommand (keyword : Keyword) : (draft.addCommand keyword).frames = draft.frames :=
  frames_adjust _ fun _ => rfl

theorem frames_select (columns : List String) : (draft.select columns).frames = draft.frames := by
  have projecting : draft.withCommand.frames = draft.frames := by
    unfold withCommand
    split
    · rfl
    · exact draft.frames_addCommand .select
  unfold select
  split
  · rfl
  · dsimp only
    split
    · exact projecting
    · exact Eq.trans (frames_adjust _ fun _ => rfl) projecting

theorem frames_distinct : draft.distinct.frames = draft.frames := by
  unfold distinct
  split
  · rfl
  · split
    · exact draft.frames_addCommand .selectDistinct
    · split <;> rfl

theorem frames_table (name : String) : (draft.table name).frames = draft.frames := by
  unfold table
  split
  · exact Eq.trans (frames_adjust _ fun _ => rfl) (frames_adjust _ fun _ => rfl)
  · rfl

theorem frames_remove (removal : Removal) : (draft.remove removal).frames = draft.frames := by
  unfold remove
  split
  · rfl
  · cases draft.scope.command with
    | none =>
      have commanded := draft.frames_addCommand removal.keyword
      dsimp only
      split
      · exact commanded
      · exact commanded
    | some clause =>
      have commanded : (draft.replaceCommand removal clause).frames = draft.frames :=
        frames_adjust _ fun _ => rfl
      dsimp only
      split
      · exact commanded
      · exact commanded

theorem frames_giveName (name : String) : (draft.giveName name).frames = draft.frames :=
  frames_eq_of_opens (draft.opens_giveName name)

theorem frames_startJoin (kind : JoinKind) : (draft.startJoin kind).frames = draft.frames :=
  frames_adjust _ fun _ => rfl

theorem frames_join (kind : JoinKind) (table : String) :
    (draft.join kind table).frames = draft.frames := by
  unfold join
  split
  · rfl
  · exact Eq.trans (frames_adjust _ fun _ => rfl) (draft.frames_startJoin kind)

theorem frames_restrict (clause : FilterClause) (logic : Connective) (condition : Condition) :
    (draft.restrict clause logic condition).frames = draft.frames :=
  frames_eq_of_opens (draft.opens_restrict clause logic condition)

theorem frames_listColumns (keyword : Keyword) (columns : List String) :
    (draft.listColumns keyword columns).frames = draft.frames :=
  frames_eq_of_opens (draft.opens_listColumns keyword columns)

theorem frames_direct (direction : Direction) : (draft.direct direction).frames = draft.frames :=
  frames_eq_of_opens (draft.opens_direct direction)

theorem frames_limit (count : UInt64) : (draft.limit count).frames = draft.frames :=
  frames_eq_of_opens (draft.opens_limit count)

theorem frames_offset (count : UInt64) : (draft.offset count).frames = draft.frames :=
  frames_eq_of_opens (draft.opens_offset count)

/-- **An edit opens and closes no scope.** -/
theorem frames_apply (change : Edit) : (draft.apply change).frames = draft.frames := by
  cases change with
  | select columns => exact draft.frames_select columns
  | distinct => exact draft.frames_distinct
  | table name => exact draft.frames_table name
  | remove removal => exact draft.frames_remove removal
  | giveName name => exact draft.frames_giveName name
  | join kind table => exact draft.frames_join kind table
  | joinOn kind table condition =>
    show (draft.joinOn kind table condition).frames = draft.frames
    unfold joinOn
    split
    · rfl
    · exact (frames_restrict _ _ _ _).trans (draft.frames_join kind table)
  | restrict clause logic condition => exact draft.frames_restrict clause logic condition
  | groupBy columns => exact draft.frames_listColumns .groupBy columns
  | orderBy columns => exact draft.frames_listColumns .orderBy columns
  | orderDown columns => exact frames_eq_of_opens (draft.opens_orderDown columns)
  | direct direction => exact draft.frames_direct direction
  | limit count => exact draft.frames_limit count
  | offset count => exact draft.frames_offset count
  | showPage perPage page => exact frames_eq_of_opens (draft.opens_showPage perPage page)

/-! ### Scopes that are opened and closed -/

theorem frames_openBelow (parent : Slot) (kind : ScopeKind) (handback : Handback) :
    (draft.openBelow parent kind handback).frames =
      ((draft.openBelow parent kind handback).scope.root, kind, handback) :: draft.frames := rfl

theorem frames_openTable (can : draft.canTakeTable = true) :
    draft.openTable.frames =
      (draft.openTable.scope.root, .subquery, ⟨true, false⟩) :: draft.frames := by
  have added : draft.addTable.frames = draft.frames := frames_adjust _ fun _ => rfl
  rw [openTable, if_pos can, frames_openBelow, added]

theorem frames_openUnion (plain : draft.inGroup = false) (all : Bool) :
    (draft.openUnion all).frames =
      ((draft.openUnion all).scope.root, .union, ⟨false, false⟩) :: draft.frames := by
  rw [openUnion, plain, if_neg Bool.false_ne_true, frames_openBelow]
  rfl

theorem frames_openJoin (plain : draft.inGroup = false) (kind : JoinKind) :
    (draft.openJoin kind).frames =
      ((draft.openJoin kind).scope.root, .subquery, ⟨true, true⟩) :: draft.frames := by
  rw [openJoin, plain, if_neg Bool.false_ne_true, frames_openBelow, frames_startJoin]

theorem frames_openCondition {clause : FilterClause}
    (takes : (draft.conditionPlace? clause).isSome = true) (logic : Connective)
    (nested : NestedCondition) : (draft.openCondition clause logic nested).frames =
      ((draft.openCondition clause logic nested).scope.root, nested.kind,
        ⟨false, clause = .joinOn⟩) :: draft.frames := by
  obtain ⟨place, known⟩ := Option.isSome_iff_exists.mp takes
  rw [openCondition, known]
  dsimp only
  rw [frames_openBelow, frames_eq_of_opens (opens_pushLead _ _ _), frames_alter,
    frames_eq_of_opens (draft.opens_withConditions clause)]

/-- **A scope that is closed is no longer open, and the others stay.** -/
theorem frames_close {inner : Slot × ScopeKind × Handback}
    {outer : List (Slot × ScopeKind × Handback)} (among : draft.frames = inner :: outer)
    (inside : outer ≠ []) : draft.close.frames = outer := by
  cases nested : draft.nested with
  | nil =>
    rw [frames, opens, nested] at among
    exact absurd (List.cons.inj among).2.symm inside
  | cons closed further =>
    obtain ⟨resting, around, -, -, closing⟩ := Sketched.exists_resting nested
    rw [frames_eq] at among
    rw [closing]
    refine Eq.trans (frames_adjust _ fun _ => rfl) ?_
    rw [frames, around]
    exact (List.cons.inj among).2

/-! ### The node of the statement -/

/-- Opening the scope of a condition keeps the node of the statement. -/
theorem root_openCondition (clause : FilterClause) (logic : Connective)
    (nested : NestedCondition) : (draft.openCondition clause logic nested).root = draft.root := by
  have leads (change : Store → Store) (slot : Slot) :
      (((draft.withConditions clause).alter change).pushLead slot nested).root = draft.root :=
    root_eq (frames_eq_of_opens
      ((opens_pushLead _ slot nested).trans (draft.opens_withConditions clause)))
  unfold openCondition
  split
  · rfl
  · exact leads _ _

/-- What is opened or closed is inside of the statement. -/
theorem root_enter (opening : Opening) : (draft.enter opening).root = draft.root := by
  cases opening with
  | table =>
    show draft.openTable.root = draft.root
    unfold openTable
    split
    · exact root_adjust _ rfl
    · rfl
  | union all =>
    show (draft.openUnion all).root = draft.root
    unfold openUnion
    split <;> rfl
  | joinTable kind =>
    show (draft.openJoin kind).root = draft.root
    unfold openJoin
    split
    · rfl
    · show (draft.startJoin kind).root = draft.root
      exact root_eq (draft.frames_startJoin kind)
  | joinConditions kind table => exact root_eq (draft.frames_join kind table)
  | joinOperand kind table column operator =>
    show (if draft.inGroup then draft else _).root = draft.root
    split
    · rfl
    · exact (root_openCondition _ _ _ _).trans (root_eq (draft.frames_join kind table))
  | condition clause logic nested => exact draft.root_openCondition clause logic nested

theorem root_close : draft.close.root = draft.root := by
  unfold close
  split
  · rfl
  · exact root_adjust _ rfl

end Draft

end SqlDraft
