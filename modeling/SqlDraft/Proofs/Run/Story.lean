/-
**What happened to a draft.**

A story is a draft with what happened to it since it was last started over: the scopes that were
opened, the joins and unions that were added, and the conditions with the places they landed in. A
move that the draft refuses leaves no trace in it.

* `Event`: what can happen, with the slots it happened in.
* `Draft.events`: what happens in a move.
* `Story.after`: a draft after some moves, with its events.
* `Event.Paired`: a scope that stands in a condition was opened for it.
* `Story.draft_movesAll`: the draft of a story is the one that a program makes.
* `Story.exists_of_passes`: the drafts inside of a program have their stories too.
-/

import SqlDraft.Proofs.Run.Moves
import SqlDraft.Proofs.Sketch.Outline

namespace SqlDraft

/-- A place that conditions land in. -/
inductive Spot
  /-- A group. -/
  | group (root : Slot)
  /-- The `WHERE` clause of a scope. -/
  | filters (root : Slot)
  /-- The `HAVING` clause of a scope. -/
  | havings (root : Slot)
  | join (slot : Slot)
deriving DecidableEq

/-- A condition that landed somewhere. -/
structure Landing where
  logic : Connective
  content : Content

/-- What happened to a draft. -/
inductive Event
  | opened (root : Slot) (kind : ScopeKind)
  | joined (root slot : Slot) (kind : JoinKind)
  | united (root slot : Slot) (all : Bool)
  | landed (spot : Spot) (landing : Landing)

namespace Event

/-! ### Reading events -/

/-- The scopes that were opened, in the order of the calls. -/
def openings (events : List Event) : List (Slot × ScopeKind) :=
  events.filterMap fun
    | opened root kind => some (root, kind)
    | _ => none

/-- The joins that were added to a scope, in the order of the calls. -/
def joins (events : List Event) (scope : Slot) : List (Slot × JoinKind) :=
  events.filterMap fun
    | joined root slot kind => if root = scope then some (slot, kind) else none
    | _ => none

/-- The unions that were added to a scope, in the order of the calls. -/
def unions (events : List Event) (scope : Slot) : List (Slot × Bool) :=
  events.filterMap fun
    | united root slot all => if root = scope then some (slot, all) else none
    | _ => none

/-- The conditions that landed in a place, in the order of the calls. -/
def landings (events : List Event) (place : Spot) : List Landing :=
  events.filterMap fun
    | landed spot landing => if spot = place then some landing else none
    | _ => none

theorem openings_append (events more : List Event) :
    openings (events ++ more) = openings events ++ openings more :=
  List.filterMap_append

theorem mem_landings {events : List Event} {place : Spot} {landing : Landing} :
    landing ∈ landings events place ↔ .landed place landing ∈ events := by
  unfold landings
  rw [List.mem_filterMap]
  constructor
  · rintro ⟨event, member, said⟩
    cases event with
    | landed spot other =>
      change (if spot = place then some other else none) = some landing at said
      by_cases here : spot = place
      · rw [if_pos here] at said
        rwa [← here, ← Option.some.inj said]
      · rw [if_neg here] at said
        exact nomatch said
    | opened | joined | united => exact nomatch said
  · exact fun member => ⟨_, member, if_pos rfl⟩

/-- A scope that stands in a condition was opened for it. -/
def Paired (events : List Event) : Prop :=
  ∀ spot logic nested root, .landed spot ⟨logic, .scope nested root⟩ ∈ events →
    (root, nested.kind) ∈ openings events

theorem Paired.append {events more : List Event} (paired : Paired events)
    (pairedToo : Paired more) : Paired (events ++ more) := by
  intro spot logic nested root member
  rw [openings_append]
  rcases List.mem_append.mp member with before | behind
  · exact List.mem_append_left _ (paired spot logic nested root before)
  · exact List.mem_append_right _ (pairedToo spot logic nested root behind)

/-- Events in which no condition contains a scope. -/
theorem paired_of_plain {events : List Event}
    (plain : ∀ spot logic nested root, .landed spot ⟨logic, .scope nested root⟩ ∉ events) :
    Paired events := fun spot logic nested root member =>
  absurd member (plain spot logic nested root)

end Event

namespace Draft

/-! ### What happens in a move -/

/-- Where the conditions of a clause land. -/
def spot? (draft : Draft) (clause : FilterClause) : Option Spot :=
  if draft.inGroup then some (.group draft.scope.root)
  else
    match clause with
    | .whereClause => some (.filters draft.scope.root)
    | .having => some (.havings draft.scope.root)
    | .joinOn => draft.scope.join.map .join

/-- A join is added to the innermost scope unless that is a group. -/
def joinEvents (draft : Draft) (kind : JoinKind) : List Event :=
  if draft.inGroup then [] else [.joined draft.scope.root draft.store.fresh kind]

/-- A condition lands where there is a place for it. -/
def restrictEvents (draft : Draft) (clause : FilterClause) (logic : Connective)
    (condition : Condition) : List Event :=
  (draft.spot? clause).toList.map fun spot => .landed spot ⟨logic, .leaf condition.sql⟩

/-- The scope of a condition is opened where the condition lands. -/
def conditionEvents (draft : Draft) (clause : FilterClause) (logic : Connective)
    (nested : NestedCondition) : List Event :=
  (draft.spot? clause).toList.flatMap fun spot =>
    let root := (draft.openCondition clause logic nested).scope.root
    [.landed spot ⟨logic, .scope nested root⟩, .opened root nested.kind]

/-- What happens in an edit. -/
def editEvents (draft : Draft) : Edit → List Event
  | .join kind _ => draft.joinEvents kind
  | .joinOn kind table condition =>
    if draft.inGroup then []
    else draft.joinEvents kind ++ (draft.join kind table).restrictEvents .joinOn .and condition
  | .restrict clause logic condition => draft.restrictEvents clause logic condition
  | .select _ | .distinct | .table _ | .remove _ | .giveName _ | .groupBy _ | .orderBy _
  | .orderDown _ | .direct _ | .limit _ | .offset _ | .showPage _ _ => []

/-- What happens when something is opened. -/
def enterEvents (draft : Draft) : Opening → List Event
  | .table => if draft.canTakeTable then [.opened draft.openTable.scope.root .subquery] else []
  | .union all =>
    if draft.inGroup then []
    else [.united draft.scope.root draft.store.fresh all,
      .opened (draft.openUnion all).scope.root .union]
  | .joinTable kind =>
    if draft.inGroup then []
    else draft.joinEvents kind ++ [.opened (draft.openJoin kind).scope.root .subquery]
  | .joinConditions kind _ => draft.joinEvents kind
  | .joinOperand kind table column operator =>
    if draft.inGroup then []
    else draft.joinEvents kind ++
      (draft.join kind table).conditionEvents .joinOn .and (.operand column operator)
  | .condition clause logic nested => draft.conditionEvents clause logic nested

/-- What happens in a move that does not start over. -/
def events (draft : Draft) : Move → List Event
  | .edit change => draft.editEvents change
  | .enter opening => draft.enterEvents opening
  | .ask _ | .startOver | .finish | .close => []

theorem paired_joinEvents (draft : Draft) (kind : JoinKind) :
    Event.Paired (draft.joinEvents kind) := by
  refine Event.paired_of_plain fun spot logic nested root member => ?_
  unfold joinEvents at member
  split at member <;> simp at member

theorem paired_restrictEvents (draft : Draft) (clause : FilterClause) (logic : Connective)
    (condition : Condition) : Event.Paired (draft.restrictEvents clause logic condition) := by
  refine Event.paired_of_plain fun spot logic nested root member => ?_
  obtain ⟨place, -, same⟩ := List.mem_map.mp member
  exact nomatch same

theorem paired_conditionEvents (draft : Draft) (clause : FilterClause) (logic : Connective)
    (nested : NestedCondition) : Event.Paired (draft.conditionEvents clause logic nested) := by
  unfold conditionEvents
  cases draft.spot? clause with
  | none => exact Event.paired_of_plain fun _ _ _ _ => List.not_mem_nil
  | some place =>
    intro spot found inside root member
    have landed : Event.landed spot ⟨found, .scope inside root⟩ = .landed place
        ⟨logic, .scope nested (draft.openCondition clause logic nested).scope.root⟩ := by
      simpa using member
    obtain ⟨-, same⟩ := Event.landed.inj landed
    obtain ⟨-, content⟩ := Landing.mk.inj same
    obtain ⟨rfl, rfl⟩ := Content.scope.inj content
    exact List.mem_singleton_self _

theorem paired_editEvents (draft : Draft) (change : Edit) :
    Event.Paired (draft.editEvents change) := by
  cases change with
  | join kind table => exact draft.paired_joinEvents kind
  | joinOn kind table condition =>
    show Event.Paired (if draft.inGroup then [] else draft.joinEvents kind ++
      (draft.join kind table).restrictEvents .joinOn .and condition)
    split
    · exact Event.paired_of_plain fun _ _ _ _ => List.not_mem_nil
    · exact (draft.paired_joinEvents kind).append (paired_restrictEvents _ _ _ condition)
  | restrict clause logic condition => exact draft.paired_restrictEvents clause logic condition
  | select | distinct | table | remove | giveName | groupBy | orderBy | orderDown | direct | limit
  | offset | showPage => exact Event.paired_of_plain fun _ _ _ _ => List.not_mem_nil

theorem paired_enterEvents (draft : Draft) (opening : Opening) :
    Event.Paired (draft.enterEvents opening) := by
  have none : Event.Paired [] := Event.paired_of_plain fun _ _ _ _ => List.not_mem_nil
  have opened : ∀ root kind, Event.Paired [.opened root kind] := fun root kind =>
    Event.paired_of_plain fun _ _ _ _ => by simp
  cases opening with
  | table =>
    show Event.Paired (if draft.canTakeTable then _ else [])
    split
    · exact opened _ _
    · exact none
  | union all =>
    show Event.Paired (if draft.inGroup then [] else _)
    split
    · exact none
    · exact Event.paired_of_plain fun _ _ _ _ => by simp
  | joinTable kind =>
    show Event.Paired (if draft.inGroup then [] else draft.joinEvents kind ++ _)
    split
    · exact none
    · exact (draft.paired_joinEvents kind).append (opened _ _)
  | joinConditions kind table => exact draft.paired_joinEvents kind
  | joinOperand kind table column operator =>
    show Event.Paired (if draft.inGroup then [] else draft.joinEvents kind ++
      (draft.join kind table).conditionEvents .joinOn .and (.operand column operator))
    split
    · exact none
    · exact (draft.paired_joinEvents kind).append (paired_conditionEvents _ _ _ _)
  | condition clause logic nested => exact draft.paired_conditionEvents clause logic nested

/-- **Every scope in a condition was opened for it.** -/
theorem paired_events (draft : Draft) (move : Move) : Event.Paired (draft.events move) := by
  cases move with
  | edit change => exact draft.paired_editEvents change
  | enter opening => exact draft.paired_enterEvents opening
  | ask | startOver | finish | close => exact Event.paired_of_plain fun _ _ _ _ => List.not_mem_nil

end Draft

/-- A draft with what happened to it since it was last started over. -/
structure Story where
  draft : Draft
  events : List Event

namespace Story

/-- The story of a draft in which nothing was said. -/
def new (draft : Draft) : Story := ⟨draft, [.opened draft.root .statement]⟩

/-- A story goes on, or starts over. -/
def step (story : Story) (move : Move) : Story :=
  match move with
  | .startOver | .finish => new (story.draft.move move)
  | move => ⟨story.draft.move move, story.events ++ story.draft.events move⟩

/-- The story of some moves. -/
def after (settings : Settings) (moves : List Move) : Story :=
  moves.foldl step (new (Draft.start settings))

theorem draft_step (story : Story) (move : Move) :
    (story.step move).draft = story.draft.move move := by
  cases move <;> rfl

theorem draft_foldl (story : Story) (moves : List Move) :
    (moves.foldl step story).draft = moves.foldl Draft.move story.draft := by
  induction moves generalizing story with
  | nil => rfl
  | cons move rest further => rw [List.foldl_cons, List.foldl_cons, further, draft_step]

/-- **A program makes the draft of the story of its moves.** -/
theorem draft_movesAll (settings : Settings) (program : List Call) :
    (after settings (Call.movesAll (Draft.start settings) program)).draft =
      Call.runAll (Draft.start settings) program := by
  unfold after
  rw [draft_foldl]
  exact Call.foldl_movesAll (Draft.start settings) program

theorem paired_new (draft : Draft) : Event.Paired (new draft).events :=
  Event.paired_of_plain fun _ _ _ _ => by simp [new]

/-- **After any moves, every scope in a condition was opened for it.** -/
theorem paired_after (settings : Settings) (moves : List Move) :
    Event.Paired (after settings moves).events := by
  unfold after
  induction moves using List.reverseRecOn with
  | nil => exact paired_new _
  | append_singleton moves move step =>
    rw [List.foldl_concat]
    cases move with
    | startOver | finish => exact paired_new _
    | edit | ask | enter | close => exact step.append (Draft.paired_events _ _)

/-- **Every draft that a program passes through is the draft of a story.** -/
theorem exists_of_passes {settings : Settings} {program : List Call} {found : Draft}
    (passes : Call.Passes (Draft.start settings) program found) :
    ∃ moves, (after settings moves).draft = found := by
  obtain ⟨moves, -, made⟩ := passes.exists_moves
  refine ⟨moves, ?_⟩
  unfold after
  rw [draft_foldl]
  exact made

end Story

end SqlDraft
