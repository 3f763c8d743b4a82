/-
**Starting over inside of calls.**

A program may start a draft over while calls around it are being filled. They go on with the new draft
then, find nothing of theirs to close and leave it as it is:

* `Draft.make`: the settings of a draft and the size of the chunks that its store reserves.
* `Draft.make_apply`, `Draft.make_enter`, `Draft.make_close`: what does not start over keeps them.
* `Draft.startOver_eq_start`: a draft that is started over is new.
* `Call.Comes`: a program comes to a call, with the calls around it and those that begin after it.
* **`Call.starting_over_forgets`**: a program that starts over is the calls that begin after that.
-/

import SqlDraft.Proofs.Run.Unwinding

namespace SqlDraft

namespace Store

variable (store : Store)

/-! ### The size of the chunks -/

@[simp]
theorem chunkSize_update (slot : Slot) (change : Node → Node) :
    (store.update slot change).chunkSize = store.chunkSize := rfl

@[simp]
theorem chunkSize_setNext (slot : Slot) (next : Option Slot) :
    (store.setNext slot next).chunkSize = store.chunkSize := rfl

@[simp]
theorem chunkSize_setChild (slot : Slot) (child : Option Slot) :
    (store.setChild slot child).chunkSize = store.chunkSize := rfl

@[simp]
theorem chunkSize_setPayload (slot : Slot) (payload : Payload) :
    (store.setPayload slot payload).chunkSize = store.chunkSize := rfl

@[simp]
theorem chunkSize_linkLast (parent slot : Slot) :
    (store.linkLast parent slot).chunkSize = store.chunkSize := by
  unfold linkLast
  split <;> rfl

@[simp]
theorem chunkSize_linkFirst (parent slot : Slot) :
    (store.linkFirst parent slot).chunkSize = store.chunkSize := rfl

@[simp]
theorem chunkSize_linkAfter (previous slot : Slot) :
    (store.linkAfter previous slot).chunkSize = store.chunkSize := rfl

@[simp]
theorem chunkSize_addChild (parent : Slot) (payload : Payload) :
    (store.addChild parent payload).chunkSize = store.chunkSize := by
  simp [addChild]

@[simp]
theorem chunkSize_addClause (parent : Slot) (keyword : Keyword) :
    (store.addClause parent keyword).chunkSize = store.chunkSize := by
  unfold addClause
  dsimp only
  split <;> simp

@[simp]
theorem chunkSize_ensureClause (parent : Slot) (keyword : Keyword) :
    (store.ensureClause parent keyword).chunkSize = store.chunkSize := by
  unfold ensureClause
  split <;> simp

@[simp]
theorem chunkSize_eraseChild (parent slot : Slot) :
    (store.eraseChild parent slot).chunkSize = store.chunkSize := by
  unfold eraseChild detach
  dsimp only
  split
  · split
    · simp
    · split <;> simp
  · rfl

@[simp]
theorem chunkSize_discardChain (bound : Nat) (first : Option Slot) :
    (discardChain bound first store).chunkSize = store.chunkSize := by
  induction bound generalizing first store with
  | zero => rfl
  | succ bound step =>
    cases first with
    | none => rfl
    | some slot => rw [discardChain, step, chunkSize_discard, chunkSize_setNext]

@[simp]
theorem chunkSize_eraseChildren (parent : Slot) :
    (store.eraseChildren parent).chunkSize = store.chunkSize := by
  simp [eraseChildren]

@[simp]
theorem chunkSize_pushColumn (clause : Slot) (column : String) :
    (store.pushColumn clause column).chunkSize = store.chunkSize := by
  unfold pushColumn
  split <;> simp

@[simp]
theorem chunkSize_pushColumns (clause : Slot) (columns : List String) :
    (store.pushColumns clause columns).chunkSize = store.chunkSize := by
  unfold pushColumns
  induction columns generalizing store with
  | nil => rfl
  | cons column rest step => rw [List.foldl_cons, step, chunkSize_pushColumn]

@[simp]
theorem chunkSize_dropStar (clause : Slot) :
    (store.dropStar clause).chunkSize = store.chunkSize := by
  unfold dropStar
  split
  · split <;> simp
  · rfl

@[simp]
theorem chunkSize_setLimit (clause : Slot) (count : UInt64) :
    (store.setLimit clause count).chunkSize = store.chunkSize := by
  unfold setLimit
  dsimp only
  split <;> simp

@[simp]
theorem chunkSize_setCount (parent : Slot) (count : UInt64) :
    (store.setCount parent count).chunkSize = store.chunkSize := by
  unfold setCount
  split <;> simp

@[simp]
theorem chunkSize_setOffset (clause : Slot) (count : UInt64) :
    (store.setOffset clause count).chunkSize = store.chunkSize := by
  unfold setOffset
  split <;> simp

@[simp]
theorem chunkSize_placeCondition (place : Slot) (logic : Connective) :
    (store.placeCondition place logic).chunkSize = store.chunkSize := by
  unfold placeCondition pushMark
  dsimp only
  split <;> simp

end Store

namespace Draft

/-! ### What a draft was made with -/

/-- The settings of a draft and the size of the chunks that its store reserves. -/
def make (draft : Draft) : Settings × Nat := (draft.settings, draft.store.chunkSize)

variable (draft : Draft)

@[simp]
theorem make_adjust (change : Scope → Scope) : (draft.adjust change).make = draft.make := by
  unfold adjust
  split <;> rfl

theorem make_alter {change : Store → Store}
    (same : (change draft.store).chunkSize = draft.store.chunkSize) :
    (draft.alter change).make = draft.make :=
  congrArg (Prod.mk draft.settings) same

@[simp]
theorem make_addCommand (keyword : Keyword) : (draft.addCommand keyword).make = draft.make := by
  simp [addCommand, make_alter]

@[simp]
theorem make_select (columns : List String) : (draft.select columns).make = draft.make := by
  have commanded : draft.withCommand.make = draft.make := by
    unfold withCommand
    split <;> simp
  unfold select
  split
  · rfl
  · dsimp only
    split
    · exact commanded
    · rw [make_adjust, make_alter _ (by simp), commanded]

@[simp]
theorem make_distinct : draft.distinct.make = draft.make := by
  unfold distinct
  split
  · rfl
  · split
    · rw [make_alter _ (by simp), make_addCommand]
    · split
      · exact make_alter _ (by simp)
      · rfl

@[simp]
theorem make_addTable : draft.addTable.make = draft.make := by
  simp [addTable, make_alter]

@[simp]
theorem make_table (name : String) : (draft.table name).make = draft.make := by
  unfold table
  split
  · rw [make_adjust, make_alter _ (by simp), make_addTable]
  · rfl

@[simp]
theorem make_startJoin (kind : JoinKind) : (draft.startJoin kind).make = draft.make := by
  simp [startJoin, make_alter]

@[simp]
theorem make_join (kind : JoinKind) (table : String) :
    (draft.join kind table).make = draft.make := by
  unfold join
  split
  · rfl
  · rw [make_adjust, make_alter _ (by simp), make_startJoin]

@[simp]
theorem make_giveName (name : String) : (draft.giveName name).make = draft.make := by
  unfold giveName
  split
  · rfl
  · split
    · split <;> exact make_alter _ (by simp)
    · exact make_alter _ (by simp)

@[simp]
theorem make_remove (removal : Removal) : (draft.remove removal).make = draft.make := by
  have replaced (clause : Slot) : (draft.replaceCommand removal clause).make = draft.make := by
    rw [replaceCommand, make_adjust, make_alter _ (by simp)]
  unfold remove
  split
  · rfl
  · cases draft.scope.command with
    | none =>
      dsimp only
      split
      · rw [make_alter _ (by simp), make_addCommand]
      · exact draft.make_addCommand removal.keyword
    | some clause =>
      dsimp only
      split
      · rw [make_alter _ (by simp), replaced]
      · exact replaced clause

@[simp]
theorem make_withConditions (clause : FilterClause) :
    (draft.withConditions clause).make = draft.make := by
  unfold withConditions
  split
  · rfl
  · split
    · exact make_alter _ (by simp)
    · exact make_alter _ (by simp)
    · split
      · rfl
      · split
        · rfl
        · exact make_alter _ (by simp)

@[simp]
theorem make_restrict (clause : FilterClause) (logic : Connective) (condition : Condition) :
    (draft.restrict clause logic condition).make = draft.make := by
  unfold restrict
  split
  · rfl
  · rw [make_alter _ (by simp), make_withConditions]

@[simp]
theorem make_listColumns (keyword : Keyword) (columns : List String) :
    (draft.listColumns keyword columns).make = draft.make := by
  unfold listColumns
  split
  · rfl
  · exact make_alter _ (by simp)

@[simp]
theorem make_direct (direction : Direction) : (draft.direct direction).make = draft.make := by
  unfold direct
  split
  · rfl
  · split
    · rfl
    · split
      · exact make_alter _ (by simp)
      · split <;> exact make_alter _ (by simp)

theorem make_withLimitClause : draft.withLimitClause.make = draft.make := by
  unfold withLimitClause
  split
  · rfl
  · exact make_alter _ (by simp)

@[simp]
theorem make_limit (count : UInt64) : (draft.limit count).make = draft.make := by
  unfold limit
  split
  · rfl
  · rw [make_alter _ (by simp), make_withLimitClause]

@[simp]
theorem make_offset (count : UInt64) : (draft.offset count).make = draft.make := by
  unfold offset
  split
  · rfl
  · rw [make_alter _ (by simp), make_withLimitClause]

/-- **An edit keeps what a draft was made with.** -/
theorem make_apply (change : Edit) : (draft.apply change).make = draft.make := by
  cases change with
  | joinOn kind table condition =>
    show (draft.joinOn kind table condition).make = draft.make
    unfold joinOn
    split <;> simp
  | orderDown columns => exact (make_direct _ _).trans (draft.make_listColumns .orderBy columns)
  | showPage perPage page => exact (make_offset _ _).trans (draft.make_limit perPage)
  | select | distinct | table | remove | giveName | join | restrict | groupBy | orderBy | direct
  | limit | offset => simp [apply, groupBy, orderBy]

@[simp]
theorem make_openBelow (parent : Slot) (kind : ScopeKind) (handback : Handback) :
    (draft.openBelow parent kind handback).make = draft.make :=
  congrArg (Prod.mk draft.settings) (Store.chunkSize_addChild _ parent .blank)

@[simp]
theorem make_openCondition (clause : FilterClause) (logic : Connective)
    (nested : NestedCondition) : (draft.openCondition clause logic nested).make = draft.make := by
  have lead (draft : Draft) (slot : Slot) : (draft.pushLead slot nested).make = draft.make := by
    unfold pushLead
    split
    · exact make_alter _ (by simp)
    · rfl
  unfold openCondition
  split
  · rfl
  · rw [make_openBelow, lead, make_alter _ (by simp), make_withConditions]

/-- **Opening something keeps what a draft was made with.** -/
theorem make_enter (opening : Opening) : (draft.enter opening).make = draft.make := by
  cases opening with
  | table =>
    show draft.openTable.make = draft.make
    unfold openTable
    split <;> simp
  | union all =>
    show (draft.openUnion all).make = draft.make
    unfold openUnion
    split
    · rfl
    · rw [make_openBelow, make_alter _ (by simp)]
  | joinTable kind =>
    show (draft.openJoin kind).make = draft.make
    unfold openJoin
    split <;> simp
  | joinConditions kind table => exact draft.make_join kind table
  | joinOperand kind table column operator =>
    show (if draft.inGroup then draft else _).make = draft.make
    split <;> simp
  | condition clause logic nested => exact draft.make_openCondition clause logic nested

theorem make_close : draft.close.make = draft.make := by
  have completed (store : Store) (scope : Scope) :
      (completeProjection store scope).chunkSize = store.chunkSize := by
    unfold completeProjection
    split <;> simp
  unfold close
  split
  · rfl
  · next closed outer nested =>
    rw [make_adjust]
    refine congrArg (Prod.mk draft.settings) ?_
    unfold parenthesize
    split <;> simp [completed]

theorem make_asked (question : Question) : (draft.asked question).make = draft.make := by
  cases question <;> rfl

/-! ### Drafts that are started over -/

/-- The store reserves slots as the settings say. -/
def Fitted (draft : Draft) : Prop := draft.store.chunkSize = max draft.settings.chunkSize.toNat 1

variable {draft}

theorem Fitted.of_make {other : Draft} (fitted : draft.Fitted) (same : other.make = draft.make) :
    other.Fitted := by
  have settings : other.settings = draft.settings := congrArg Prod.fst same
  have chunkSize : other.store.chunkSize = draft.store.chunkSize := congrArg Prod.snd same
  rw [Fitted, settings, chunkSize]
  exact fitted

theorem fitted_start (settings : Settings) : (start settings).Fitted :=
  Store.chunkSize_allocate _ _

/-- **A draft that is started over is a new one in the same settings.** -/
theorem startOver_eq_start (fitted : draft.Fitted) : draft.startOver = start draft.settings := by
  have reset : draft.store.reset = Store.empty draft.settings.chunkSize.toNat := by
    unfold Store.reset Store.empty
    rw [fitted, Nat.max_assoc, Nat.max_self]
  unfold startOver start
  rw [reset]

/-- Every move keeps a store that reserves slots as the settings say. -/
theorem Fitted.move (fitted : draft.Fitted) (move : Move) : (draft.move move).Fitted := by
  cases move with
  | edit change => exact fitted.of_make (draft.make_apply change)
  | ask question => exact fitted.of_make (draft.make_asked question)
  | startOver =>
    rw [Draft.move, startOver_eq_start fitted]
    exact fitted_start _
  | finish => exact fitted_start _
  | enter opening => exact fitted.of_make (draft.make_enter opening)
  | close => exact fitted.of_make draft.make_close

theorem Fitted.moves (fitted : draft.Fitted) (moves : List Move) :
    (moves.foldl Draft.move draft).Fitted := by
  induction moves generalizing draft with
  | nil => exact fitted
  | cons move rest step => exact step (fitted.move move)

/-- Wherever a program passes through, the store reserves slots as the settings say. -/
theorem fitted_of_passes {settings : Settings} {program : List Call} {found : Draft}
    (passes : Call.Passes (start settings) program found) : found.Fitted := by
  obtain ⟨moves, -, rfl⟩ := passes.exists_moves
  exact (fitted_start settings).moves moves

end Draft

namespace Call

/-! ### What begins after a call -/

/-- A call that is being filled by a program: where it began, and what it opened there. -/
structure Suspended where
  before : Draft
  opening : Opening
  program : List Call

namespace Suspended

/-- The draft of a suspended call when its program is over. -/
def filled (suspended : Suspended) : Draft :=
  runAll (suspended.before.enter suspended.opening) suspended.program

/-- The draft when the suspended call is over. -/
def left (suspended : Suspended) : Draft :=
  run suspended.before (.within suspended.opening suspended.program)

end Suspended

/-- **A program comes to a call**, in a draft. The calls around it are suspended, the innermost one
first. After it begin the calls behind it, then those behind the innermost suspended call, and so on
outwards. -/
inductive Comes : Draft → List Call → Draft → Call → List Suspended → List Call → Prop
  | here (draft : Draft) (call : Call) (rest : List Call) : Comes draft (call :: rest) draft call [] rest
  | later {draft point : Draft} {call found : Call} {rest after : List Call}
      {around : List Suspended} (further : Comes (run draft call) rest point found around after) :
      Comes draft (call :: rest) point found around after
  | inside {draft point : Draft} {opening : Opening} {found : Call} {program rest after : List Call}
      {around : List Suspended} (admits : draft.admits opening = true)
      (deeper : Comes (draft.enter opening) program point found around after) :
      Comes draft (.within opening program :: rest) point found
        (around ++ [⟨draft, opening, program⟩]) (after ++ rest)

/-- A call starts over, with a new draft in some settings: in those of the draft, or in the standard
ones if the draft is finished. -/
inductive Renews (point : Draft) : Call → Settings → Prop
  | startOver : Renews point .startOver point.settings
  | finish : Renews point .finish .standard

variable {draft point : Draft} {program after : List Call} {call : Call} {around : List Suspended}
  {settings : Settings}

/-- A program passes through the drafts that it comes to a call in. -/
theorem Comes.passes (comes : Comes draft program point call around after) :
    Passes draft program point := by
  induction comes with
  | here draft call rest => exact .here draft _
  | later _ step => exact .later step
  | inside admits _ step => exact .inside admits step

theorem Renews.run_eq (renews : Renews point call settings) (fitted : point.Fitted) :
    run point call = Draft.start settings := by
  cases renews with
  | startOver => exact Draft.startOver_eq_start fitted
  | finish => rfl

/-- **After a call that leaves no scope open, only the calls that begin behind it are felt.** The
calls around it close nothing. -/
theorem Comes.runAll_eq (comes : Comes draft program point call around after)
    (alone : (run point call).depth = 1) :
    runAll draft program = runAll (run point call) after ∧
      ∀ suspended ∈ around, suspended.filled.depth = 1 ∧ suspended.left = suspended.filled := by
  induction comes with
  | here draft call rest => exact ⟨rfl, fun suspended among => nomatch among⟩
  | later _ step => exact step alone
  | @inside draft point opening call program rest after around admits _ step =>
    obtain ⟨same, idle⟩ := step alone
    have few : (runAll (draft.enter opening) program).depth = 1 := by
      rw [same]
      exact Draft.depth_runAll_of_depth_one alone after
    have left : run draft (.within opening program) = runAll (draft.enter opening) program := by
      rw [run, if_pos admits, Draft.leave, Draft.closeTo_of_depth_le (few.trans_le draft.depth_pos)]
    refine ⟨?_, fun suspended among => ?_⟩
    · rw [runAll, left, same, runAll_append]
    · rcases List.mem_append.mp among with inner | outermost
      · exact idle suspended inner
      · obtain rfl := List.mem_singleton.mp outermost
        exact ⟨few, left⟩

/-- **A program that starts over is the calls that begin after that.** Wherever a program comes to a
call that starts over, at any depth, the draft in the end is the one that the calls beginning after it
make of a new draft. The calls around it are over then with the draft that their programs leave,
which has no scope open: they close none and change nothing. -/
theorem starting_over_forgets (settings : Settings) {renewed : Settings}
    (comes : Comes (Draft.start settings) program point call around after)
    (renews : Renews point call renewed) :
    runAll (Draft.start settings) program = runAll (Draft.start renewed) after ∧
      ∀ suspended ∈ around, suspended.filled.depth = 1 ∧ suspended.left = suspended.filled := by
  have fresh := renews.run_eq (Draft.fitted_of_passes comes.passes)
  rw [← fresh]
  exact comes.runAll_eq (fresh ▸ rfl)

/-- A statement with a condition on another one, which starts over while a table is joined there. -/
def startsOverInJoin : List Call :=
  [.edit (.table "a"),
    .within (.condition .whereClause .and .existence)
      [.edit (.table "b"),
        .within (.joinTable .left) [.edit (.table "c"), .startOver, .edit (.table "d")],
        .edit (.limit 3)],
    .edit (.select ["x"])]

/-- The table, the limit and the columns that are said after starting over make a new statement. -/
theorem starting_over_forgets_join :
    ∃ point around, Comes (Draft.start ⟨.mysql, 2, 0⟩) startsOverInJoin point .startOver around
        [.edit (.table "d"), .edit (.limit 3), .edit (.select ["x"])] ∧
      point.depth = 3 ∧ around.length = 2 ∧ Renews point .startOver ⟨.mysql, 2, 0⟩ ∧
      runAll (Draft.start ⟨.mysql, 2, 0⟩) startsOverInJoin = runAll (Draft.start ⟨.mysql, 2, 0⟩)
        [.edit (.table "d"), .edit (.limit 3), .edit (.select ["x"])] ∧
      (runAll (Draft.start ⟨.mysql, 2, 0⟩) startsOverInJoin).text = "SELECT x FROM d LIMIT 3" := by
  have comes : Comes (Draft.start ⟨.mysql, 2, 0⟩) startsOverInJoin _ .startOver _
      (([.edit (.table "d")] ++ [.edit (.limit 3)]) ++ [.edit (.select ["x"])]) :=
    .later (.inside rfl (.later (.inside rfl (.later (.here _ _ _)))))
  have forgets := starting_over_forgets _ comes .startOver
  refine ⟨_, _, comes, rfl, rfl, .startOver, forgets.1, ?_⟩
  refine (congrArg Draft.text forgets.1).trans ?_
  decide +kernel

end Call

end SqlDraft
