/-
**What is said in a scope stays in it.**

All scopes of a draft stand in one tree, and slots that one of them gives back are handed out again to
another one. Still no program that fills a scope changes anything around it:

* `Draft.Descends`: a scope is opened inside the innermost one.
* `Draft.Stays`: a draft goes on in a scope, or in further scopes inside of it.
* `Drawing.tends_runAll`: a program that goes on with the draft goes on in its scope.
* `Drawing.stays_of_passes`: so does all that it passes through.
* **`Draft.scope_is_local`**: what filling and closing a scope changes.
-/

import SqlDraft.Proofs.Run.StartingOver
import SqlDraft.Proofs.Run.Tending
import SqlDraft.Proofs.Sheet.Programs

namespace SqlDraft

/-- A scope is opened whose name is taken by what comes behind it. -/
def Opening.takesName : Opening → Bool
  | table | joinTable _ => true
  | union _ | joinConditions _ _ | joinOperand _ _ _ _ | condition _ _ _ => false

/-- A scope is opened behind which conditions still go to the same join. -/
def Opening.keepsJoin : Opening → Bool
  | joinTable _ | joinOperand _ _ _ _ => true
  | condition clause _ _ => clause = .joinOn
  | table | union _ | joinConditions _ _ => false

/-- What a scope remembers after one inside it, of this root, has closed. -/
def Scope.regained (scope : Scope) (opening : Opening) (root : Slot) : Scope :=
  { scope with
    target := if opening.takesName then some root else none
    join := if opening.keepsJoin then scope.join else none }

/-- A scope that is closed keeps what is added to it below its root. -/
theorem Store.tended_shut {store : Store} {scope : Scope} (forest : store.Forest)
    (inUse : store.InUse scope.root) :
    store.Tended (Draft.parenthesize (Draft.completeProjection store scope) scope) scope.root := by
  have completed : store.Tended (Draft.completeProjection store scope) scope.root := by
    unfold Draft.completeProjection
    split
    · have added := tended_addClause forest inUse .select
      exact added.trans (tended_addChild added.forest added.inUse_root
        (reaches_addClause forest inUse .select) _)
    · exact .refl forest inUse
  refine completed.trans ?_
  unfold Draft.parenthesize
  split
  · exact .refl completed.forest completed.inUse_root
  · have left := tended_addFirst completed.forest completed.inUse_root
      Relation.ReflTransGen.refl (.keyword .leftParen)
    exact left.trans (tended_addChild left.forest left.inUse_root Relation.ReflTransGen.refl _)

namespace Draft

variable {before between entered filled after found : Draft}

theorem depth_eq_around (draft : Draft) : draft.depth = draft.around.length + 1 := by
  unfold depth around
  cases draft.nested with
  | nil => rfl
  | cons inner outer => simp

/-! ### Opening -/

/-- **A scope is opened inside the innermost one.** -/
structure Descends (before after : Draft) (handback : Handback) : Prop where
  handback : after.scope.handback = handback
  around : ∃ outer, after.around = outer :: before.around ∧ outer.frame = before.scope.frame
  within : before.store.Within after.store before.scope.root
  reaches : after.store.Reaches before.scope.root after.scope.root

theorem Tends.descends {handback : Handback} (tends : before.Tends between)
    (further : between.Descends after handback) : before.Descends after handback := by
  obtain ⟨outer, around, frame⟩ := further.around
  refine ⟨further.handback, ⟨outer, ?_, frame.trans tends.frame⟩, tends.within.trans ?_, ?_⟩
  · rw [around, tends.around]
  · exact tends.root_eq ▸ further.within
  · exact tends.root_eq ▸ further.reaches

/-- A scope is opened below a slot of the innermost one. -/
theorem Tends.openBelow (tends : before.Tends between) {parent : Slot}
    (reaches : between.store.Reaches before.scope.root parent) (kind : ScopeKind)
    (handback : Handback) : before.Descends (between.openBelow parent kind handback) handback := by
  have within := tends.within
  have added := Store.tended_addChild within.forest within.inUse_root reaches .blank
  refine ⟨rfl, ⟨between.scope, ?_, tends.frame⟩, within.trans added.toWithin,
    Store.reaches_addChild within.forest within.inUse_root reaches .blank⟩
  rw [← tends.around, ← opens_eq]
  rfl

/-- What stands before a scope is added below a slot of the innermost one. -/
theorem Tends.pushLead (tends : before.Tends between) {slot : Slot}
    (reaches : between.store.Reaches before.scope.root slot) (nested : NestedCondition) :
    before.Tends (between.pushLead slot nested) ∧
      (between.pushLead slot nested).store.Reaches before.scope.root slot := by
  have within := tends.within
  unfold Draft.pushLead
  cases nested.lead? with
  | none => exact ⟨tends, reaches⟩
  | some lead =>
    have led := Store.tended_addChild within.forest within.inUse_root reaches lead
    exact ⟨Tends.alter tends led.toWithin, led.reaches slot reaches⟩

/-- Conditions that are taken have a place. -/
theorem exists_conditionPlace {draft : Draft} {clause : FilterClause}
    (takes : draft.takesCondition clause = true) :
    ∃ place, draft.conditionPlace? clause = some place := by
  refine Option.isSome_iff_exists.mp ?_
  unfold takesCondition at takes
  unfold conditionPlace?
  cases group : draft.inGroup with
  | true => rfl
  | false => cases clause <;> simp_all

section Enter

variable {draft : Draft} (forest : draft.store.Forest) (sound : draft.scope.Sound draft.store)

include forest sound

theorem descends_openTable (can : draft.canTakeTable = true) :
    draft.Descends draft.openTable ⟨true, false⟩ := by
  obtain ⟨added, reaches⟩ := tends_addTable forest sound
  rw [openTable, if_pos can]
  exact added.openBelow reaches _ _

theorem descends_openUnion (plain : draft.inGroup = false) (all : Bool) :
    draft.Descends (draft.openUnion all) ⟨false, false⟩ := by
  have tended := Store.tended_addClause forest sound.root (if all then .unionAll else .union)
  rw [openUnion, plain, if_neg Bool.false_ne_true]
  refine Tends.openBelow (Tends.alter (.refl forest sound.root) tended.toWithin) ?_ _ _
  exact Store.reaches_addClause forest sound.root _

theorem descends_openJoin (plain : draft.inGroup = false) (kind : JoinKind) :
    draft.Descends (draft.openJoin kind) ⟨true, true⟩ := by
  obtain ⟨added, reaches⟩ := tends_startJoin forest sound kind
  rw [openJoin, plain, if_neg Bool.false_ne_true]
  exact added.openBelow reaches _ _

theorem descends_openCondition {clause : FilterClause}
    (takes : draft.takesCondition clause = true) (logic : Connective) (nested : NestedCondition) :
    draft.Descends (draft.openCondition clause logic nested) ⟨false, clause = .joinOn⟩ := by
  obtain ⟨place, known⟩ := exists_conditionPlace takes
  obtain ⟨ready, reaches⟩ := tends_withConditions forest sound known
  have within := ready.within
  obtain ⟨marked, reachesSlot⟩ := Store.tended_placeCondition within.forest within.inUse_root
    reaches logic
  have room : draft.Tends ((draft.withConditions clause).alter (·.placeCondition place logic)) :=
    Tends.alter ready marked.toWithin
  obtain ⟨led, reachesStill⟩ := room.pushLead reachesSlot nested
  rw [openCondition, known]
  exact led.openBelow reachesStill _ _

end Enter

end Draft

namespace Drawing

variable (drawing : Drawing) {opening : Opening} {kind : ScopeKind}

/-- **Something that can be filled opens a scope inside the innermost one**, unless it is a join whose
conditions follow. -/
theorem descends_enter (opened : Draft.openedKind? opening = some kind)
    (admits : drawing.draft.admits opening = true) :
    drawing.draft.Descends (drawing.draft.enter opening)
      ⟨opening.takesName, opening.keepsJoin⟩ := by
  have forest := drawing.forest
  have sound := drawing.sound
  cases opening with
  | table => exact Draft.descends_openTable forest sound admits
  | union all => exact Draft.descends_openUnion forest sound (Bool.not_eq_true' _ ▸ admits) all
  | joinTable kind => exact Draft.descends_openJoin forest sound (Bool.not_eq_true' _ ▸ admits) kind
  | joinConditions kind table => cases opened
  | condition clause logic nested =>
    exact Draft.descends_openCondition forest sound admits logic nested
  | joinOperand kind table column operator =>
    obtain ⟨-, takes, entering⟩ := Draft.enter_joinOperand admits
    obtain ⟨between, draft, -⟩ := drawing.join kind table
    have joined := Draft.tends_join forest sound kind table
    rw [← draft] at takes entering joined
    rw [entering]
    exact joined.descends (Draft.descends_openCondition between.forest between.sound takes .and
      (.operand column operator))

end Drawing

namespace Draft

variable {before entered filled found : Draft} {handback : Handback}

/-! ### Filling -/

/-- **A draft goes on in a scope, or in further scopes inside of it.** The scopes around are as they
were, and all that changed in the tree hangs below the root of the scope. -/
structure Stays (before found : Draft) : Prop where
  opens : ∃ inner scope, found.opens = inner ++ scope :: before.around ∧
    scope.frame = before.scope.frame
  within : before.store.Within found.store before.scope.root

theorem Stays.refl {draft : Draft} (forest : draft.store.Forest)
    (inUse : draft.store.InUse draft.scope.root) : draft.Stays draft :=
  ⟨⟨[], draft.scope, draft.opens_eq, rfl⟩, .refl forest inUse⟩

theorem Tends.stays (tends : before.Tends entered) (further : entered.Stays found) :
    before.Stays found := by
  obtain ⟨inner, scope, opens, frame⟩ := further.opens
  refine ⟨⟨inner, scope, ?_, frame.trans tends.frame⟩, tends.within.trans ?_⟩
  · rw [opens, tends.around]
  · exact tends.root_eq ▸ further.within

/-- What hangs below the root of a scope that was opened hangs below the scope around it. -/
theorem Descends.within_trans (descends : before.Descends entered handback)
    (within : entered.store.Within found.store entered.scope.root) :
    before.store.Within found.store before.scope.root :=
  descends.within.trans (within.mono descends.within.forest descends.within.inUse_root
    descends.reaches)

theorem Descends.stays (descends : before.Descends entered handback)
    (further : entered.Stays found) : before.Stays found := by
  obtain ⟨outer, around, outerFrame⟩ := descends.around
  obtain ⟨inner, scope, opens, -⟩ := further.opens
  refine ⟨⟨inner ++ [scope], outer, ?_, outerFrame⟩, descends.within_trans further.within⟩
  rw [opens, around, List.append_assoc, List.singleton_append]

/-! ### Closing -/

theorem Tends.depth_eq (tends : before.Tends filled) : filled.depth = before.depth := by
  rw [depth_eq_around, tends.around, ← depth_eq_around]

/-- Nothing is left to close when no scope was opened. -/
theorem Tends.leave_eq (tends : before.Tends filled) : filled.leave before = filled := by
  rw [leave, closeTo, tends.depth_eq, Nat.sub_self, closeScopes]

/-- A scope that is closed is no longer open, and the scope around it goes on. -/
theorem opens_close {outer : Scope} {rest : List Scope} (around : filled.around = outer :: rest) :
    filled.close.opens = outer.resume filled.scope :: rest ∧
      filled.close.store =
        parenthesize (completeProjection filled.store filled.scope) filled.scope := by
  cases nested : filled.nested with
  | nil =>
    rw [Draft.around, nested] at around
    exact nomatch around
  | cons closed further =>
    obtain ⟨resting, restingOpens, store, -, closing⟩ := Sketched.exists_resting nested
    have scope : filled.scope = closed := by
      rw [Draft.scope, nested]
      rfl
    rw [around, opens_eq] at restingOpens
    obtain ⟨restingScope, restingAround⟩ := List.cons.inj restingOpens
    rw [closing, opens_adjust, store_adjust, store, restingScope, restingAround, scope]
    exact ⟨rfl, rfl⟩

theorem rendered_close (draft : Draft) : draft.close.rendered = draft.rendered := by
  have same := congrArg Draft.rendered (close_writtenAs draft draft.rendered)
  exact same

/-- **A scope that was opened and filled is closed.** -/
theorem Descends.closed (descends : before.Descends entered handback)
    (tends : entered.Tends filled) :
    filled.leave before = filled.close ∧
      filled.store.Within filled.close.store entered.scope.root ∧ before.Tends filled.close := by
  obtain ⟨outer, around, outerFrame⟩ := descends.around
  have aroundFilled : filled.around = outer :: before.around := tends.around.trans around
  obtain ⟨opens, store⟩ := opens_close aroundFilled
  have leaving : filled.leave before = filled.close := by
    rw [leave, closeTo, depth_eq_around, depth_eq_around before, aroundFilled, List.length_cons,
      Nat.add_sub_add_right, Nat.add_sub_cancel_left, closeScopes, closeScopes]
  have inUse := tends.within.inUse_root
  rw [← tends.root_eq] at inUse
  have shut : filled.store.Within filled.close.store entered.scope.root := by
    rw [store, ← tends.root_eq]
    exact (Store.tended_shut tends.within.forest inUse).toWithin
  rw [opens_eq] at opens
  obtain ⟨scope, aroundClosed⟩ := List.cons.inj opens
  refine ⟨leaving, shut, ?_, aroundClosed, descends.within_trans (tends.within.trans shut)⟩
  rw [scope]
  exact outerFrame

end Draft

namespace Drawing

/-! ### Programs -/

mutual

/-- **A call that goes on with the draft goes on in its innermost scope.** -/
theorem tends_run (drawing : Drawing) (call : Call) (on : Call.goesOn call = true) :
    drawing.draft.Tends (Call.run drawing.draft call) := by
  have same := Draft.Tends.refl drawing.forest drawing.sound.root
  cases call with
  | edit change => exact drawing.tends_apply change
  | ask question => cases question <;> exact ⟨rfl, rfl, same.within⟩
  | startOver | finish => cases on
  | within opening program =>
    rw [Call.run]
    split
    · next admits =>
      cases opened : Draft.openedKind? opening with
      | some kind =>
        obtain ⟨entered, draft, -⟩ := drawing.exists_entered opened admits
        have tends := entered.tends_runAll program on
        rw [draft] at tends
        obtain ⟨leaving, -, goes⟩ := (drawing.descends_enter opened admits).closed tends
        rw [leaving]
        exact goes
      | none =>
        cases opening with
        | joinConditions kind table =>
          obtain ⟨joined, draft, -⟩ := drawing.join kind table
          have tends := joined.tends_runAll program on
          rw [draft] at tends
          have goes := (Draft.tends_join drawing.forest drawing.sound kind table).trans tends
          rw [Draft.enter, goes.leave_eq]
          exact goes
        | table | union | joinTable | joinOperand | condition => cases opened
    · next refused =>
      rcases Draft.enter_of_not_admits (Bool.eq_false_iff.mpr refused) with nothing |
        ⟨-, table, -, -, -, crossed⟩
      · rw [nothing]
        exact same
      · rw [crossed]
        exact Draft.tends_join drawing.forest drawing.sound .cross table

/-- **A program that goes on with the draft goes on in its innermost scope.** -/
theorem tends_runAll (drawing : Drawing) (program : List Call) (on : Call.goOn program = true) :
    drawing.draft.Tends (Call.runAll drawing.draft program) := by
  cases program with
  | nil => exact .refl drawing.forest drawing.sound.root
  | cons call rest =>
    rw [Call.goOn, Bool.and_eq_true] at on
    obtain ⟨between, draft, -⟩ := drawing.run call on.1
    have further := between.tends_runAll rest on.2
    rw [draft] at further
    exact (drawing.tends_run call on.1).trans further

end

/-- **All that a program passes through goes on in its scope**, or in scopes inside of it. -/
theorem stays_of_passes {draft found : Draft} {program : List Call}
    (passes : Call.Passes draft program found) (on : Call.goOn program = true) (drawing : Drawing)
    (drawn : drawing.draft = draft) : draft.Stays found := by
  induction passes generalizing drawing with
  | here draft program =>
    subst drawn
    exact .refl drawing.forest drawing.sound.root
  | @later draft found call rest _ step =>
    subst drawn
    rw [Call.goOn, Bool.and_eq_true] at on
    obtain ⟨between, reached, -⟩ := drawing.run call on.1
    exact (drawing.tends_run call on.1).stays (step on.2 between reached)
  | @inside draft found opening program rest admits _ step =>
    subst drawn
    rw [Call.goOn, Bool.and_eq_true] at on
    cases opened : Draft.openedKind? opening with
    | some kind =>
      obtain ⟨entered, reached, -⟩ := drawing.exists_entered opened admits
      exact (drawing.descends_enter opened admits).stays (step on.1 entered reached)
    | none =>
      cases opening with
      | joinConditions kind table =>
        obtain ⟨joined, reached, -⟩ := drawing.join kind table
        exact (Draft.tends_join drawing.forest drawing.sound kind table).stays
          (step on.1 joined reached)
      | table | union | joinTable | joinOperand | condition => cases opened

end Drawing

namespace Draft

/-- **What is said in a scope stays in it.** In a draft after any moves, something is opened and filled
by a program that goes on with the draft. Wherever this program passes through, the scopes around are
as they were when it began, and outside of the subtree of the scope the same slots are in use, with the
same payloads and links. Closing the scope changes what hangs below its root and what the next scope
remembers for a name and for conditions, and as many scopes are open as before. -/
theorem scope_is_local (settings : Settings) (moves : List Move) {opening : Opening}
    {kind : ScopeKind} (opened : openedKind? opening = some kind)
    (admits : (Story.after settings moves).draft.admits opening = true) {program : List Call}
    (on : Call.goOn program = true) {entered filled closed : Draft}
    (enters : (Story.after settings moves).draft.enter opening = entered)
    (fills : Call.runAll entered program = filled)
    (closes : Call.run (Story.after settings moves).draft (.within opening program) = closed) :
    ∃ outer rest, entered.opens = entered.scope :: outer :: rest ∧
      (∀ found, Call.Passes entered program found →
        (∃ inner scope, found.opens = inner ++ scope :: outer :: rest ∧
          scope.frame = entered.scope.frame) ∧
        entered.store.Within found.store entered.scope.root) ∧
      (∃ scope, filled.opens = scope :: outer :: rest ∧ scope.frame = entered.scope.frame) ∧
      closed.opens = outer.regained opening entered.scope.root :: rest ∧
      filled.store.Within closed.store entered.scope.root ∧
      closed.rendered = filled.rendered ∧ closed.settings = filled.settings ∧
      closed.depth = (Story.after settings moves).draft.depth := by
  obtain ⟨scopes, outlines, kept⟩ := Story.kept_after settings moves
  let drawing : Drawing := ⟨_, _, _, kept.sketched⟩
  obtain ⟨inside, reached, -⟩ := drawing.exists_entered opened admits
  have descends := drawing.descends_enter opened admits
  have tends := inside.tends_runAll program on
  subst enters
  rw [reached, fills] at tends
  obtain ⟨leaving, shut, goes⟩ := descends.closed tends
  obtain ⟨outer, around, -⟩ := descends.around
  have closing : filled.close = closed := by
    rw [← closes, Call.run, if_pos admits, fills]
    exact leaving.symm
  rw [closing] at shut goes
  refine ⟨outer, drawing.draft.around, ?_, fun found passes => ?_, ⟨filled.scope, ?_, tends.frame⟩,
    ?_, shut, ?_, ?_, goes.depth_eq⟩
  · rw [opens_eq, ← around]
  · have stays := Drawing.stays_of_passes passes on inside reached
    obtain ⟨inner, scope, opens, frame⟩ := stays.opens
    exact ⟨⟨inner, scope, opens.trans (by rw [← around]), frame⟩, stays.within⟩
  · rw [opens_eq, tends.around]
    exact congrArg _ around
  · have handback : filled.scope.handback = ⟨opening.takesName, opening.keepsJoin⟩ :=
      (congrArg (fun frame => frame.2.2) tends.frame).trans descends.handback
    rw [← closing, (opens_close (tends.around.trans around)).1, Scope.resume, Scope.regained,
      handback, tends.root_eq]
  · rw [← closing, rendered_close]
  · rw [← closing]
    exact congrArg Prod.fst filled.make_close

/-- What is said before a join. -/
def beforeJoin : List Move :=
  [.edit (.table "a"), .edit (.restrict .whereClause .and (.verbatim "x = 1"))]

/-- What is said in a joined table. Its columns are dropped for a removal, and their slots are handed
out again. -/
def insideJoin : List Call :=
  [.edit (.select ["b", "c"]), .edit (.table "t"), .edit (.remove .delete),
    .within (.condition .whereClause .and .group)
      [.edit (.restrict .whereClause .or (.verbatim "y = 2"))]]

/-- A joined table is filled inside of a statement with a condition. -/
theorem scope_is_local_join :
    openedKind? (.joinTable .left) = some .subquery ∧
    (Story.after .standard beforeJoin).draft.admits (.joinTable .left) = true ∧
    Call.goOn insideJoin = true ∧
    ∃ entered outer rest, (Story.after .standard beforeJoin).draft.enter (.joinTable .left) = entered ∧
      entered.opens = entered.scope :: outer :: rest ∧
      entered.store.Within (Call.runAll entered insideJoin).store entered.scope.root ∧
      (Call.run (Story.after .standard beforeJoin).draft (.within (.joinTable .left) insideJoin)).opens =
        { outer with target := some entered.scope.root } :: rest ∧
      (Call.run (Story.after .standard beforeJoin).draft
        (.within (.joinTable .left) insideJoin)).depth = 1 := by
  obtain ⟨outer, rest, opens, inside, -, closed, -, -, -, depth⟩ :=
    @scope_is_local .standard beforeJoin (.joinTable .left) .subquery rfl rfl insideJoin rfl _ _ _
      rfl rfl rfl
  refine ⟨rfl, rfl, rfl, _, outer, rest, rfl, opens, (inside _ ?_).2, closed, depth⟩
  exact .later (.later (.later (.later (.here _ _))))

end Draft

end SqlDraft
