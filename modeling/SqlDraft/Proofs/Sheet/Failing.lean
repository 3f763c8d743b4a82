/-
**Calls that fail.**

A call fails if its caller is told that it was refused. A call inside of what another one opens has a
caller of its own, so a program may be asked to go without faults at its own level or at every depth.
Whether it does is seen on the sheet of the innermost scope:

* `Call.fails`, `Call.failsOn`: whether a call fails on a draft and on a sheet.
* `Session.any_fault_calls`: the calls that fail at any depth are those written down with a fault.
* **`Drawing.fails_runAll`**: a program fails on a draft if it fails on its sheet.
-/

import SqlDraft.Proofs.Sheet.Programs

namespace SqlDraft

/-! ### Failing on a draft -/

namespace Call

mutual

/-- Whether a call fails, or, if that is asked as well, a call inside of what it opens. -/
def fails (deep : Bool) (draft : Draft) : Call → Bool
  | .edit change => (draft.fault? change).isSome
  | .ask _ | .startOver | .finish => false
  | .within opening program =>
    (draft.openingFault? opening).isSome ||
      (deep && draft.admits opening && failsAll deep (draft.enter opening) program)

/-- Whether a call of a program fails. -/
def failsAll (deep : Bool) (draft : Draft) : List Call → Bool
  | [] => false
  | call :: rest => fails deep draft call || failsAll deep (run draft call) rest

end

end Call

namespace Session

mutual

theorem any_fault_call (session : Session) (path : List Nat) (made : Call) :
    ((session.call path made).entries.any fun entry => entry.fault.isSome) =
      (made.fails true session.draft || session.entries.any fun entry => entry.fault.isSome) := by
  cases made with
  | edit change => rfl
  | ask question => rfl
  | startOver => rfl
  | finish => rfl
  | within opening program =>
    rw [call, Call.fails, Bool.true_and]
    cases session.draft.admits opening with
    | false =>
      rw [Bool.false_and, Bool.or_false]
      rfl
    | true =>
      rw [Bool.true_and, Bool.or_assoc]
      exact congrArg _ (any_fault_calls _ path 0 program)

/-- **The calls that fail at any depth are those that are written down with a fault.** -/
theorem any_fault_calls (session : Session) (path : List Nat) (number : Nat)
    (program : List Call) :
    ((session.calls path number program).entries.any fun entry => entry.fault.isSome) =
      (Call.failsAll true session.draft program ||
        session.entries.any fun entry => entry.fault.isSome) := by
  cases program with
  | nil => rfl
  | cons first rest =>
    rw [calls, Call.failsAll, any_fault_calls, any_fault_call, draft_call, ← Bool.or_assoc,
      Bool.or_comm (Call.failsAll _ _ _)]

end

end Session

/-! ### Failing on a sheet -/

namespace Sheet

variable (sheet : Sheet)

/-- Whether a sheet refuses a call so that its caller is told. -/
def refuses : Call → Bool
  | .edit (.select columns) => columns ≠ [] && !sheet.canProject
  | .edit (.table _) | .within .table _ => !sheet.canTakeTable
  | .edit (.remove _) => sheet.grouped
  | _ => false

/-- Whether what is opened can be filled. -/
def admits : Opening → Bool
  | .table => sheet.canTakeTable
  | .union _ | .joinTable _ | .joinConditions _ _ => !sheet.grouped
  | .joinOperand kind _ _ _ => !sheet.grouped && kind ≠ .cross
  | .condition clause _ _ => (sheet.seat? clause).isSome

/-- The sheet that what is opened is filled on. -/
def entered (opening : Opening) : Sheet :=
  match Draft.openedKind? opening with
  | some kind => silent kind
  | none => sheet.received [] opening

end Sheet

namespace Call

mutual

/-- Whether a call fails on a sheet, or, if that is asked as well, a call inside of what it opens. -/
def failsOn (deep : Bool) (sheet : Sheet) : Call → Bool
  | .edit change => sheet.refuses (.edit change)
  | .ask _ | .startOver | .finish => false
  | .within opening program =>
    sheet.refuses (.within opening program) ||
      (deep && sheet.admits opening && failsAllOn deep (sheet.entered opening) program)

/-- Whether a call of a program fails on a sheet. -/
def failsAllOn (deep : Bool) (sheet : Sheet) : List Call → Bool
  | [] => false
  | call :: rest => failsOn deep sheet call || failsAllOn deep (say sheet call) rest

end

theorem failsAllOn_append (deep : Bool) (sheet : Sheet) (first second : List Call) :
    failsAllOn deep sheet (first ++ second) =
      (failsAllOn deep sheet first || failsAllOn deep (sayAll sheet first) second) := by
  induction first generalizing sheet with
  | nil => rfl
  | cons call rest step =>
    rw [List.cons_append, failsAllOn, failsAllOn, step, Bool.or_assoc, sayAll]

end Call

/-! ### A draft and its sheet -/

namespace Drawing

variable (drawing : Drawing) (inside : Slot → List Payload)

theorem refusesPart_eq (part : Part) :
    (drawing.draft.refusesPart? part).isSome = (drawing.outline.sheet inside).grouped := by
  rw [grouped_eq, Draft.refusesPart?]
  cases drawing.draft.inGroup <;> rfl

theorem refusesTable_eq :
    drawing.draft.refusesTable?.isSome = !(drawing.outline.sheet inside).canTakeTable := by
  rw [canTakeTable_eq, Draft.canTakeTable, Draft.refusesTable?, Draft.refusesPart?]
  cases drawing.draft.inGroup with
  | true => rfl
  | false => cases drawing.draft.scope.table <;> rfl

theorem refusesColumns_eq :
    drawing.draft.refusesColumns?.isSome = !(drawing.outline.sheet inside).canProject := by
  rw [canProject_eq, Draft.canProject, Draft.refusesColumns?, Draft.refusesPart?]
  cases drawing.draft.inGroup with
  | true => rfl
  | false =>
    by_cases removal : drawing.draft.scope.command.isSome ∧ drawing.draft.scopeCommand ≠ .select
    · rw [if_pos removal, Option.isNone_eq_false_iff.mpr removal.1, decide_eq_false removal.2]
      rfl
    · rw [if_neg removal]
      rw [not_and_or, not_not, Bool.not_eq_true, Option.isSome_eq_false_iff] at removal
      rcases removal with missing | select
      · rw [missing]
        rfl
      · rw [decide_eq_true select, Bool.or_true]
        rfl

theorem fault_edit (change : Edit) : (drawing.draft.fault? change).isSome =
    (drawing.outline.sheet inside).refuses (.edit change) := by
  cases change with
  | select columns =>
    show (Draft.unlessEmpty columns _).isSome = (decide (columns ≠ []) && _)
    rw [← refusesColumns_eq, Draft.unlessEmpty]
    by_cases empty : columns = []
    · rw [if_pos empty, decide_eq_false (not_not.mpr empty)]
      rfl
    · rw [if_neg empty, decide_eq_true empty, Bool.true_and]
  | table name => exact drawing.refusesTable_eq inside
  | remove removal => exact drawing.refusesPart_eq inside _
  | _ => rfl

theorem fault_opening (opening : Opening) (program : List Call) :
    (drawing.draft.openingFault? opening).isSome =
      (drawing.outline.sheet inside).refuses (.within opening program) := by
  cases opening with
  | table => exact drawing.refusesTable_eq inside
  | _ => rfl

theorem admits_eq (opening : Opening) :
    drawing.draft.admits opening = (drawing.outline.sheet inside).admits opening := by
  cases opening with
  | table => exact (drawing.canTakeTable_eq inside).symm
  | union all | joinTable kind | joinConditions kind table =>
    exact congrArg not (drawing.grouped_eq inside).symm
  | joinOperand kind table column operator =>
    exact congrArg (!· && decide (kind ≠ .cross)) (drawing.grouped_eq inside).symm
  | condition clause logic nested =>
    show drawing.draft.takesCondition clause = ((drawing.outline.sheet inside).seat? clause).isSome
    rw [takesCondition_eq, Outline.seat?_sheet]

/-- A draft is drawn as what was said in another drawing, whose sheet has a property as soon as the
scopes that were new are settled. -/
def ReachesWhere (before : Drawing) (result : Draft) (said : Sheet → Sheet)
    (holds : Sheet → Prop) : Prop :=
  ∃ after : Drawing, after.draft = result ∧ before.Says after said ∧
    ∀ inside, after.Spells before.scopes inside → holds (before.outline.sheet inside)

variable {drawing} {result : Draft} {said more : Sheet → Sheet} {holds holdsToo : Sheet → Prop}

theorem Reaches.always (reaches : drawing.Reaches result said)
    (always : ∀ inside, holds (drawing.outline.sheet inside)) :
    drawing.ReachesWhere result said holds := by
  obtain ⟨after, same, goes⟩ := reaches
  exact ⟨after, same, goes, fun inside _ => always inside⟩

theorem ReachesWhere.trans (reaches : drawing.ReachesWhere result said holds) {final : Draft}
    (further : ∀ between : Drawing, between.draft = result →
      between.ReachesWhere final more holdsToo) :
    drawing.ReachesWhere final (fun sheet => more (said sheet))
      fun sheet => holds sheet ∧ holdsToo (said sheet) := by
  obtain ⟨between, same, goes, first⟩ := reaches
  obtain ⟨after, sameToo, goesToo, second⟩ := further between same
  refine ⟨after, sameToo, goes.trans goesToo, fun inside spells => ?_⟩
  obtain ⟨earlier, later⟩ := goes.settled goesToo spells
  exact ⟨first inside earlier, goes.sheet inside earlier ▸ second inside later⟩

theorem ReachesWhere.imp (reaches : drawing.ReachesWhere result said holds)
    (imp : ∀ inside, holds (drawing.outline.sheet inside) →
      holdsToo (drawing.outline.sheet inside)) : drawing.ReachesWhere result said holdsToo := by
  obtain ⟨after, same, goes, first⟩ := reaches
  exact ⟨after, same, goes, fun inside spells => imp inside (first inside spells)⟩

mutual

/-- **A call fails on a draft if it fails on its sheet**, unless it starts over. -/
theorem fails_run (drawing : Drawing) (deep : Bool) (call : Call) (on : Call.goesOn call = true) :
    drawing.ReachesWhere (Call.run drawing.draft call) (Call.say · call) fun sheet =>
      Call.fails deep drawing.draft call = Call.failsOn deep sheet call := by
  cases call with
  | edit change => exact (drawing.run (.edit change) on).always (drawing.fault_edit · change)
  | ask question => exact (drawing.run (.ask question) on).always fun _ => rfl
  | startOver | finish => cases on
  | within opening program =>
    -- What the faults inside come to, when they are asked for and the opening can be filled.
    have whole (inside : Slot → List Payload) (same : drawing.draft.admits opening = true →
        Call.failsAll deep (drawing.draft.enter opening) program =
          Call.failsAllOn deep ((drawing.outline.sheet inside).entered opening) program) :
        Call.fails deep drawing.draft (.within opening program) =
          Call.failsOn deep (drawing.outline.sheet inside) (.within opening program) := by
      rw [Call.fails, Call.failsOn, ← drawing.fault_opening inside, ← drawing.admits_eq inside]
      cases admits : drawing.draft.admits opening with
      | false => rw [Bool.and_false, Bool.false_and, Bool.false_and]
      | true => rw [same admits]
    have runs := drawing.run (.within opening program) on
    cases admits : drawing.draft.admits opening with
    | false => exact runs.always fun inside => whole inside (absurd · (admits ▸ Bool.false_ne_true))
    | true =>
      cases opened : Draft.openedKind? opening with
      | some kind =>
        obtain ⟨entered, draft, silent⟩ := exists_entered opened admits
        obtain ⟨filled, -, -, verdict⟩ := entered.fails_runAll deep program on
        refine runs.always fun inside => whole inside fun _ => ?_
        have known := verdict _ (filled.spells_store _)
        rw [silent, draft] at known
        rw [known, Sheet.entered, opened]
      | none =>
        cases opening with
        | joinConditions kind table =>
          have joined : drawing.ReachesWhere (drawing.draft.join kind table) (·.join kind table)
              fun _ => True :=
            (drawing.join kind table).always fun _ => trivial
          have filled (between : Drawing) (same : between.draft = drawing.draft.join kind table) :
              between.ReachesWhere (Call.runAll (drawing.draft.join kind table) program)
                (Call.sayAll · program) fun sheet =>
                  Call.failsAll deep (drawing.draft.join kind table) program =
                    Call.failsAllOn deep sheet program :=
            same ▸ between.fails_runAll deep program on
          obtain ⟨after, result, goes, verdict⟩ := joined.trans filled
          obtain ⟨left, said⟩ := says_joinConditions admits result goes
          exact ⟨after, left, said, fun inside spells =>
            whole inside fun _ => (verdict inside spells).2⟩
        | table | union | joinTable | joinOperand | condition => cases opened

/-- **A program fails on a draft if it fails on its sheet**, unless it starts over. -/
theorem fails_runAll (drawing : Drawing) (deep : Bool) (program : List Call)
    (on : Call.goOn program = true) :
    drawing.ReachesWhere (Call.runAll drawing.draft program) (Call.sayAll · program) fun sheet =>
      Call.failsAll deep drawing.draft program = Call.failsAllOn deep sheet program := by
  cases program with
  | nil => exact (drawing.runAll [] on).always fun _ => rfl
  | cons call rest =>
    rw [Call.goOn, Bool.and_eq_true] at on
    have further (between : Drawing) (same : between.draft = Call.run drawing.draft call) :
        between.ReachesWhere (Call.runAll (Call.run drawing.draft call) rest) (Call.sayAll · rest)
          fun sheet => Call.failsAll deep (Call.run drawing.draft call) rest =
            Call.failsAllOn deep sheet rest :=
      same ▸ between.fails_runAll deep rest on.2
    refine ((drawing.fails_run deep call on.1).trans further).imp fun inside both => ?_
    rw [Call.failsAll, Call.failsAllOn, both.1, both.2]

end

end Drawing

end SqlDraft
