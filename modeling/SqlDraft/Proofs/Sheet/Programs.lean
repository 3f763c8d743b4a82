/-
**Programs say the same in every draft.**

A call says in a draft what it says on the sheet of its innermost scope, and so does a program. What
is opened is filled by a program of its own, so the two are shown together by induction on the call:

* `Drawing.filling_cases`: what can be filled opens a scope, at once or behind a join.
* `Drawing.exists_encloses`: something that can be filled encloses what its program says.
* `Drawing.reaches_refused`: something that cannot be filled says nothing but a cross join.
* **`Drawing.run`**, **`Drawing.runAll`**: what a call and a program say in a draft.
-/

import SqlDraft.Proofs.Sheet.Openings

namespace SqlDraft.Drawing

variable {drawing between after : Drawing} {opening : Opening} {kind : ScopeKind}

/-! ### What can be filled -/

/-- **A join was made in a drawing for an operand**, which opens as a condition that follows it. -/
structure Joined (drawing between : Drawing) (join : JoinKind)
    (table column operator : String) : Prop where
  plain : drawing.draft.inGroup = false
  goes : drawing.Says between (·.join join table)
  takes : between.draft.admits (.condition .joinOn .and (.operand column operator)) = true
  entering : drawing.draft.enter (.joinOperand join table column operator) =
    between.draft.enter (.condition .joinOn .and (.operand column operator))

section Joined

variable {join : JoinKind} {table column operator : String}

theorem exists_joined
    (admits : drawing.draft.admits (.joinOperand join table column operator) = true) :
    ∃ between, drawing.Joined between join table column operator := by
  obtain ⟨plain, takes, entering⟩ := Draft.enter_joinOperand admits
  obtain ⟨between, draft, goes⟩ := drawing.join join table
  rw [← draft] at takes entering
  exact ⟨between, plain, goes, takes, entering⟩

/-- A join with an operand is a join and a condition on it. -/
theorem Encloses.behind {inner : Slot} {body : List Payload}
    (joined : drawing.Joined between join table column operator)
    (encloses : between.Encloses after (.condition .joinOn .and (.operand column operator)) inner
      body) :
    drawing.Encloses after (.joinOperand join table column operator) inner body := by
  have goes := joined.goes.trans encloses.goes
  refine ⟨⟨goes.frames, goes.kept, goes.outside, fun inside spells => ?_⟩, encloses.isScope,
    fun known => encloses.isNew (joined.goes.kept known), fun inside spells =>
      encloses.body inside fun root isScope away =>
        spells root isScope fun known => away (joined.goes.kept known)⟩
  have clausal : ¬ (drawing.outline.sheet inside).grouped = true :=
    Bool.eq_false_iff.mp ((drawing.grouped_eq inside).trans joined.plain)
  exact (goes.sheet inside spells).trans (if_neg clausal).symm

end Joined

/-- **What can be filled opens a scope, at once or behind a join.** What holds of every opening of a
scope holds of everything that can be filled, if it holds of a join with an operand as soon as it does
of the operand. -/
@[elab_as_elim]
theorem filling_cases {motive : Drawing → Opening → ScopeKind → Prop}
    (single : ∀ {drawing : Drawing} {opening : Opening} {inner : Slot} {kind : ScopeKind}
      {handback : Handback} {changed : Outline} {target : Option Target},
      drawing.draft.admits opening = true →
        drawing.Opens opening inner kind handback changed target → motive drawing opening kind)
    (behind : ∀ {drawing between : Drawing} {join : JoinKind} {table column operator : String},
      drawing.draft.admits (.joinOperand join table column operator) = true →
        drawing.Joined between join table column operator →
          motive between (.condition .joinOn .and (.operand column operator)) .subquery →
            motive drawing (.joinOperand join table column operator) .subquery)
    (opened : Draft.openedKind? opening = some kind)
    (admits : drawing.draft.admits opening = true) : motive drawing opening kind := by
  by_cases operand : ∃ kind table column operator, opening = .joinOperand kind table column operator
  · obtain ⟨join, table, column, operator, rfl⟩ := operand
    obtain rfl : ScopeKind.subquery = kind := Option.some.inj opened
    obtain ⟨between, joined⟩ := exists_joined admits
    obtain ⟨inner, handback, changed, target, opens⟩ :=
      between.exists_opens rfl joined.takes (by simp)
    exact behind admits joined (single joined.takes opens)
  · obtain ⟨inner, handback, changed, target, opens⟩ :=
      drawing.exists_opens opened admits fun join table column operator same =>
        operand ⟨join, table, column, operator, same⟩
    exact single admits opens

/-- **Something that can be filled encloses what its program says.** -/
theorem exists_encloses {program : List Call} (opened : Draft.openedKind? opening = some kind)
    (admits : drawing.draft.admits opening = true)
    (fills : ∀ entered : Drawing,
      entered.Reaches (Call.runAll entered.draft program) (Call.sayAll · program)) :
    (drawing.draft.enter opening).scope.kind = kind ∧
    ∃ after : Drawing, after.draft = Call.run drawing.draft (.within opening program) ∧
      drawing.Encloses after opening (drawing.draft.enter opening).scope.root
        ((Call.sayAll (.silent kind) program).enclosed kind) := by
  refine filling_cases ?single ?behind opened admits
  case single =>
    intro drawing opening inner kind handback changed target admits opens
    obtain ⟨after, draft, encloses⟩ := opens.filled (fills opens.entered)
    have root : (drawing.draft.enter opening).scope.root = inner := opens.root_entered
    refine ⟨congrArg (fun frame => frame.2.1) opens.frame_entered, after, ?_, root ▸ encloses⟩
    rw [draft, Call.run, if_pos admits]
    rfl
  case behind =>
    rintro drawing between join table column operator admits joined
      ⟨sameKind, after, draft, encloses⟩
    refine ⟨joined.entering ▸ sameKind, after, ?_, joined.entering ▸ encloses.behind joined⟩
    rw [draft, Call.run, Call.run, if_pos admits, if_pos joined.takes, joined.entering,
      Draft.leave_congr joined.goes.frames]

/-- What is filled is silent before. -/
theorem exists_entered (opened : Draft.openedKind? opening = some kind)
    (admits : drawing.draft.admits opening = true) :
    ∃ entered : Drawing, entered.draft = drawing.draft.enter opening ∧
      ∀ inside, entered.outline.sheet inside = .silent kind :=
  filling_cases (fun _ opens => ⟨opens.entered, rfl, opens.sheet_entered⟩)
    (fun _ joined ⟨entered, draft, silent⟩ => ⟨entered, draft.trans joined.entering.symm, silent⟩)
    opened admits

/-! ### What cannot be filled -/

/-- **Something that cannot be filled says nothing**, but for a cross join, which takes no
condition. -/
theorem reaches_refused (drawing : Drawing) (refused : drawing.draft.admits opening = false)
    (fill : Sheet → Sheet) :
    drawing.Reaches (drawing.draft.enter opening) (·.filled opening fill) := by
  have grouped (inside : Slot → List Payload) (group : (!drawing.draft.inGroup) = false) :
      (drawing.outline.sheet inside).grouped = true :=
    (drawing.grouped_eq inside).trans (Bool.not_eq_false' _ ▸ group)
  cases opening with
  | table =>
    refine drawing.reaches_self (if_neg (Bool.eq_false_iff.mp refused)) fun inside => if_neg ?_
    rw [canTakeTable_eq]
    exact Bool.eq_false_iff.mp refused
  | union all | joinTable kind | joinConditions kind table =>
    exact drawing.reaches_self (if_pos (Bool.not_eq_false' _ ▸ refused)) fun inside =>
      if_pos (grouped inside refused)
  | condition clause logic nested =>
    refine drawing.reaches_self ?_ fun inside => ?_
    · show drawing.draft.openCondition clause logic nested = drawing.draft
      rw [Draft.openCondition, Draft.conditionPlace?_of_not_takes refused]
    · have missing : drawing.outline.seat? clause = none := by
        rw [← Option.not_isSome_iff_eq_none, ← takesCondition_eq]
        exact Bool.eq_false_iff.mp refused
      show Sheet.nested _ clause logic nested _ = _
      rw [Sheet.nested, Outline.seat?_sheet, missing]
  | joinOperand kind table column operator =>
    cases plain : drawing.draft.inGroup with
    | true =>
      exact drawing.reaches_self (if_pos plain) fun inside =>
        if_pos ((drawing.grouped_eq inside).trans plain)
    | false =>
      have cross : decide (kind ≠ .cross) = false := by
        have both : (!drawing.draft.inGroup && decide (kind ≠ .cross)) = false := refused
        rwa [plain, Bool.not_false, Bool.true_and] at both
      obtain rfl : kind = .cross := not_not.mp (of_decide_eq_false cross)
      rw [Draft.enter_cross plain]
      refine (drawing.join .cross table).congr fun inside => ?_
      have clausal : (drawing.outline.sheet inside).grouped = false :=
        (drawing.grouped_eq inside).trans plain
      have missing : ((drawing.outline.sheet inside).join .cross table).seat? .joinOn = none := by
        rw [Sheet.join, clausal, if_neg Bool.false_ne_true, Sheet.seat?, Sheet.linked, clausal]
        rfl
      show (if (drawing.outline.sheet inside).grouped = true then _ else _) = Sheet.join _ _ _
      rw [clausal, if_neg Bool.false_ne_true, Sheet.nested, missing]

/-! ### All calls -/

theorem asked (drawing : Drawing) (question : Question) :
    drawing.Reaches (drawing.draft.asked question) id := by
  have sketched : (drawing.draft.asked question).Sketched drawing.scopes drawing.outlines := by
    cases question with
    | render | renderIn dialect => exact { drawing.sketched with }
    | text | settings | usage => exact drawing.sketched
  have frames : (drawing.draft.asked question).frames = drawing.draft.frames := by
    cases question <;> rfl
  rw [← Function.update_eq_self drawing.root drawing.outlines] at sketched
  exact drawing.reaches_update sketched frames fun _ => rfl

/-- Conditions that follow a join are said in the scope of the join itself. -/
theorem says_joinConditions {join : JoinKind} {table : String} {program : List Call}
    (admits : drawing.draft.admits (.joinConditions join table) = true)
    (result : after.draft = Call.runAll (drawing.draft.join join table) program)
    (goes : drawing.Says after fun sheet => Call.sayAll (sheet.join join table) program) :
    after.draft = Call.run drawing.draft (.within (.joinConditions join table) program) ∧
      drawing.Says after (Call.say · (.within (.joinConditions join table) program)) := by
  have plain : drawing.draft.inGroup = false := Bool.not_eq_true' _ ▸ admits
  refine ⟨?_, goes.frames, goes.kept, goes.outside, fun inside spells => ?_⟩
  · rw [Call.run, if_pos admits, Draft.enter, ← result, Draft.leave_of_frames goes.frames]
  · rw [goes.sheet inside spells, Call.say, Sheet.filled]
    exact (Sheet.ite_grouped ((drawing.grouped_eq inside).trans plain)).symm

mutual

/-- **A call says in a draft what it says on sheets**, unless it starts over. -/
theorem run (drawing : Drawing) (call : Call) (on : Call.goesOn call = true) :
    drawing.Reaches (Call.run drawing.draft call) (Call.say · call) := by
  cases call with
  | edit change => exact drawing.edit change
  | ask question => exact drawing.asked question
  | startOver | finish => cases on
  | within opening program =>
    have fills (entered : Drawing) :
        entered.Reaches (Call.runAll entered.draft program) (Call.sayAll · program) :=
      entered.runAll program on
    cases admits : drawing.draft.admits opening with
    | false =>
      rw [Call.run, admits, if_neg Bool.false_ne_true]
      refine (drawing.reaches_refused admits fun start => Call.sayAll start program).congr
        fun inside => ?_
      rw [Call.say]
    | true =>
      cases opened : Draft.openedKind? opening with
      | some kind =>
        obtain ⟨-, after, draft, encloses⟩ := exists_encloses opened admits fills
        have goes : drawing.Reaches after.draft _ := ⟨after, rfl, encloses.goes⟩
        rw [← draft]
        refine goes.congr fun inside => ?_
        rw [Call.say, Sheet.filled, opened]
      | none =>
        cases opening with
        | joinConditions kind table =>
          obtain ⟨after, result, goes⟩ := (drawing.join kind table).trans fun between same =>
            same ▸ fills between
          exact ⟨after, says_joinConditions admits result goes⟩
        | table | union | joinTable | joinOperand | condition => cases opened

/-- **A program says in a draft what it says on sheets**, unless it starts over. -/
theorem runAll (drawing : Drawing) (program : List Call) (on : Call.goOn program = true) :
    drawing.Reaches (Call.runAll drawing.draft program) (Call.sayAll · program) := by
  cases program with
  | nil => exact drawing.reaches_self rfl fun _ => rfl
  | cons call rest =>
    rw [Call.goOn, Bool.and_eq_true] at on
    exact (drawing.run call on.1).trans fun between same => same ▸ between.runAll rest on.2

end

end SqlDraft.Drawing
