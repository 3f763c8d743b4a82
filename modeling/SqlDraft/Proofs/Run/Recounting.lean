/-
**Drafts remember what happened in their scopes.**

The innermost scope remembers the join and the target that its chronicle tells, and so will each scope
around it when the one inside is closed:

* `Chronicle.Awaits`, `Chronicle.Pending`: what the open scopes leave to those around them.
* `Chronicle.Recounted`: a draft remembers what its chronicle tells.
* `Chronicle.Recounted.step`: it does so after one more move.
* **`Chronicle.recounted_after`**: it does so after any moves.
-/

import SqlDraft.Proofs.Run.Chronicle

namespace SqlDraft

namespace Chronicle

/-! ### What an open scope leaves behind -/

/-- A scope is open inside another one that remembers what happened in it before. When the inner scope
is closed, a name goes where its opening says. -/
structure Awaits (outlines : Slot → Outline) (inner outer : Scope) (opening : Opening)
    (met : List Turn) : Prop where
  handback : inner.handback = ⟨opening.takesName, opening.keepsJoin⟩
  join : outer.join = Turn.join? met
  named : opening.target?.bind (outlines outer.root).place? =
    if opening.takesName then some inner.root else none

/-- The open scopes, the innermost first, and what is being filled in them. -/
inductive Pending (outlines : Slot → Outline) : List Scope → List (Opening × List Turn) → Prop
  | alone (scope : Scope) : Pending outlines [scope] []
  | inside {inner outer : Scope} {around : List Scope} {opening : Opening} {met : List Turn}
      {rest : List (Opening × List Turn)} (awaits : Awaits outlines inner outer opening met)
      (further : Pending outlines (outer :: around) rest) :
      Pending outlines (inner :: outer :: around) ((opening, met) :: rest)

theorem Pending.congr {outlines changed : Slot → Outline} {scope other : Scope}
    {around : List Scope} {pending : List (Opening × List Turn)}
    (pends : Pending outlines (scope :: around) pending) (frame : other.frame = scope.frame)
    (same : ∀ outer ∈ around, changed outer.root = outlines outer.root) :
    Pending changed (other :: around) pending := by
  generalize opens : scope :: around = scopes at pends
  induction pends generalizing scope other around with
  | alone found =>
    obtain ⟨-, rfl⟩ := List.cons.inj opens
    exact .alone other
  | @inside inner outer further opening met rest awaits _ step =>
    obtain ⟨rfl, rfl⟩ := List.cons.inj opens
    refine .inside ⟨?_, awaits.join, ?_⟩ (step rfl (fun outer isOuter =>
      same outer (List.mem_cons_of_mem _ isOuter)) rfl)
    · exact (congrArg (fun frame => frame.2.2) frame).trans awaits.handback
    · have root : other.root = scope.root := congrArg Prod.fst frame
      rw [same outer List.mem_cons_self, root]
      exact awaits.named

/-- The name goes somewhere if it goes to the scope that is closed. -/
theorem Awaits.placed {outlines : Slot → Outline} {inner outer : Scope} {opening : Opening}
    {met : List Turn} (awaits : Awaits outlines inner outer opening met) :
    ∀ found ∈ opening.target?, ((outlines outer.root).place? found).isSome := by
  intro found goes
  have named := awaits.named
  rw [Option.mem_def.mp goes, Option.bind_some] at named
  cases opening with
  | table | joinTable =>
    rw [named]
    rfl
  | union | joinConditions | joinOperand | condition => cases goes

/-! ### Drafts that remember what happened -/

/-- **A draft remembers what its chronicle tells**: in its innermost scope, and in every scope around
it when the one inside has closed. -/
structure Recounted (chronicle : Chronicle) (drawing : Drawing) : Prop where
  draft : drawing.draft = chronicle.draft
  target : drawing.outline.target = Turn.target? chronicle.turns
  join : chronicle.draft.scope.join = Turn.join? chronicle.turns
  pending : Pending drawing.outlines chronicle.draft.opens chronicle.pending

namespace Recounted

variable {drawing after : Drawing} {draft : Draft} {turns later : List Turn}
  {pending : List (Opening × List Turn)} {said : Sheet → Sheet}

/-- The scopes around the innermost one have outlines of their own. -/
theorem around_known (drawing : Drawing) {outer : Scope} (isOuter : outer ∈ drawing.draft.around) :
    outer.root ∈ drawing.scopes ∧ outer.root ≠ drawing.root :=
  ⟨drawing.sketched.stacked.known outer (List.mem_cons_of_mem _ isOuter),
    drawing.sketched.stacked.ne_of_around isOuter⟩

/-- What is said in the innermost scope leaves the scopes around it as they are. -/
theorem goes (recounted : Recounted ⟨drawing.draft, turns, pending⟩ drawing)
    (goes : drawing.Says after said) (around : after.draft.around = drawing.draft.around)
    (target : after.outline.target = Turn.target? later)
    (join : after.draft.scope.join = Turn.join? later) :
    Recounted ⟨after.draft, later, pending⟩ after := by
  refine ⟨rfl, target, join, ?_⟩
  have pends := recounted.pending
  rw [Draft.opens_eq] at pends ⊢
  rw [around]
  refine pends.congr (Draft.frame_eq goes.frames) fun outer isOuter => ?_
  obtain ⟨known, apart⟩ := around_known drawing isOuter
  exact goes.outside outer.root known apart

/-- **An edit is recounted.** -/
theorem edit (recounted : Recounted ⟨draft, turns, pending⟩ drawing) (change : Edit) :
    ∃ after, Recounted ⟨draft.apply change, draft.editTurns change ++ turns, pending⟩ after ∧
      drawing.Says after (·.edited change) := by
  obtain rfl : drawing.draft = draft := recounted.draft
  obtain ⟨after, result, goes⟩ := drawing.edit change
  refine ⟨after, ?_, goes⟩
  rw [← result]
  refine recounted.goes goes ?_ ?_ ?_
  · rw [result]
    exact (drawing.tends_apply change).around
  · have sheet := congrArg Sheet.target (goes.sheet _ (after.spells_store _))
    exact sheet.trans (drawing.target_edited _ recounted.target change)
  · rw [result]
    exact Draft.join_apply recounted.join change

/-- **A question is recounted.** -/
theorem ask (recounted : Recounted ⟨draft, turns, pending⟩ drawing) (question : Question) :
    ∃ after, Recounted ⟨draft.asked question, turns, pending⟩ after := by
  obtain rfl : drawing.draft = draft := recounted.draft
  obtain ⟨after, result, goes⟩ := drawing.asked question
  refine ⟨after, ?_⟩
  have scope : (drawing.draft.asked question).scope = drawing.draft.scope := by
    cases question <;> rfl
  rw [← result]
  refine recounted.goes goes ?_ ?_ ?_
  · rw [result]
    cases question <;> rfl
  · have sheet := congrArg Sheet.target (goes.sheet _ (after.spells_store _))
    exact sheet.trans recounted.target
  · rw [result, scope]
    exact recounted.join

/-! ### What is opened -/

/-- **A scope that is opened is recounted**: nothing has happened in it. What it is opened as leaves the
same behind. -/
theorem opens (recounted : Recounted ⟨drawing.draft, turns, pending⟩ drawing)
    {opening told : Opening} {inner : Slot} {kind : ScopeKind} {handback : Handback}
    {changed : Outline} {target : Option Target}
    (opens : drawing.Opens opening inner kind handback changed target)
    (opened : Draft.openedKind? opening = some kind) (admits : drawing.draft.admits opening = true)
    (single : ∀ kind table column operator, opening ≠ .joinOperand kind table column operator)
    (leaves : opening.target? = told.target? ∧ opening.takesName = told.takesName ∧
      opening.keepsJoin = told.keepsJoin) :
    Recounted ⟨drawing.draft.enter opening, [],
      (told, drawing.draft.enterTurns opening ++ turns) :: pending⟩ opens.entered := by
  obtain ⟨outer, around, frame, join⟩ :=
    Draft.exists_around recounted.join opened admits single
  have root : outer.root = drawing.root := congrArg Prod.fst frame
  have handedBack := (drawing.descends_enter opened admits).handback
  have same : handback = ⟨opening.takesName, opening.keepsJoin⟩ :=
    (congrArg (fun frame => frame.2.2) opens.frame_entered).symm.trans handedBack
  have aims : target = opening.target? :=
    (congrArg Sheet.target (opens.sheet fun _ => [])).trans
      (drawing.target_received opened admits single _)
  have nothing := opens.outline_entered
  have held := opens.entered.sketched.heldScope.join
  rw [← Drawing.root, ← Drawing.outline, nothing] at held
  refine ⟨rfl, ?_, held, ?_⟩
  · rw [nothing]
    rfl
  · have pends := recounted.pending
    rw [Draft.opens_eq] at pends
    show Pending opens.entered.outlines (drawing.draft.enter opening).opens _
    rw [Draft.opens_eq, around]
    refine .inside ⟨?_, join, ?_⟩ (pends.congr frame fun scope isOuter => ?_)
    · rw [handedBack, leaves.2.1, leaves.2.2]
    · have named := opens.named
      rw [same, aims, leaves.1, leaves.2.1] at named
      rw [root, opens.outlines_entered_root, named]
      exact congrArg (if told.takesName then some · else none) opens.root_entered.symm
    · obtain ⟨known, apart⟩ := around_known drawing isOuter
      exact opens.outlines_entered known apart

/-- A join with an operand is recounted as a join that a condition follows. -/
theorem exists_joined (recounted : Recounted ⟨drawing.draft, turns, pending⟩ drawing)
    {join : JoinKind} {table column operator : String}
    (admits : drawing.draft.admits (.joinOperand join table column operator) = true) :
    ∃ between : Drawing,
      between.draft.admits (.condition .joinOn .and (.operand column operator)) = true ∧
      drawing.draft.enter (.joinOperand join table column operator) =
        between.draft.enter (.condition .joinOn .and (.operand column operator)) ∧
      Recounted ⟨between.draft,
        drawing.draft.enterTurns (.joinOperand join table column operator) ++ turns, pending⟩
        between := by
  obtain ⟨-, takes, entering⟩ := Draft.enter_joinOperand admits
  obtain ⟨between, met, -⟩ := recounted.edit (.join join table)
  have draft : between.draft = drawing.draft.join join table := met.draft
  rw [Draft.editTurns_join, Draft.apply, ← draft] at met
  rw [← draft] at takes entering
  exact ⟨between, takes, entering, met⟩

/-- **Opening something is recounted.** -/
theorem enter (recounted : Recounted ⟨draft, turns, pending⟩ drawing) (opening : Opening) :
    ∃ after, Recounted (entered ⟨draft, turns, pending⟩ opening) after := by
  obtain rfl : drawing.draft = draft := recounted.draft
  unfold entered
  dsimp only
  split
  · next opens =>
    obtain ⟨admits, some_⟩ := opens
    obtain ⟨kind, opened⟩ := Option.isSome_iff_exists.mp some_
    by_cases operand : ∃ kind table column operator,
      opening = .joinOperand kind table column operator
    · -- The join is made first, and the operand is opened as a condition on it.
      obtain ⟨join, table, column, operator, rfl⟩ := operand
      obtain rfl : ScopeKind.subquery = kind := Option.some.inj opened
      obtain ⟨between, takes, entering, met⟩ := recounted.exists_joined admits
      obtain ⟨inner, handback, changed, target, opens⟩ := between.exists_opens rfl takes (by simp)
      rw [entering]
      have nothing : between.draft.enterTurns (.condition .joinOn .and (.operand column operator)) =
          [] := ite_self _
      have last : Recounted ⟨_, [], (.joinOperand join table column operator, _) :: pending⟩ _ :=
        met.opens opens rfl takes (by simp) ⟨rfl, rfl, rfl⟩
      rw [nothing] at last
      exact ⟨_, last⟩
    · have single (join : JoinKind) (table column operator : String) :
          opening ≠ .joinOperand join table column operator := fun same =>
        operand ⟨join, table, column, operator, same⟩
      obtain ⟨inner, handback, changed, target, opens⟩ := drawing.exists_opens opened admits single
      exact ⟨_, recounted.opens opens opened admits single ⟨rfl, rfl, rfl⟩⟩
  · next refused =>
    rcases Draft.enter_without_scope refused with ⟨same, nothing⟩ | ⟨kind, table, join, turn⟩
    · rw [same, nothing]
      exact ⟨drawing, recounted⟩
    · rw [join, turn]
      obtain ⟨after, met, -⟩ := recounted.edit (.join kind table)
      exact ⟨after, met⟩

/-! ### What is closed -/

/-- The statement itself stays open. -/
theorem close_eq_self {draft : Draft} (alone : draft.around = []) : draft.close = draft := by
  have opens := draft.opens_eq
  rw [alone] at opens
  unfold Draft.close
  split
  · rfl
  · next nested =>
    rw [Draft.opens, nested] at opens
    exact absurd (List.cons.inj opens).2 (List.append_ne_nil_of_right_ne_nil _ (by simp))

/-- A scope inside of another one is closed: that one goes on with what was met, and with what the
closed scope leaves to it. -/
theorem close_inside (drawing : Drawing) {outer : Scope} {around : List Scope} {opening : Opening}
    {met : List Turn} {rest : List (Opening × List Turn)}
    (outside : drawing.draft.around = outer :: around)
    (awaits : Awaits drawing.outlines drawing.draft.scope outer opening met)
    (pends : Pending drawing.outlines (outer :: around) rest) :
    ∃ after, Recounted ⟨drawing.draft.close, .closed opening :: met, rest⟩ after := by
  obtain ⟨opens, -⟩ := Draft.opens_close outside
  cases nested : drawing.draft.nested with
  | nil =>
    rw [Draft.around, nested] at outside
    cases outside
  | cons closed remaining =>
    obtain ⟨next, beyond, found, apart, -, aiming⟩ := drawing.sketched.closed_aiming nested
    obtain ⟨rfl, rfl⟩ := List.cons.inj (found.symm.trans outside)
    have scope : drawing.draft.scope = closed := by
      unfold Draft.scope
      rw [nested]
      rfl
    rw [scope] at awaits opens
    have sketched := aiming opening.target? (awaits.handback ▸ awaits.named) awaits.placed
    have opensAgain := opens
    rw [Draft.opens_eq] at opensAgain
    obtain ⟨resumed, -⟩ := List.cons.inj opensAgain
    let after : Drawing := ⟨_, _, _, sketched⟩
    have root : after.root = next.root := by
      show drawing.draft.close.scope.root = next.root
      rw [resumed, Scope.resume]
    have outline : after.outline = (drawing.outlines next.root).resumed opening.target?
        closed.handback.keepsJoin := by
      rw [Drawing.outline, root]
      exact Function.update_self _ _ _
    refine ⟨after, rfl, congrArg Outline.target outline, ?_, ?_⟩
    · show drawing.draft.close.scope.join = if opening.keepsJoin then Turn.join? met else none
      rw [resumed, Scope.resume, awaits.handback, awaits.join]
    · show Pending _ drawing.draft.close.opens rest
      rw [opens]
      refine pends.congr rfl fun found isOuter => ?_
      have stacked := drawing.sketched.stacked
      rw [outside, scope] at stacked
      have away : found.root ≠ closed.root :=
        stacked.ne_of_around (List.mem_cons_of_mem next isOuter)
      have awayToo : found.root ≠ next.root := by
        have separate := stacked.separate
        rw [List.map_cons, List.nodup_cons, List.map_cons, List.nodup_cons] at separate
        exact fun same => separate.2.1 (same ▸ List.mem_map_of_mem isOuter)
      exact (Function.update_of_ne awayToo _ _).trans (Function.update_of_ne away _ _)

/-- **A scope that is closed is recounted.** -/
theorem close (recounted : Recounted ⟨draft, turns, pending⟩ drawing) :
    ∃ after, Recounted (left ⟨draft, turns, pending⟩) after := by
  obtain rfl : drawing.draft = draft := recounted.draft
  have pends := recounted.pending
  rw [Draft.opens_eq] at pends
  generalize outside : drawing.draft.around = around at pends
  cases pends with
  | alone =>
    refine ⟨drawing, ?_⟩
    show Recounted ⟨drawing.draft.close, turns, []⟩ drawing
    rw [close_eq_self outside]
    exact recounted
  | inside awaits pends => exact close_inside drawing outside awaits pends

/-! ### All moves -/

/-- A draft with nothing but its own scope remembers nothing. -/
theorem new {draft : Draft} (sketched : draft.Sketched [draft.root] fun _ => .silent .statement)
    (alone : draft.nested = []) : Recounted (new draft) ⟨draft, [draft.root], _, sketched⟩ := by
  refine ⟨rfl, rfl, sketched.heldScope.join, ?_⟩
  show Pending _ draft.opens []
  rw [Draft.opens, alone]
  exact .alone draft.base

/-- **A move is recounted.** -/
theorem step {chronicle : Chronicle} (recounted : Recounted chronicle drawing) (move : Move) :
    ∃ after, Recounted (chronicle.step move) after := by
  obtain ⟨draft, turns, pending⟩ := chronicle
  cases move with
  | edit change =>
    obtain ⟨after, met, -⟩ := recounted.edit change
    exact ⟨after, met⟩
  | ask question => exact recounted.ask question
  | startOver => exact ⟨_, new (Draft.Sketched.startOver draft) rfl⟩
  | finish => exact ⟨_, new (Draft.Sketched.start Settings.standard) rfl⟩
  | enter opening => exact recounted.enter opening
  | close => exact recounted.close

end Recounted

/-- **After any moves the draft remembers what its chronicle tells.** -/
theorem recounted_after (settings : Settings) (moves : List Move) :
    ∃ drawing, Recounted (after settings moves) drawing := by
  unfold after
  induction moves using List.reverseRecOn with
  | nil => exact ⟨_, Recounted.new (Draft.Sketched.start settings) rfl⟩
  | append_singleton moves move step =>
    obtain ⟨drawing, recounted⟩ := step
    rw [List.foldl_concat]
    exact recounted.step move

end Chronicle

end SqlDraft
