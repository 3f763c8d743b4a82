/-
**Conditions that are attached to a join.**

A condition on a join is one subtree that is added to the tree: behind the conditions of the join, or
with a new `ON` behind all else in it. Nothing else changes, also when the condition contains a scope
that is filled:

* `Store.Attaches`: one condition was attached to a join.
* `Store.extends_placeCondition`, `Store.payloads_mark`: a mark is added, and what is said below it.
* **`Draft.attaches_restrict`**, **`Drawing.attaches_run`**: a condition, and one with a scope.
-/

import SqlDraft.Proofs.Run.Locality
import SqlDraft.Proofs.Store.Extending

namespace SqlDraft

namespace Store

variable {store ready room other : Store} {place mark slot join : Slot}

/-! ### One more condition -/

/-- **A condition was attached to a join**, behind the conditions that it had, or below a new `ON` behind
all else that it had. -/
inductive Attaches (store other : Store) (join : Slot) (logic : Connective) (body : List Payload) : Prop
  | behind {place mark : Slot} (found : store.childWith? join .joinOn = some place)
      (extended : store.Extends other place mark)
      (reads : other.payload mark :: other.payloadsBelow mark =
        Remark.payloads (store.children place).isEmpty ⟨logic, body⟩)
  | first {place mark : Slot} (missing : store.childWith? join .joinOn = none)
      (extended : store.Extends other join place) (word : other.payload place = .keyword .joinOn)
      (only : other.children place = [mark])
      (reads : other.payload mark :: other.payloadsBelow mark = Remark.payloads true ⟨logic, body⟩)

/-! ### Marks -/

section Marks

variable (forest : store.Forest) (inUse : store.InUse place) (logic : Connective)

include forest inUse

theorem extends_pushMark : store.Extends (store.pushMark place logic) place store.fresh :=
  (grown_addChild forest inUse _).extends_ forest

omit inUse in
/-- A condition goes below its mark, or below a negation there. -/
theorem placeCondition_cases :
    (logic.marks (store.children place).isEmpty = [store.conditionMark place logic] ∧
      store.placeCondition place logic = store.pushMark place logic ∧
      store.conditionSlot place logic = store.fresh) ∨
    (logic.marks (store.children place).isEmpty = [store.conditionMark place logic, .not] ∧
      store.placeCondition place logic =
        (store.pushMark place logic).addChild store.fresh (.keyword .not) ∧
      store.conditionSlot place logic = (store.pushMark place logic).fresh) := by
  unfold placeCondition conditionSlot negatesBelow conditionMark Connective.marks
  rw [forest.firstChild?_eq_head?]
  cases store.children place with
  | nil => exact .inl ⟨rfl, rfl, rfl⟩
  | cons child rest =>
    cases logic.negates with
    | false => exact .inl ⟨rfl, rfl, rfl⟩
    | true => exact .inr ⟨rfl, rfl, rfl⟩

/-- **Room for one more condition is a new mark**, below which the condition goes. -/
theorem extends_placeCondition :
    store.Extends (store.placeCondition place logic) place store.fresh ∧
      (store.placeCondition place logic).Reaches store.fresh (store.conditionSlot place logic) ∧
      (store.placeCondition place logic).InUse (store.conditionSlot place logic) ∧
      (store.placeCondition place logic).children (store.conditionSlot place logic) = [] := by
  have marked := extends_pushMark forest inUse logic
  have grown : store.Grown (store.pushMark place logic) place _ (store.children place) [] :=
    grown_addChild forest inUse _
  rcases placeCondition_cases forest logic with ⟨-, room, slot⟩ | ⟨-, room, slot⟩
  · rw [room, slot]
    exact ⟨marked, Relation.ReflTransGen.refl, grown.inUse_fresh, grown.children_fresh forest⟩
  · rw [room, slot]
    have grownToo := grown_addChild marked.forest grown.inUse_fresh (.keyword .not)
    have bare := grown.children_fresh forest
    have negated : (store.pushMark place logic).Extends _ store.fresh _ :=
      grownToo.extends_ marked.forest
    exact ⟨marked.trans Relation.ReflTransGen.refl negated, reaches_child negated.top_mem,
      grownToo.inUse_fresh, grownToo.children_fresh marked.forest⟩

/-- **A mark is read before what is said below it.** -/
theorem payloads_mark (otherForest : other.Forest)
    (keeps : (store.placeCondition place logic).KeepsBut other (store.conditionSlot place logic)) :
    other.payload store.fresh :: other.payloadsBelow store.fresh =
      (logic.marks (store.children place).isEmpty).map Payload.keyword ++
        other.payloadsBelow (store.conditionSlot place logic) := by
  have marked := extends_pushMark forest inUse logic
  have grown : store.Grown (store.pushMark place logic) place
      (.keyword (store.conditionMark place logic)) (store.children place) [] :=
    grown_addChild forest inUse _
  rcases placeCondition_cases forest logic with ⟨marks, room, slot⟩ | ⟨marks, room, slot⟩
  · rw [room, slot] at keeps
    rw [slot, marks, keeps.payload _ grown.inUse_fresh, grown.payload_fresh]
    rfl
  · rw [room, slot] at keeps
    have grownToo := grown_addChild marked.forest grown.inUse_fresh (.keyword .not)
    have apart : store.fresh ≠ (store.pushMark place logic).fresh := grown.inUse_fresh.ne_fresh
    have inUseToo := grownToo.inUse_of_inUse grown.inUse_fresh
    have row : other.children store.fresh = [(store.pushMark place logic).fresh] := by
      rw [keeps.children _ inUseToo apart, grownToo.children_parent, grown.children_fresh forest]
      rfl
    rw [slot, marks, otherForest.payloadsBelow_eq_flatMap store.fresh, row,
      keeps.payload _ inUseToo, grownToo.payload_of_inUse grown.inUse_fresh, grown.payload_fresh,
      List.flatMap_singleton, keeps.payload _ grownToo.inUse_fresh, grownToo.payload_fresh]
    rfl

end Marks

/-- What stands before a scope is added below a node that has nothing yet. -/
theorem exists_led (forest : room.Forest) (inUse : room.InUse slot) (bare : room.children slot = [])
    (lead : Option Payload) :
    ∃ led, led = (lead.elim room fun content => room.addChild slot content) ∧ led.Forest ∧
      room.KeepsBut led slot ∧ led.InUse slot ∧
      (∀ (store : Store) (place mark : Slot), store.Extends room place mark → room.Reaches mark slot →
        store.Extends led place mark ∧ led.Reaches mark slot) ∧
      ∀ other, other.Forest → led.KeepsBut other slot →
        ((led.children slot).flatMap fun child => other.payload child :: other.payloadsBelow child) =
          lead.toList := by
  cases lead with
  | none =>
    refine ⟨room, rfl, forest, .refl room slot, inUse, fun _ _ _ extended reaches =>
      ⟨extended, reaches⟩, fun other _ _ => ?_⟩
    rw [bare]
    rfl
  | some content =>
    have grown := grown_addChild forest inUse content
    have extended := grown.extends_ forest
    refine ⟨_, rfl, grown.forest, extended.toKeepsBut, grown.inUse_of_inUse inUse,
      fun _ _ _ before reaches => ⟨before.trans reaches extended, extended.reaches forest reaches⟩,
      fun other otherForest (keeps : (room.addChild slot content).KeepsBut other slot) => ?_⟩
    have childless : other.children room.fresh = [] := by
      rw [keeps.children _ grown.inUse_fresh inUse.ne_fresh.symm, grown.children_fresh forest]
    show List.flatMap _ ((room.addChild slot content).children slot) = [content]
    rw [extended.children_parent, bare, List.nil_append, List.flatMap_singleton,
      otherForest.payloadsBelow_eq_flatMap, childless, keeps.payload _ grown.inUse_fresh,
      grown.payload_fresh]
    rfl

end Store

namespace Draft

variable {draft : Draft} {join place : Slot} {other : Store}

section Join

variable (forest : draft.store.Forest) (sound : draft.scope.Sound draft.store)
  (plain : draft.inGroup = false) (remembered : draft.scope.join = some join)

include forest sound plain remembered

omit forest sound in
theorem takesCondition_of_join : draft.takesCondition .joinOn = true := by
  rw [takesCondition, plain, remembered]
  rfl

omit forest sound in
/-- The conditions of the current join stand in its `ON`, which is added where it is missing. -/
theorem joinPlace_cases :
    (∃ place, draft.store.childWith? join .joinOn = some place ∧
      draft.conditionPlace? .joinOn = some place ∧ draft.withConditions .joinOn = draft) ∨
    (draft.store.childWith? join .joinOn = none ∧
      draft.conditionPlace? .joinOn = some draft.store.fresh ∧
      draft.withConditions .joinOn = draft.alter (·.addChild join (.keyword .joinOn))) := by
  unfold conditionPlace? withConditions
  rw [plain, if_neg Bool.false_ne_true, if_neg Bool.false_ne_true, remembered, Option.map_some]
  dsimp only
  cases draft.store.childWith? join .joinOn with
  | some place => exact .inl ⟨place, rfl, rfl, rfl⟩
  | none => exact .inr ⟨rfl, rfl, rfl⟩

/-- A mark that is added where the conditions of the current join go attaches a condition to it. -/
theorem attaches_of_extends {logic : Connective} {body : List Payload}
    (known : draft.conditionPlace? .joinOn = some place)
    (extended : (draft.withConditions .joinOn).store.Extends other place
      (draft.withConditions .joinOn).store.fresh)
    (reads : other.payload (draft.withConditions .joinOn).store.fresh ::
        other.payloadsBelow (draft.withConditions .joinOn).store.fresh =
      (logic.marks ((draft.withConditions .joinOn).store.children place).isEmpty).map
        Payload.keyword ++ body) :
    draft.store.Attaches other join logic body := by
  rcases joinPlace_cases plain remembered with ⟨found, child, here, ready⟩ | ⟨missing, here, ready⟩
  · obtain rfl : found = place := Option.some.inj (here.symm.trans known)
    rw [ready] at extended reads
    exact .behind child extended reads
  · obtain rfl : draft.store.fresh = place := Option.some.inj (here.symm.trans known)
    have grown := Store.grown_addChild forest (sound.join join remembered).1.1 (.keyword .joinOn)
    have bare := grown.children_fresh forest
    rw [ready] at extended reads
    refine @Store.Attaches.first _ _ _ _ _ _
      (draft.store.addChild join (.keyword .joinOn)).fresh missing
      ((grown.extends_ forest).trans .refl extended) ?_ ?_ ?_
    · exact (extended.payload _ grown.inUse_fresh).trans grown.payload_fresh
    · exact extended.children_parent.trans (congrArg (· ++ _) bare)
    · refine reads.trans ?_
      rw [store_alter, bare]
      rfl

/-- **A condition is attached to the current join.** -/
theorem attaches_restrict (logic : Connective) (condition : Condition) :
    draft.store.Attaches (draft.restrict .joinOn logic condition).store join logic
      [.literal condition.sql] := by
  obtain ⟨place, known⟩ := exists_conditionPlace (takesCondition_of_join plain remembered)
  obtain ⟨ready, reaches⟩ := tends_withConditions forest sound known
  have within := ready.within
  have inUse := within.forest.inUse_of_reaches reaches within.inUse_root
  obtain ⟨marked, below, inUseSlot, bare⟩ :=
    Store.extends_placeCondition within.forest inUse logic
  have grown := Store.grown_addChild marked.forest inUseSlot (.literal condition.sql)
  have filled := grown.extends_ marked.forest
  have result : (draft.restrict .joinOn logic condition).store =
      ((draft.withConditions .joinOn).store.placeCondition place logic).addChild
        ((draft.withConditions .joinOn).store.conditionSlot place logic)
        (.literal condition.sql) := by
    rw [restrict, known]
    rfl
  rw [result]
  refine attaches_of_extends forest sound plain remembered known (marked.trans below filled) ?_
  rw [Store.payloads_mark within.forest inUse logic filled.forest filled.toKeepsBut,
    filled.payloadsBelow_parent, bare, filled.forest.payloadsBelow_eq_flatMap,
    grown.children_fresh marked.forest, grown.payload_fresh]
  rfl

/-- **A condition with a scope is attached to the current join**, whatever has happened in the scope. -/
theorem attaches_openCondition (logic : Connective) (nested : NestedCondition)
    (within : (draft.openCondition .joinOn logic nested).store.Within other
      (draft.openCondition .joinOn logic nested).scope.root)
    (blank : other.payload (draft.openCondition .joinOn logic nested).scope.root = .blank) :
    draft.store.Attaches other join logic (nested.lead?.toList ++
      .blank :: other.payloadsBelow (draft.openCondition .joinOn logic nested).scope.root) := by
  obtain ⟨place, known⟩ := exists_conditionPlace (takesCondition_of_join plain remembered)
  obtain ⟨ready, reaches⟩ := tends_withConditions forest sound known
  have tended := ready.within
  have inUse := tended.forest.inUse_of_reaches reaches tended.inUse_root
  obtain ⟨marked, below, inUseSlot, bare⟩ :=
    Store.extends_placeCondition tended.forest inUse logic
  obtain ⟨led, lead, forestLed, keeps, inUseLed, chain, reads⟩ :=
    Store.exists_led marked.forest inUseSlot bare nested.lead?
  obtain ⟨markedLed, belowLed⟩ := chain _ _ _ marked below
  have result : (draft.openCondition .joinOn logic nested).store = led.addChild
        ((draft.withConditions .joinOn).store.conditionSlot place logic) .blank ∧
      (draft.openCondition .joinOn logic nested).scope.root = led.fresh := by
    rw [openCondition, known, lead]
    dsimp only
    rw [Sketched.pushLead_eq]
    exact ⟨rfl, rfl⟩
  rw [result.1, result.2] at within
  rw [result.2] at blank ⊢
  have opened := (Store.grown_addChild forestLed inUseLed .blank).extends_ forestLed
  have filled := opened.within .refl within
  refine attaches_of_extends forest sound plain remembered known (markedLed.trans belowLed filled) ?_
  rw [Store.payloads_mark tended.forest inUse logic filled.forest (keeps.trans filled.toKeepsBut),
    filled.payloadsBelow_parent, reads _ filled.forest filled.toKeepsBut, blank]

end Join

/-- Without a current join no condition is attached to one. -/
theorem restrict_of_no_join (plain : draft.inGroup = false) (missing : draft.scope.join = none)
    (logic : Connective) (condition : Condition) :
    draft.restrict .joinOn logic condition = draft := by
  rw [restrict, conditionPlace?_of_not_takes (not_takes_of_missing plain missing)]

theorem run_of_no_join (plain : draft.inGroup = false) (missing : draft.scope.join = none)
    (logic : Connective) (nested : NestedCondition) (program : List Call) :
    Call.run draft (.within (.condition .joinOn logic nested) program) = draft := by
  have refused := not_takes_of_missing plain missing
  rw [Call.run, admits, refused, if_neg Bool.false_ne_true, enter, openCondition,
    conditionPlace?_of_not_takes refused]

end Draft

namespace Drawing

variable (drawing : Drawing) {join : Slot}

/-- **A condition with a scope that a program fills is attached to the current join**, and its scope says
what the program says. -/
theorem attaches_run (plain : drawing.draft.inGroup = false)
    (remembered : drawing.draft.scope.join = some join) (logic : Connective)
    (nested : NestedCondition) {program : List Call} (on : Call.goOn program = true) :
    drawing.draft.store.Attaches
      (Call.run drawing.draft (.within (.condition .joinOn logic nested) program)).store join logic
      (nested.lead?.toList ++
        .blank :: (Call.sayAll (.silent nested.kind) program).enclosed nested.kind) := by
  have admits : drawing.draft.admits (.condition .joinOn logic nested) = true :=
    Draft.takesCondition_of_join plain remembered
  obtain ⟨-, after, result, encloses⟩ :=
    exists_encloses rfl admits fun entered => entered.runAll program on
  obtain ⟨entered, draft, -⟩ := drawing.exists_entered rfl admits
  have tends := entered.tends_runAll program on
  rw [draft] at tends
  obtain ⟨leaving, shut, -⟩ := (drawing.descends_enter rfl admits).closed tends
  have closed : (Call.runAll (drawing.draft.enter (.condition .joinOn logic nested)) program).close =
      after.draft := by
    rw [result, Call.run, if_pos admits, leaving]
  have within := tends.within.trans shut
  have attached := Draft.attaches_openCondition drawing.forest drawing.sound plain remembered logic
    nested within (by rw [closed]; exact after.sketched.drawn.blank _ encloses.isScope)
  have body : after.draft.store.payloadsBelow
      (drawing.draft.openCondition .joinOn logic nested).scope.root = _ :=
    encloses.body _ (after.spells_store _)
  rw [closed, body] at attached
  rwa [result] at attached

end Drawing

end SqlDraft
