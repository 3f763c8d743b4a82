/-
**Scopes that are opened in an outline.**

A scope is opened in a fresh slot below a node of the innermost scope, and is the innermost one from
then on. What was said around it stays as it is until it is closed:

* `Draft.Sketched.entered`: a scope is opened, wherever it stands.
* `Draft.Sketched.openTable`, `Draft.Sketched.openJoin`, `Draft.Sketched.openUnion`,
  `Draft.Sketched.openCondition`: the places it may stand in.
* `Draft.Sketched.start`, `Draft.Sketched.startOver`: the scope of the statement itself.
-/

import SqlDraft.Draft.Nesting
import SqlDraft.Proofs.Sketch.Conditions

namespace SqlDraft

/-! ### Outlines of new scopes -/

namespace Outline

/-- A scope in which nothing was said yet. -/
def silent (kind : ScopeKind) : Outline := { kind }

/-- An outline with one more branch of a union. -/
def united (outline : Outline) (slot : Slot) (all : Bool) (root : Slot) : Outline :=
  { outline with unions := outline.unions ++ [⟨slot, ⟨all, root⟩⟩] }

theorem trees_silent (kind : ScopeKind) : (silent kind).trees = [] := by
  cases kind <;> rfl

theorem row_united (outline : Outline) (slot : Slot) (all : Bool) (root : Slot) (found : Nat)
    (different : found ≠ 6) : (outline.united slot all root).row found = outline.row found := by
  match found with
  | 6 => exact absurd rfl different
  | 0 | 1 | 2 | 3 | 4 | 5 | 7 | 8 | _ + 9 => rfl

theorem row_six_united (outline : Outline) (slot : Slot) (all : Bool) (root : Slot) :
    (outline.united slot all root).row 6 = outline.row 6 ++
      .node (some slot) (.keyword (if all then .unionAll else .union)) [.scope root] :: [] := by
  show List.map _ (outline.unions ++ [_]) = _
  rw [List.map_append]
  rfl

end Outline

theorem Scope.held_opened (root : Slot) (kind : ScopeKind) (handback : Handback) :
    (Scope.opened root kind handback).Held (.silent kind) where
  kind := rfl
  opened := rfl
  command := rfl
  table := rfl
  join := rfl
  target := rfl
  placed _ goes := nomatch goes
  crossing joins := nomatch joins
  ordered _ sorts := nomatch sorts
  bare _ := ⟨rfl, rfl, rfl⟩

namespace Draft.Sketched

variable {draft : Draft} {scopes : List Slot} {outlines : Slot → Outline}

/-! ### A scope inside the innermost one -/

/-- **A scope is opened inside the innermost one.** -/
theorem entered (sketched : draft.Sketched scopes outlines) {grow : Store → Store}
    {change : Scope → Scope} {outline : Outline} {inner : Slot} {innerKind : ScopeKind}
    {innerHandback : Handback}
    (drawn : (grow draft.store).Drawn draft.root (inner :: scopes) (Function.update
      (Function.update (fun root => (outlines root).trees) draft.scope.root outline.trees) inner []))
    (isNew : inner ∉ scopes) (root : (change draft.scope).root = draft.scope.root)
    (handback : (change draft.scope).handback = draft.scope.handback)
    (kind : (change draft.scope).kind = draft.scope.kind)
    (held : (change draft.scope).Held outline) (nested : innerKind ≠ .statement)
    (stands : inner ∈ Tree.scopes outline.trees)
    (named : innerHandback.takesName = true → ∃ target, outline.place? target = some inner) :
    (((draft.alter grow).adjust change).openScope
      (.opened inner innerKind innerHandback)).Sketched (inner :: scopes) (Function.update
        (Function.update outlines draft.scope.root outline) inner (.silent innerKind)) := by
  have opens : (((draft.alter grow).adjust change).openScope
      (.opened inner innerKind innerHandback)).opens =
        .opened inner innerKind innerHandback :: change draft.scope :: draft.around := by
    have adjusted := opens_adjust (draft.alter grow) change
    exact congrArg (List.cons (Scope.opened inner innerKind innerHandback)) adjusted
  have rootEq : (((draft.alter grow).adjust change).openScope
      (.opened inner innerKind innerHandback)).root = draft.root :=
    root_adjust (draft.alter grow) root
  have inside : (Scope.opened inner innerKind innerHandback).Inside
      (Function.update outlines draft.scope.root outline) (change draft.scope) := by
    refine ⟨nested, ?_, ?_⟩
    · rw [root, Function.update_self]
      exact stands
    · rw [root, Function.update_self]
      exact named
  refine ⟨?_, ?_, ?_⟩
  · rw [opens]
    exact (sketched.stacked.revised root handback kind held).pushed isNew
      (Scope.held_opened inner innerKind innerHandback) inside
  · rw [rootEq]
    show Store.Drawn (((draft.alter grow).adjust change).store) _ _ _
    rw [store_adjust, trees_update, trees_update, Outline.trees_silent]
    exact drawn
  · show ((draft.alter grow).adjust change).base.kind = .statement
    rw [base_kind_adjust (draft.alter grow) kind]
    exact sketched.statement

/-! ### Where a scope may stand -/

/-- A scope is opened in a new clause of the innermost one. -/
theorem enteredClause (sketched : draft.Sketched scopes outlines) (plain : draft.inGroup = false)
    {rank : Nat} {word : Keyword} (known : word.rank? = some rank) (inside : rank < 9)
    {change : Scope → Scope} {changed : Outline} {innerKind : ScopeKind} {innerHandback : Handback}
    (row : changed.row rank = (outlines draft.scope.root).row rank ++
      .node (some draft.store.fresh) (.keyword word)
        [.scope (draft.store.addClause draft.scope.root word).fresh] :: [])
    (same : ∀ found, found ≠ rank → changed.row found = (outlines draft.scope.root).row found)
    (root : (change draft.scope).root = draft.scope.root)
    (handback : (change draft.scope).handback = draft.scope.handback)
    (kind : (change draft.scope).kind = draft.scope.kind)
    (held : (change draft.scope).Held changed) (nested : innerKind ≠ .statement)
    (named : innerHandback.takesName = true →
      ∃ target, changed.place? target = some (draft.store.addClause draft.scope.root word).fresh) :
    (((draft.alter (·.addClause draft.scope.root word)).adjust change).openBelow draft.store.fresh
        innerKind innerHandback).scope.root = (draft.store.addClause draft.scope.root word).fresh ∧
      (draft.store.addClause draft.scope.root word).fresh ∉ scopes ∧
      (((draft.alter (·.addClause draft.scope.root word)).adjust change).openBelow
        draft.store.fresh innerKind innerHandback).Sketched
        ((draft.store.addClause draft.scope.root word).fresh :: scopes) (Function.update
          (Function.update outlines draft.scope.root changed)
            (draft.store.addClause draft.scope.root word).fresh (.silent innerKind)) := by
  have ungrouped : changed.kind ≠ .group := by
    rw [held.kind, kind]
    exact of_decide_eq_false plain
  obtain ⟨trees, shown, drawn, isNew, stands⟩ := sketched.addedScope plain known inside
  rw [← Outline.clauses_of_row_eq inside same row, ← Outline.trees_eq_clauses held.opened ungrouped]
    at shown
  subst shown
  unfold Draft.openBelow
  rw [alter_adjust, alter_alter, store_adjust]
  exact ⟨rfl, isNew, sketched.entered drawn isNew root handback kind held nested stands named⟩

/-- **A statement is opened as the table.** -/
theorem openTable (sketched : draft.Sketched scopes outlines) (can : draft.canTakeTable = true) :
    ∃ inner, draft.openTable.scope.root = inner ∧ inner ∉ scopes ∧
      draft.openTable.Sketched (inner :: scopes) (Function.update (Function.update outlines
        draft.scope.root ((outlines draft.scope.root).tabled draft.store.fresh (.scope inner)))
          inner (.silent .subquery)) := by
  obtain ⟨plain, free⟩ := canTakeTable_iff.mp can
  have absent := sketched.table_eq_none free
  have word := rank?_tableKeyword (outlines draft.scope.root)
  rw [← sketched.tableKeyword_eq plain] at word
  refine ⟨(draft.store.addClause draft.scope.root draft.tableKeyword).fresh, ?_⟩
  unfold Draft.openTable Draft.addTable
  rw [if_pos can]
  refine sketched.enteredClause plain word (by decide) ?_ (Outline.row_tabled _ _ _) rfl rfl rfl
    (sketched.heldScope.tabled (sketched.kind_ne_group plain) absent _ _) (by decide)
    fun _ => ⟨.table, rfl⟩
  rw [row_one_of_none absent, sketched.tableKeyword_eq plain]
  rfl

/-- **A statement is opened as a joined table.** -/
theorem openJoin (sketched : draft.Sketched scopes outlines) (plain : draft.inGroup = false)
    (kind : JoinKind) : ∃ inner, (draft.openJoin kind).scope.root = inner ∧ inner ∉ scopes ∧
      (draft.openJoin kind).Sketched (inner :: scopes) (Function.update (Function.update outlines
        draft.scope.root ((outlines draft.scope.root).joined draft.store.fresh kind (.scope inner)))
          inner (.silent .subquery)) := by
  refine ⟨(draft.store.addClause draft.scope.root kind.keyword).fresh, ?_⟩
  unfold Draft.openJoin Draft.startJoin
  rw [if_neg (by simp [plain])]
  exact sketched.enteredClause plain (rank?_joinKeyword kind) (by decide)
    (Outline.row_two_joined _ _ _ _) (Outline.row_joined _ _ _ _) rfl rfl rfl
    (sketched.heldScope.joined (sketched.kind_ne_group plain) _ _ _) (by decide)
    fun _ => ⟨.join, Outline.place?_joined _ _ _ _⟩

/-- **A branch of a union is opened.** -/
theorem openUnion (sketched : draft.Sketched scopes outlines) (plain : draft.inGroup = false)
    (all : Bool) : ∃ inner, (draft.openUnion all).scope.root = inner ∧ inner ∉ scopes ∧
      (draft.openUnion all).Sketched (inner :: scopes) (Function.update (Function.update outlines
        draft.scope.root ((outlines draft.scope.root).united draft.store.fresh all inner))
          inner (.silent .union)) := by
  have word : (if all then Keyword.unionAll else .union).rank? = some 6 := by cases all <;> rfl
  refine ⟨(draft.store.addClause draft.scope.root (if all then .unionAll else .union)).fresh, ?_⟩
  unfold Draft.openUnion
  rw [if_neg (show ¬ draft.inGroup = true by simp [plain])]
  show ((draft.alter (·.addClause draft.scope.root (if all then .unionAll else .union))).openBelow
    draft.store.fresh .union ⟨false, false⟩).scope.root = _ ∧ _ ∧ ((draft.alter
      (·.addClause draft.scope.root (if all then .unionAll else .union))).openBelow
        draft.store.fresh .union ⟨false, false⟩).Sketched _ _
  rw [← adjust_id (draft.alter _)]
  exact sketched.enteredClause plain word (by decide) (Outline.row_six_united _ _ _ _)
    (Outline.row_united _ _ _ _) rfl rfl rfl { sketched.heldScope with } (by decide)
    fun takesName => nomatch takesName

/-- What stands before the scope of a condition. -/
theorem pushLead_eq (draft : Draft) (slot : Slot) (nested : NestedCondition) :
    draft.pushLead slot nested = draft.alter fun store =>
      nested.lead?.elim store fun lead => store.addChild slot lead := by
  unfold Draft.pushLead
  cases nested.lead? <;> rfl

/-- **The scope of a condition is opened.** -/
theorem openCondition (sketched : draft.Sketched scopes outlines) {clause : FilterClause}
    {seat : Seat} (goes : (outlines draft.scope.root).seat? clause = some seat) (logic : Connective)
    (nested : NestedCondition) :
    ∃ place mark inner, (draft.openCondition clause logic nested).scope.root = inner ∧
      inner ∉ scopes ∧ (draft.openCondition clause logic nested).Sketched (inner :: scopes)
        (Function.update (Function.update outlines draft.scope.root
          ((outlines draft.scope.root).seated place
            ((outlines draft.scope.root).items seat ++ [⟨mark, logic, .scope nested inner⟩]) seat))
          inner (.silent nested.kind)) := by
  obtain ⟨place, grow, mark, payload, inner, found, ready, trees, drawn, framed⟩ :=
    sketched.placed goes logic
  have led : ∃ lead, (∀ root, lead ++ [.scope root] = (Content.scope nested root).trees) ∧
      (nested.lead?.elim ((grow draft.store).placeCondition place logic) fun lead =>
        ((grow draft.store).placeCondition place logic).addChild
          ((grow draft.store).conditionSlot place logic) lead).Drawn draft.root scopes
        (Function.update (fun root => (outlines root).trees) draft.scope.root
          (inner payload lead)) ∧
      (nested.lead?.elim ((grow draft.store).placeCondition place logic) fun lead =>
        ((grow draft.store).placeCondition place logic).addChild
          ((grow draft.store).conditionSlot place logic) lead).Framed scopes draft.scope.root
        ((grow draft.store).conditionSlot place logic) payload lead inner := by
    cases lead : nested.lead? with
    | none =>
      refine ⟨[], fun root => ?_, drawn, framed⟩
      rw [Content.trees, lead]
      rfl
    | some content =>
      obtain ⟨added, framedAdded⟩ := framed.addChild drawn sketched.isScope content none (by simp)
      rw [Function.update_idem] at added
      refine ⟨[.leaf content], fun root => ?_, added, framedAdded⟩
      rw [Content.trees, lead]
      rfl
  obtain ⟨lead, shown, drawnLead, framedLead⟩ := led
  obtain ⟨added, stands⟩ := framedLead.addScope drawnLead sketched.isScope
  rw [Function.update_idem, shown, trees] at added
  rw [shown, trees] at stands
  refine ⟨place, mark, _, ?_, fun member => Store.fresh_not_inUse _ (drawnLead.inUse _ member), ?_⟩
  all_goals
    unfold Draft.openCondition Draft.openBelow
    simp only [found, ready, pushLead_eq, store_alter, alter_alter]
  · rfl
  rw [← adjust_id (draft.alter _)]
  refine sketched.entered added (fun member => Store.fresh_not_inUse _ (drawnLead.inUse _ member))
    rfl rfl rfl (sketched.heldScope.seated _ _ _) ?_ stands fun takesName => nomatch takesName
  cases nested <;> exact fun same => nomatch same

/-! ### The statement itself -/

/-- A store with one node is a scope in which nothing was said. -/
theorem drawn_start (chunkSize : Nat) : ((Store.empty chunkSize).allocate .blank).Drawn
    (Store.empty chunkSize).fresh [(Store.empty chunkSize).fresh] fun _ => [] := by
  have forest := Store.forest_empty chunkSize
  have isTop := forest.isTop_fresh .blank
  refine ⟨forest.allocate .blank, fun top => ⟨fun isTopToo => ?_, ?_⟩, ?_, ?_, ?_, ?_⟩
  · rcases (forest.inUse_allocate .blank top).mp isTopToo.1 with inUse | same
    · exact absurd inUse.1 (Nat.not_lt_zero top)
    · exact same
  · rintro rfl
    exact isTop
  · rw [forest.node_allocate, Function.update_self]
  · intro root member
    rw [List.mem_singleton.mp member]
    exact isTop.1
  · intro root member
    rw [List.mem_singleton.mp member, forest.payload_allocate, Function.update_self]
  · intro root member
    rw [List.mem_singleton.mp member, forest.children_allocate,
      forest.children_of_not_inUse (Store.fresh_not_inUse _)]
    exact Store.Shows.nil

/-- A draft with nothing but its own scope. -/
theorem alone {draft : Draft} {chunkSize : Nat}
    (store : draft.store = (Store.empty chunkSize).allocate .blank)
    (base : draft.base = .opened (Store.empty chunkSize).fresh .statement ⟨false, false⟩)
    (nested : draft.nested = []) :
    draft.Sketched [draft.root] fun _ => .silent .statement := by
  have opens : draft.opens = [draft.base] := by
    unfold Draft.opens
    rw [nested, List.nil_append]
  have root : draft.root = (Store.empty chunkSize).fresh := by
    unfold Draft.root
    rw [base]
    rfl
  have held : draft.base.Held (.silent .statement) := by
    rw [base]
    exact Scope.held_opened _ _ _
  refine ⟨?_, ?_, ?_⟩
  · rw [opens]
    exact Stacked.alone held
  · rw [store, root]
    exact drawn_start chunkSize
  · rw [base]
    rfl

theorem start (settings : Settings) :
    (Draft.start settings).Sketched [(Draft.start settings).root] fun _ => .silent .statement :=
  alone rfl rfl rfl

theorem startOver (draft : Draft) :
    draft.startOver.Sketched [draft.startOver.root] fun _ => .silent .statement :=
  @alone draft.startOver draft.store.chunkSize rfl rfl rfl

end Draft.Sketched

end SqlDraft
