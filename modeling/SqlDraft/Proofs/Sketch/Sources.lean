/-
**Tables and joins in an outline.**

A table and a join start as a clause without children, which the name of a table or a scope is put
into. Both ways to fill it are seen in the outline as a source:

* `Draft.Sketched.addedFilled`: a clause with a leaf in it.
* `Draft.Sketched.addedScope`: a clause with a scope in it.
* `Draft.Sketched.table`, `Draft.Sketched.join`: the table and the joins of a scope.
-/

import SqlDraft.Proofs.Sketch.Columns

namespace SqlDraft

/-! ### Outlines with sources -/

namespace Outline

variable (outline : Outline)

/-- An outline where a name goes to this target. -/
def aimed (target : Option Target) : Outline := { outline with target }

/-- An outline with a table from this source. -/
def tabled (slot : Slot) (source : Source) : Outline :=
  { outline with table := some ⟨slot, { source }⟩ }

/-- An outline with one more join, where a name goes nowhere. -/
def joined (slot : Slot) (kind : JoinKind) (source : Source) : Outline :=
  { outline with
    joins := outline.joins ++ [⟨slot, { kind, source }⟩]
    joining := kind ≠ .cross
    target := none }

theorem place?_aimed (target : Option Target) : (outline.aimed target).place? = outline.place? := by
  funext found
  cases found <;> rfl

theorem row_tabled (slot : Slot) (source : Source) (found : Nat) (different : found ≠ 1) :
    (outline.tabled slot source).row found = outline.row found := by
  match found with
  | 1 => exact absurd rfl different
  | 0 | 2 | 3 | 4 | 5 | 6 | 7 | 8 | _ + 9 => rfl

theorem row_joined (slot : Slot) (kind : JoinKind) (source : Source) (found : Nat)
    (different : found ≠ 2) : (outline.joined slot kind source).row found = outline.row found := by
  match found with
  | 2 => exact absurd rfl different
  | 0 | 1 | 3 | 4 | 5 | 6 | 7 | 8 | _ + 9 => rfl

theorem row_aimed (target : Option Target) : (outline.aimed target).row = outline.row := by
  funext found
  match found with
  | 0 | 1 | 2 | 3 | 4 | 5 | 6 | 7 | 8 | _ + 9 => rfl

theorem row_two_joined (slot : Slot) (kind : JoinKind) (source : Source) :
    (outline.joined slot kind source).row 2 =
      outline.row 2 ++ .node (some slot) (.keyword kind.keyword) [source.tree] :: [] := by
  show List.map _ (outline.joins ++ [_]) = _
  rw [List.map_append]
  rfl

theorem getLast?_joined (slot : Slot) (kind : JoinKind) (source : Source) :
    (outline.joined slot kind source).joins.getLast? = some ⟨slot, { kind, source }⟩ := by
  show (outline.joins ++ [_]).getLast? = _
  rw [List.getLast?_append, List.getLast?_singleton, Option.some_or]

theorem place?_joined (slot : Slot) (kind : JoinKind) (source : Source) :
    (outline.joined slot kind source).place? .join = some source.slot := by
  rw [place?, getLast?_joined]
  rfl

end Outline

namespace Scope.Held

variable {scope : Scope} {outline : Outline}

/-- A scope remembers the slots of its clauses, whatever they say. -/
theorem congr (held : scope.Held outline) {changed : Outline} (kind : changed.kind = outline.kind)
    (closed : changed.closed = outline.closed)
    (command : changed.command.map Clause.slot = outline.command.map Clause.slot)
    (table : changed.table.map Clause.slot = outline.table.map Clause.slot)
    (join : changed.joins.getLast?.map (fun clause => (clause.slot, clause.part.kind)) =
      outline.joins.getLast?.map fun clause => (clause.slot, clause.part.kind))
    (joining : changed.joining = outline.joining) (target : changed.target = outline.target)
    (place : changed.place? = outline.place?) (ordering : changed.ordering = outline.ordering) :
    scope.Held changed where
  kind := kind.trans held.kind
  opened := closed.trans held.opened
  command := held.command.trans command.symm
  table := held.table.trans table.symm
  join := by
    have slots := congrArg (Option.map Prod.fst) join
    rw [Option.map_map, Option.map_map] at slots
    rw [held.join, joining]
    exact congrArg (fun slot => if outline.joining then slot else none) slots.symm
  target := by
    rw [held.target, target, place]
  placed := by
    rw [target, place]
    exact held.placed
  crossing joins := by
    rw [joining] at joins
    obtain ⟨clause, last, uncrossed⟩ := held.crossing joins
    rw [Option.mem_def.mp last, Option.map_some] at join
    obtain ⟨changedClause, changedLast, same⟩ := Option.map_eq_some_iff.mp join
    refine ⟨changedClause, changedLast, ?_⟩
    rw [(Prod.mk.inj same).2]
    exact uncrossed
  ordered := by
    rw [ordering]
    exact held.ordered
  bare group := by
    obtain ⟨noCommand, noTable, noJoins⟩ := held.bare (kind.symm.trans group)
    rw [noCommand, Option.map_none, Option.map_eq_none_iff] at command
    rw [noTable, Option.map_none, Option.map_eq_none_iff] at table
    rw [noJoins, List.getLast?_nil, Option.map_none, Option.map_eq_none_iff,
      List.getLast?_eq_none_iff] at join
    exact ⟨command, table, join⟩

/-- A name goes to another place of the same outline. -/
theorem aimed (held : scope.Held outline) {target : Option Target}
    (placed : ∀ found ∈ target, (outline.place? found).isSome) :
    Scope.Held { scope with target := target.bind outline.place? } (outline.aimed target) := by
  refine { held with target := ?_, placed := ?_ }
  · rw [outline.place?_aimed]
    rfl
  · rw [outline.place?_aimed]
    exact placed

theorem tabled (held : scope.Held outline) (plain : outline.kind ≠ .group)
    (absent : outline.table = none) (slot : Slot) (source : Source) :
    Scope.Held { scope with table := some slot } (outline.tabled slot source) := by
  have elsewhere : ∀ target ∈ outline.target,
      (outline.tabled slot source).place? target = outline.place? target := by
    intro target goes
    cases target with
    | column | join => rfl
    | table =>
      have placed := held.placed .table goes
      rw [Outline.place?, absent] at placed
      exact absurd placed (by simp)
  refine { held with table := rfl, target := ?_, placed := ?_, bare := ?_ }
  · rw [held.target]
    show _ = outline.target.bind (outline.tabled slot source).place?
    cases goes : outline.target with
    | none => rfl
    | some target => exact (elsewhere target goes).symm
  · exact fun target goes => elsewhere target goes ▸ held.placed target goes
  · exact fun group => absurd group plain

theorem joined (held : scope.Held outline) (plain : outline.kind ≠ .group) (slot : Slot)
    (kind : JoinKind) (source : Source) :
    Scope.Held { scope with join := if kind = .cross then none else some slot, target := none }
      (outline.joined slot kind source) := by
  have last := outline.getLast?_joined slot kind source
  refine { held with join := ?_, target := rfl, placed := ?_, crossing := ?_, bare := ?_ }
  · show _ = if decide (kind ≠ .cross) = true then _ else _
    rw [last]
    by_cases cross : kind = .cross <;> simp [cross]
  · exact fun target goes => absurd goes (by simp [Outline.joined])
  · exact fun joining => ⟨_, last, of_decide_eq_true joining⟩
  · exact fun group => absurd group plain

end Scope.Held

namespace Draft.Sketched

variable {draft : Draft} {scopes : List Slot} {outlines : Slot → Outline}

/-! ### Clauses with one child -/

section Added

variable {rank : Nat} {word : Keyword}

/-- A clause is added with a leaf in it. -/
theorem addedFilled (sketched : draft.Sketched scopes outlines) (plain : draft.inGroup = false)
    (known : word.rank? = some rank) (inside : rank < 9) (content : Payload) (mark : Option Slot)
    (marked : ∀ slot ∈ mark, (draft.store.addClause draft.scope.root word).fresh = slot) :
    ((draft.store.addClause draft.scope.root word).addChild draft.store.fresh content).Drawn
      draft.root scopes (Function.update (fun root => (outlines root).trees) draft.scope.root
        (((outlines draft.scope.root).before rank ++ (outlines draft.scope.root).row rank) ++
          .node (some draft.store.fresh) (.keyword word) [.node mark content []] ::
            ([] ++ (outlines draft.scope.root).behind rank))) := by
  have added := sketched.addedClause plain known inside
  obtain ⟨-, -, framed⟩ := added.framedAt sketched.isScope (Function.update_self _ _ _)
  have drawn := (framed.addChild added sketched.isScope content mark marked).1
  rwa [Function.update_idem] at drawn

/-- A clause is added with a scope in it. -/
theorem addedScope (sketched : draft.Sketched scopes outlines) (plain : draft.inGroup = false)
    (known : word.rank? = some rank) (inside : rank < 9) :
    ∃ trees, trees = ((outlines draft.scope.root).before rank ++
        (outlines draft.scope.root).row rank) ++ .node (some draft.store.fresh) (.keyword word)
          [.scope (draft.store.addClause draft.scope.root word).fresh] ::
            ([] ++ (outlines draft.scope.root).behind rank) ∧
      ((draft.store.addClause draft.scope.root word).addChild draft.store.fresh .blank).Drawn
        draft.root ((draft.store.addClause draft.scope.root word).fresh :: scopes)
        (Function.update (Function.update (fun root => (outlines root).trees) draft.scope.root trees)
          (draft.store.addClause draft.scope.root word).fresh []) ∧
      (draft.store.addClause draft.scope.root word).fresh ∉ scopes ∧
      (draft.store.addClause draft.scope.root word).fresh ∈ Tree.scopes trees := by
  have added := sketched.addedClause plain known inside
  obtain ⟨-, -, framed⟩ := added.framedAt sketched.isScope (Function.update_self _ _ _)
  obtain ⟨drawn, stands⟩ := framed.addScope added sketched.isScope
  rw [Function.update_idem] at drawn
  refine ⟨_, rfl, drawn, fun member => ?_, stands⟩
  exact Store.fresh_not_inUse _ (added.inUse _ member)

end Added

/-! ### Tables -/

theorem table_eq_none (sketched : draft.Sketched scopes outlines)
    (absent : draft.scope.table = none) : (outlines draft.scope.root).table = none := by
  rw [sketched.heldScope.table] at absent
  exact Option.map_eq_none_iff.mp absent

theorem row_one_of_none {outline : Outline} (absent : outline.table = none) :
    outline.row 1 = [] := by
  show outline.table.toList.map _ = _
  rw [absent]
  rfl

theorem canTakeTable_iff : draft.canTakeTable = true ↔
    draft.inGroup = false ∧ draft.scope.table = none := by
  unfold Draft.canTakeTable
  rw [Bool.and_eq_true, Bool.not_eq_true', Option.isNone_iff_eq_none]

/-- The tag of a new table clause is the one that its outline says. -/
theorem tableKeyword_eq (sketched : draft.Sketched scopes outlines)
    (plain : draft.inGroup = false) :
    draft.tableKeyword = (outlines draft.scope.root).tableKeyword := by
  unfold Draft.tableKeyword
  cases said : (outlines draft.scope.root).command with
  | none =>
    have absent : draft.scope.command = none := by
      rw [sketched.heldScope.command, said]
      rfl
    have idle : draft.scopeCommand ≠ .truncate := by
      unfold Draft.scopeCommand Draft.commandKeyword
      rw [absent]
      exact of_decide_eq_false rfl
    rw [if_neg idle, tableKeyword_of_none said]
  | some clause =>
    obtain ⟨slot, action⟩ := clause
    rw [sketched.scopeCommand_eq plain said]
    unfold Outline.tableKeyword
    rw [said]
    cases action with
    | columns _ _ | all _ => rfl
    | removal which => cases which <;> rfl

theorem rank?_tableKeyword (outline : Outline) : outline.tableKeyword.rank? = some 1 := by
  unfold Outline.tableKeyword
  split <;> rfl

/-- **The table of a scope is named.** -/
theorem table (sketched : draft.Sketched scopes outlines) (can : draft.canTakeTable = true)
    (name : String) : ∃ leaf, (draft.table name).Sketched scopes
      (Function.update outlines draft.scope.root (((outlines draft.scope.root).tabled
        draft.store.fresh (.name leaf name)).aimed (some .table))) := by
  obtain ⟨plain, free⟩ := canTakeTable_iff.mp can
  have absent := sketched.table_eq_none free
  have word := rank?_tableKeyword (outlines draft.scope.root)
  rw [← sketched.tableKeyword_eq plain] at word
  have drawn := sketched.addedFilled plain word (by decide) (.literal name)
    (some (draft.store.addClause draft.scope.root draft.tableKeyword).fresh) (by simp)
  rw [row_one_of_none absent, sketched.tableKeyword_eq plain] at drawn
  refine ⟨(draft.store.addClause draft.scope.root draft.tableKeyword).fresh, ?_⟩
  unfold Draft.table Draft.addTable
  rw [if_pos can]
  simp only [alter_adjust, alter_alter, adjust_adjust, store_adjust, store_alter]
  rw [sketched.tableKeyword_eq plain]
  refine sketched.reworked plain (show 1 < 9 by decide) drawn rfl (fun found different => ?_) rfl
    rfl rfl ?_
  · rw [Outline.row_aimed, Outline.row_tabled _ _ _ _ different]
  · have held := sketched.heldScope.tabled (sketched.kind_ne_group plain) absent draft.store.fresh
      (.name (draft.store.addClause draft.scope.root
        (outlines draft.scope.root).tableKeyword).fresh name)
    exact @Scope.Held.aimed _ _ held (some .table) (by simp [Outline.place?, Outline.tabled])

/-! ### Joins -/

theorem rank?_joinKeyword (kind : JoinKind) : kind.keyword.rank? = some 2 := by
  cases kind <;> rfl

/-- **A table is joined.** -/
theorem join (sketched : draft.Sketched scopes outlines) (plain : draft.inGroup = false)
    (kind : JoinKind) (table : String) : ∃ leaf, (draft.join kind table).Sketched scopes
      (Function.update outlines draft.scope.root (((outlines draft.scope.root).joined
        draft.store.fresh kind (.name leaf table)).aimed (some .join))) := by
  have drawn := sketched.addedFilled plain (rank?_joinKeyword kind) (by decide) (.literal table)
    (some (draft.store.addClause draft.scope.root kind.keyword).fresh) (by simp)
  refine ⟨(draft.store.addClause draft.scope.root kind.keyword).fresh, ?_⟩
  unfold Draft.join Draft.startJoin
  rw [if_neg (by simp [plain])]
  simp only [alter_adjust, alter_alter, adjust_adjust, store_adjust, store_alter]
  refine sketched.reworked plain (show 2 < 9 by decide) drawn ?_ (fun found different => ?_) rfl
    rfl rfl ?_
  · rw [Outline.row_aimed, Outline.row_two_joined]
    rfl
  · rw [Outline.row_aimed, Outline.row_joined _ _ _ _ _ different]
  · have held := sketched.heldScope.joined (sketched.kind_ne_group plain) draft.store.fresh kind
      (.name (draft.store.addClause draft.scope.root kind.keyword).fresh table)
    have aimed := @Scope.Held.aimed _ _ held (some .join) (by simp [Outline.place?_joined])
    rwa [Option.bind_some, Outline.place?_joined] at aimed

end Draft.Sketched

end SqlDraft
