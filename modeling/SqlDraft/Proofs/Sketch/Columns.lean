/-
**Columns in an outline.**

A projection starts as an empty list of columns, which the first column or a star is put into. The
columns of a grouping and of an ordering are lists of the same shape:

* `Draft.Sketched.select`, `Draft.Sketched.distinct`: the columns that a scope returns.
* `Draft.Sketched.groupBy`, `Draft.Sketched.orderBy`: the columns that it groups and sorts by.
* `Draft.Sketched.direct`: the direction of the last column that it sorts by.
-/

import SqlDraft.Proofs.Sketch.Growing

namespace SqlDraft

open Relation

/-! ### Commands -/

namespace Action

/-- What a scope does when this is its command. -/
def command : Action → Command
  | columns _ _ | all _ => .select
  | removal .delete => .delete
  | removal .truncate => .truncate

/-- A projection without the star that stands for all columns. -/
def unstarred : Action → Action
  | all distinct => columns distinct []
  | action => action

/-- A projection that returns each row once. -/
def distinctly : Action → Action
  | columns _ row => columns true row
  | all _ => all true
  | removal which => removal which

theorem ofKeyword_keyword (action : Action) :
    Command.ofKeyword (some action.keyword) = action.command := by
  cases action with
  | columns distinct _ | all distinct => cases distinct <;> rfl
  | removal which => cases which <;> rfl

theorem command_eq_select {action : Action} (selects : action.command = .select) :
    ∃ distinct row, action.unstarred = columns distinct row := by
  cases action with
  | columns distinct row => exact ⟨distinct, row, rfl⟩
  | all distinct => exact ⟨distinct, [], rfl⟩
  | removal which => cases which <;> exact absurd selects (by decide)

end Action

theorem Tree.scopes_flatMap {Thing : Type} {trees : Thing → List Tree} {things : List Thing}
    (plain : ∀ thing ∈ things, Tree.scopes (trees thing) = []) :
    Tree.scopes (things.flatMap trees) = [] := by
  induction things with
  | nil => rw [List.flatMap_nil, Tree.scopes]
  | cons thing rest step =>
    rw [List.flatMap_cons, Tree.scopes_append, plain thing List.mem_cons_self, List.nil_append]
    exact step fun other inRest => plain other (List.mem_cons_of_mem _ inRest)

theorem scopes_nameTrees (name : Option String) : Tree.scopes (nameTrees name) = [] := by
  cases name <;> simp [nameTrees, Tree.scopes, Tree.leaf]

theorem scopes_columnTrees (column : Column) : Tree.scopes column.trees = [] := by
  rw [Column.trees, Tree.scopes, Tree.scopes, scopes_nameTrees, List.nil_append]

theorem Action.scopes_trees (action : Action) : Tree.scopes action.trees = [] := by
  cases action with
  | columns _ row =>
    cases row with
    | nil => simp [Action.trees, listed, Tree.scopes]
    | cons first rest =>
      show Tree.scopes (first.trees ++ rest.flatMap fun column =>
        .leaf (.keyword .comma) :: column.trees) = []
      rw [Tree.scopes_append, scopes_columnTrees, List.nil_append]
      refine Tree.scopes_flatMap fun column _ => ?_
      rw [Tree.leaf, Tree.scopes, Tree.scopes, scopes_columnTrees, List.nil_append]
  | all _ => simp [Action.trees, Tree.scopes, Tree.leaf]
  | removal _ => simp [Action.trees, Tree.scopes]

namespace Outline

variable (outline : Outline)

/-- The command that columns are added to: a projection without columns if there was none. -/
def projection (fresh : Slot) : Clause Action := outline.command.getD ⟨fresh, .columns false []⟩

/-- The command of a scope that returns each row once: all columns if there was none. -/
def distinction (fresh : Slot) : Clause Action :=
  match outline.command with
  | none => ⟨fresh, .all true⟩
  | some clause => ⟨clause.slot, clause.part.distinctly⟩

/-- An outline with this command, where a name goes to this target. -/
def acting (command : Clause Action) (target : Option Target) : Outline :=
  { outline with command := some command, target }

/-- An outline that groups by these columns. -/
def grouped (slot : Slot) (columns : List String) : Outline :=
  { outline with grouping := some ⟨slot, columns⟩ }

/-- An outline that sorts by these columns. -/
def sorted (slot : Slot) (columns : List (String × Option Direction)) : Outline :=
  { outline with ordering := some ⟨slot, columns⟩ }

/-- Columns to sort by, the last of them in this direction. -/
def directLast (direction : Direction) (columns : List (String × Option Direction)) :
    List (String × Option Direction) :=
  match columns.getLast? with
  | none => columns
  | some last => columns.dropLast ++ [(last.1, some direction)]

/-- An outline whose ordering, if it has one, ends in this direction. -/
def directed (direction : Direction) : Outline :=
  match outline.ordering with
  | none => outline
  | some clause => outline.sorted clause.slot (directLast direction clause.part)

theorem tableKeyword_acting (slot : Slot) {action : Action} (selects : action.command = .select)
    (target : Option Target) : (outline.acting ⟨slot, action⟩ target).tableKeyword = .fromTable := by
  unfold tableKeyword
  split
  · next found =>
    cases found
    exact absurd selects (by decide)
  · rfl

/-- Only a change between `TRUNCATE` and another command is seen in the table clause. -/
theorem row_acting {command : Clause Action} {target : Option Target}
    (same : (outline.acting command target).tableKeyword = outline.tableKeyword)
    (found : Nat) (different : found ≠ 0) :
    (outline.acting command target).row found = outline.row found := by
  match found with
  | 0 => exact absurd rfl different
  | 1 =>
    show List.map _ _ = List.map _ _
    rw [same]
    rfl
  | 2 | 3 | 4 | 5 | 6 | 7 | 8 | _ + 9 => rfl

theorem row_grouped (slot : Slot) (columns : List String) (found : Nat) (different : found ≠ 4) :
    (outline.grouped slot columns).row found = outline.row found := by
  match found with
  | 4 => exact absurd rfl different
  | 0 | 1 | 2 | 3 | 5 | 6 | 7 | 8 | _ + 9 => rfl

theorem row_sorted (slot : Slot) (columns : List (String × Option Direction)) (found : Nat)
    (different : found ≠ 7) : (outline.sorted slot columns).row found = outline.row found := by
  match found with
  | 7 => exact absurd rfl different
  | 0 | 1 | 2 | 3 | 4 | 5 | 6 | 8 | _ + 9 => rfl

end Outline

/-! ### Stores -/

namespace Store

variable {store : Store} {scopes : List Slot} {rows : Slot → List Tree} {base root slot : Slot}
  {context : Payload → List Tree → List Tree}

/-- A projection loses its star and keeps its columns. -/
theorem Framed.dropStar {payload : Payload} {action : Action}
    (framed : store.Framed scopes root slot payload action.trees context)
    (drawn : store.Drawn base scopes rows) (isScope : root ∈ scopes)
    (row : rows root = context payload action.trees) :
    (store.dropStar slot).Drawn base scopes
      (Function.update rows root (context payload action.unstarred.trees)) := by
  have forest := drawn.forest
  have stays : store.Drawn base scopes
      (Function.update rows root (context payload action.trees)) := by
    rwa [← row, Function.update_eq_self]
  unfold Store.dropStar
  rw [forest.firstChild?_eq_head?]
  cases action with
  | removal which =>
    have nothing : store.children slot = [] := List.length_eq_zero_iff.mp framed.inside.length_eq
    rw [nothing]
    exact stays
  | columns distinct columns =>
    cases columns with
    | nil =>
      have nothing : store.children slot = [] := List.length_eq_zero_iff.mp framed.inside.length_eq
      rw [nothing]
      exact stays
    | cons first rest =>
      have inside : store.Shows scopes (store.children slot)
          (.node (some first.slot) (.literal first.text) [] :: (nameTrees first.name ++
            rest.flatMap fun column => .leaf (.keyword .comma) :: column.trees)) := framed.inside
      obtain ⟨child, back, shown, payload, -⟩ := inside.uncons
      rw [shown]
      show Drawn (if (store.payload child).isKeyword .star then _ else store) _ _ _
      rw [payload, if_neg (by simp [Payload.isKeyword])]
      exact stays
  | all distinct =>
    obtain ⟨child, shown, -, leaf⟩ := Framed.only forest framed
    have split : store.children slot = [] ++ child :: [] := shown
    rw [shown]
    show Drawn (if (store.payload child).isKeyword .star then _ else store) _ _ _
    rw [leaf.payload_eq, if_pos (by simp [Payload.isKeyword])]
    refine drawn.trim isScope framed (Action.scopes_trees _)
      (forest.trimmed_eraseChild split) fun found => ?_
    constructor
    · exact fun reaches => TransGen.head' (by simp [shown]) reaches
    · intro hangs
      obtain ⟨other, member, reaches⟩ := Forest.exists_child_of_below hangs
      rw [shown] at member
      rwa [List.mem_singleton.mp member] at reaches

end Store

namespace Draft.Sketched

variable {draft : Draft} {scopes : List Slot} {outlines : Slot → Outline}

/-! ### Projections -/

theorem row_command (outline : Outline) {clause : Clause Action}
    (command : outline.command = some clause) : outline.row 0 =
      [] ++ .node (some clause.slot) (.keyword clause.part.keyword) clause.part.trees :: [] := by
  show outline.command.toList.map _ = _
  rw [command]
  rfl

theorem row_ordering {outline : Outline} {clause : Clause (List (String × Option Direction))}
    (said : outline.ordering = some clause) : outline.row 7 =
      [] ++ .node (some clause.slot) (.keyword .orderBy) (listed sortTrees clause.part) :: [] := by
  show outline.ordering.toList.map _ = _
  rw [said]
  rfl

theorem row_zero_of_none {outline : Outline} (absent : outline.command = none) :
    outline.row 0 = [] := by
  show outline.command.toList.map _ = _
  rw [absent]
  rfl

/-- A command that is said again changes nothing. -/
theorem acting_self {outline : Outline} {clause : Clause Action}
    (command : outline.command = some clause) : outline.acting clause outline.target = outline := by
  unfold Outline.acting
  rw [← command]

/-- The table of a projection follows `FROM`. -/
theorem tableKeyword_of_select {outline : Outline} {clause : Clause Action}
    (command : outline.command = some clause) (selects : clause.part.command = .select) :
    outline.tableKeyword = .fromTable := by
  rw [← acting_self command]
  exact Outline.tableKeyword_acting _ _ selects _

/-- A name goes to a column only where there is a command. -/
theorem target_ne_column {scope : Scope} {outline : Outline} (held : scope.Held outline)
    (absent : outline.command = none) : outline.target ≠ some .column := by
  intro goes
  have placed := held.placed .column goes
  rw [Outline.place?, absent] at placed
  exact absurd placed (by simp)

/-- What the innermost scope does is said by its command. -/
theorem scopeCommand_eq (sketched : draft.Sketched scopes outlines) (plain : draft.inGroup = false)
    {clause : Clause Action} (command : (outlines draft.scope.root).command = some clause) :
    draft.scopeCommand = clause.part.command := by
  have payload := (sketched.framedAt plain (by decide) (row_command _ command)).2.2.payload_eq
  show Command.ofKeyword (draft.scope.command.bind fun slot =>
    (draft.store.payload slot).keyword?) = _
  rw [sketched.heldScope.command, command, Option.map_some, Option.bind_some, payload]
  exact Action.ofKeyword_keyword clause.part

theorem tableKeyword_of_none {outline : Outline} (command : outline.command = none) :
    outline.tableKeyword = .fromTable := by
  unfold Outline.tableKeyword
  rw [command]

theorem rank?_keyword (action : Action) : action.keyword.rank? = some 0 := by
  cases action with
  | columns distinct _ | all distinct => cases distinct <;> rfl
  | removal which => cases which <;> rfl

/-- Another command leaves a scope the names that do not go to a column. -/
theorem held_acting {scope : Scope} {outline : Outline} (held : scope.Held outline)
    (plain : outline.kind ≠ .group) (clause : Clause Action)
    (same : outline.target = some .column →
      (outline.acting clause outline.target).place? .column = outline.place? .column) :
    Scope.Held { scope with command := some clause.slot } (outline.acting clause outline.target) := by
  have everywhere : ∀ target ∈ outline.target,
      (outline.acting clause outline.target).place? target = outline.place? target := by
    intro target goes
    cases target with
    | column => exact same goes
    | table | join => rfl
  refine { held with command := rfl, target := ?_, placed := ?_, bare := ?_ }
  · rw [held.target]
    show _ = outline.target.bind (outline.acting clause outline.target).place?
    cases goes : outline.target with
    | none => rfl
    | some target => exact (everywhere target goes).symm
  · exact fun target goes => (everywhere target goes) ▸ held.placed target goes
  · exact fun group => absurd group plain

/-- A command that was not said before. -/
theorem addCommand (sketched : draft.Sketched scopes outlines) (plain : draft.inGroup = false)
    (absent : (outlines draft.scope.root).command = none) {action : Action}
    (selects : action.command = .select) (empty : action.trees = []) :
    (draft.addCommand action.keyword).Sketched scopes (Function.update outlines draft.scope.root
      ((outlines draft.scope.root).acting ⟨draft.store.fresh, action⟩
        (outlines draft.scope.root).target)) := by
  have drawn := sketched.addedClause plain (rank?_keyword action) (show 0 < 9 by decide)
  rw [row_zero_of_none absent] at drawn
  show ((draft.alter fun store => store.addClause draft.scope.root action.keyword).adjust
    fun scope => { scope with command := some draft.store.fresh }).Sketched _ _
  refine sketched.reworked plain (show 0 < 9 by decide) drawn ?_ ?_ rfl rfl rfl ?_
  · rw [row_command _ rfl, empty]
  · refine Outline.row_acting _ ?_
    rw [Outline.tableKeyword_acting _ _ selects, tableKeyword_of_none absent]
  · exact held_acting sketched.heldScope (sketched.kind_ne_group plain)
      ⟨draft.store.fresh, action⟩ fun goes => absurd goes (target_ne_column sketched.heldScope absent)

theorem command_eq_none (sketched : draft.Sketched scopes outlines)
    (absent : draft.scope.command = none) : (outlines draft.scope.root).command = none := by
  rw [sketched.heldScope.command] at absent
  exact Option.map_eq_none_iff.mp absent

theorem command_eq_some (sketched : draft.Sketched scopes outlines) {slot : Slot}
    (known : draft.scope.command = some slot) :
    ∃ action, (outlines draft.scope.root).command = some ⟨slot, action⟩ := by
  rw [sketched.heldScope.command] at known
  obtain ⟨clause, said, rfl⟩ := Option.map_eq_some_iff.mp known
  exact ⟨clause.part, said⟩

/-- The innermost scope gets a command that columns can be added to. -/
theorem withCommand (sketched : draft.Sketched scopes outlines) (plain : draft.inGroup = false) :
    draft.withCommand.Sketched scopes (Function.update outlines draft.scope.root
        ((outlines draft.scope.root).acting
          ((outlines draft.scope.root).projection draft.store.fresh)
          (outlines draft.scope.root).target)) ∧
      draft.withCommand.scope.root = draft.scope.root ∧ draft.withCommand.inGroup = false := by
  unfold Draft.withCommand
  cases known : draft.scope.command with
  | none =>
    have absent := sketched.command_eq_none known
    have added := sketched.addCommand plain absent
      (show (Action.columns false []).command = .select from rfl) rfl
    rw [if_neg (by simp), Outline.projection, absent]
    refine ⟨added, ?_, ?_⟩
    · unfold Draft.addCommand
      rw [scope_adjust]
      rfl
    · unfold Draft.addCommand Draft.inGroup
      rw [scope_adjust]
      exact plain
  | some slot =>
    obtain ⟨action, said⟩ := sketched.command_eq_some known
    rw [if_pos (by rfl), Outline.projection, said, Option.getD_some, acting_self said,
      Function.update_eq_self]
    exact ⟨sketched, rfl, plain⟩

theorem projection_selects (sketched : draft.Sketched scopes outlines)
    (can : draft.canProject = true) :
    draft.inGroup = false ∧
      ((outlines draft.scope.root).projection draft.store.fresh).part.command = .select := by
  unfold Draft.canProject at can
  rw [Bool.and_eq_true, Bool.not_eq_true'] at can
  refine ⟨can.1, ?_⟩
  unfold Outline.projection
  cases said : (outlines draft.scope.root).command with
  | none => rfl
  | some clause =>
    have known : draft.scope.command = some clause.slot := by
      rw [sketched.heldScope.command, said]
      rfl
    have selects := can.2
    rw [known, sketched.scopeCommand_eq can.1 said] at selects
    exact of_decide_eq_true selects

theorem names_of_added {columns : List String} {added : List Column}
    (each : List.Forall₂ (fun text column => ∃ at_, column = ⟨at_, text, none⟩) columns added) :
    ∀ column ∈ added, column.name = none := by
  induction each with
  | nil => exact fun column member => absurd member List.not_mem_nil
  | cons made _ step =>
    obtain ⟨_, rfl⟩ := made
    intro column member
    rcases List.mem_cons.mp member with rfl | behind
    · rfl
    · exact step column behind

theorem keyword_unstarred (action : Action) : action.unstarred.keyword = action.keyword := by
  cases action <;> rfl

/-- The column that was added last is the last child of the projection. -/
theorem lastChild?_of_columns {store : Store} {root slot : Slot} {payload : Payload}
    {context : Payload → List Tree → List Tree} {row : List Column} {last : Column}
    (forest : store.Forest) (unnamed : last.name = none)
    (framed : store.Framed scopes root slot payload (listed Column.trees (row ++ [last])) context) :
    store.lastChild? slot = some last.slot := by
  rw [listed_append, Column.trees, unnamed, ← List.append_assoc] at framed
  obtain ⟨child, found, marked, -⟩ := framed.last forest
  rw [found, marked last.slot rfl]

/-- A name goes to the column that was added last. -/
theorem held_projected {scope : Scope} {outline : Outline} {slot : Slot} (held : scope.Held outline)
    (plain : outline.kind ≠ .group) (command : scope.command = some slot) (distinct : Bool)
    (front : List Column) (last : Column) :
    Scope.Held { scope with target := some last.slot }
      (outline.acting ⟨slot, .columns distinct (front ++ [last])⟩ (some .column)) := by
  have goes : (outline.acting ⟨slot, .columns distinct (front ++ [last])⟩
      (some .column)).place? .column = some last.slot := by
    show Option.map Column.slot (front ++ [last]).getLast? = _
    rw [List.getLast?_append, List.getLast?_singleton]
    rfl
  refine { held with command := command, target := goes.symm, placed := ?_, bare := ?_ }
  · rintro target same
    obtain rfl : Target.column = target := Option.some.inj same
    rw [goes]
    rfl
  · exact fun group => absurd group plain

/-- A projection gives up its star and gets columns. -/
theorem fillProjection (sketched : draft.Sketched scopes outlines) (plain : draft.inGroup = false)
    {clause : Clause Action} (said : (outlines draft.scope.root).command = some clause)
    (selects : clause.part.command = .select) {columns : List String} (asked : columns ≠ []) :
    ∃ (distinct : Bool) (old added : List Column), clause.part.unstarred = .columns distinct old ∧
      List.Forall₂ (fun text column => ∃ at_, column = ⟨at_, text, none⟩) columns added ∧
      ((draft.alter fun store => (store.dropStar clause.slot).pushColumns clause.slot columns).adjust
        fun scope => { scope with target := ((draft.store.dropStar clause.slot).pushColumns
          clause.slot columns).lastChild? clause.slot }).Sketched scopes
        (Function.update outlines draft.scope.root ((outlines draft.scope.root).acting
          ⟨clause.slot, .columns distinct (old ++ added)⟩ (some .column))) := by
  obtain ⟨distinct, old, unstarred⟩ := Action.command_eq_select selects
  have row := row_command _ said
  obtain ⟨-, -, framed⟩ := sketched.framedAt plain (by decide) row
  -- First the star goes, then the columns come one by one.
  have dropped := framed.dropStar sketched.drawn sketched.isScope (sketched.trees_at plain
    (by decide) row)
  rw [unstarred] at dropped
  obtain ⟨-, -, framedDropped⟩ := dropped.framedAt sketched.isScope (Function.update_self _ _ _)
  obtain ⟨added, each, drawn, framedAdded⟩ := Store.Framed.pushColumns
    (fun slot text => Column.mk slot text none) some (by simp [Column.trees])
    (by simp [Column.trees, nameTrees]) (by simp) sketched.isScope columns framedDropped dropped
    (Function.update_self _ _ _)
  rw [Function.update_idem] at drawn
  obtain ⟨start, last, rfl⟩ : ∃ start last, added = start ++ [last] := by
    refine (List.eq_nil_or_concat' added).resolve_left ?_
    rintro rfl
    exact asked (List.forall₂_nil_right_iff.mp each)
  have unnamed := names_of_added each last (by simp)
  rw [← List.append_assoc] at framedAdded
  have lastChild := lastChild?_of_columns drawn.forest unnamed framedAdded
  refine ⟨distinct, old, start ++ [last], unstarred, each, ?_⟩
  have sameWord : clause.part.keyword =
      (Action.columns distinct (old ++ (start ++ [last]))).keyword := by
    rw [← keyword_unstarred, unstarred]
    rfl
  have known : draft.scope.command = some clause.slot := by
    rw [sketched.heldScope.command, said]
    rfl
  rw [sameWord] at drawn
  rw [lastChild]
  refine sketched.reworked plain (show 0 < 9 by decide) drawn rfl ?_ rfl rfl rfl ?_
  · apply Outline.row_acting
    rw [tableKeyword_of_select said selects]
    exact Outline.tableKeyword_acting _ _ rfl _
  · rw [← List.append_assoc]
    exact held_projected sketched.heldScope (sketched.kind_ne_group plain) known distinct
      (old ++ start) last

/-- **Columns are added to the projection.** -/
theorem select (sketched : draft.Sketched scopes outlines) {columns : List String}
    (asked : columns ≠ []) (can : draft.canProject = true) :
    ∃ (slot : Slot) (distinct : Bool) (old added : List Column),
      ((outlines draft.scope.root).projection draft.store.fresh).part.unstarred =
        .columns distinct old ∧
      List.Forall₂ (fun text column => ∃ at_, column = ⟨at_, text, none⟩) columns added ∧
      (draft.select columns).Sketched scopes (Function.update outlines draft.scope.root
        ((outlines draft.scope.root).acting ⟨slot, .columns distinct (old ++ added)⟩
          (some .column))) := by
  obtain ⟨plain, selects⟩ := sketched.projection_selects can
  obtain ⟨commanded, root, plainToo⟩ := sketched.withCommand plain
  have said : (Function.update outlines draft.scope.root ((outlines draft.scope.root).acting
      ((outlines draft.scope.root).projection draft.store.fresh)
      (outlines draft.scope.root).target)) draft.withCommand.scope.root =
      (outlines draft.scope.root).acting
        ((outlines draft.scope.root).projection draft.store.fresh)
        (outlines draft.scope.root).target := by
    rw [root, Function.update_self]
  obtain ⟨distinct, old, added, unstarred, each, filled⟩ :=
    commanded.fillProjection plainToo (congrArg Outline.command said) selects asked
  rw [said, root, Function.update_idem] at filled
  refine ⟨((outlines draft.scope.root).projection draft.store.fresh).slot, distinct, old, added,
    unstarred, each, ?_⟩
  have known : draft.withCommand.scope.command =
      some ((outlines draft.scope.root).projection draft.store.fresh).slot := by
    rw [commanded.heldScope.command, said]
    rfl
  unfold Draft.select
  rw [if_neg (by simp [asked, can])]
  simp only [known]
  exact filled

/-- A projection that returns each row once is started with all columns. -/
theorem startDistinct (sketched : draft.Sketched scopes outlines) (plain : draft.inGroup = false)
    (absent : (outlines draft.scope.root).command = none) :
    ((draft.addCommand .selectDistinct).alter fun store =>
      store.addChild draft.store.fresh (.keyword .star)).Sketched scopes
        (Function.update outlines draft.scope.root ((outlines draft.scope.root).acting
          ⟨draft.store.fresh, .all true⟩ (outlines draft.scope.root).target)) := by
  have added := sketched.addedClause plain (show Keyword.selectDistinct.rank? = some 0 from rfl)
    (by decide)
  rw [row_zero_of_none absent] at added
  obtain ⟨-, -, framed⟩ := added.framedAt sketched.isScope (Function.update_self _ _ _)
  have drawn := (framed.addChild added sketched.isScope (.keyword .star) none (by simp)).1
  rw [Function.update_idem] at drawn
  unfold Draft.addCommand
  rw [alter_adjust, alter_alter]
  refine sketched.reworked plain (show 0 < 9 by decide) drawn rfl ?_ rfl rfl rfl ?_
  · apply Outline.row_acting
    rw [Outline.tableKeyword_acting _ _ rfl, tableKeyword_of_none absent]
  · exact held_acting sketched.heldScope (sketched.kind_ne_group plain)
      ⟨draft.store.fresh, .all true⟩ fun goes => absurd goes (target_ne_column sketched.heldScope absent)

/-- What a projection says does not change when it returns each row once. -/
theorem distinctly_of_select {action : Action} (selects : action.keyword = .select) :
    action.command = .select ∧ action.distinctly.command = .select ∧
      action.distinctly.keyword = .selectDistinct ∧ action.distinctly.trees = action.trees ∧
      action.distinctly.lastColumn? = action.lastColumn? := by
  cases action with
  | columns _ _ | all _ => exact ⟨rfl, rfl, rfl, rfl, rfl⟩
  | removal which => cases which <;> exact absurd selects (by decide)

theorem distinctly_of_not_select {action : Action} (selects : action.keyword ≠ .select) :
    action.distinctly = action := by
  cases action with
  | columns distinct _ | all distinct =>
    cases distinct
    · exact absurd rfl selects
    · rfl
  | removal _ => rfl

/-- A projection returns each row once from then on. -/
theorem makeDistinct (sketched : draft.Sketched scopes outlines) (plain : draft.inGroup = false)
    {slot : Slot} {action : Action}
    (said : (outlines draft.scope.root).command = some ⟨slot, action⟩)
    (selects : action.keyword = .select) :
    (draft.alter fun store => store.setPayload slot (.keyword .selectDistinct)).Sketched scopes
      (Function.update outlines draft.scope.root ((outlines draft.scope.root).acting
        ⟨slot, action.distinctly⟩ (outlines draft.scope.root).target)) := by
  obtain ⟨-, plainSlot, framed⟩ := sketched.framedAt plain (by decide) (row_command _ said)
  obtain ⟨isSelect, isSelectToo, word, trees, lastColumn⟩ := distinctly_of_select selects
  have drawn := sketched.drawn.retag sketched.isScope framed plainSlot
    (sketched.drawn.forest.retagged framed.inUse (.keyword .selectDistinct))
  rw [← adjust_id (draft.alter _)]
  refine sketched.reworked plain (show 0 < 9 by decide) drawn ?_ ?_ rfl rfl rfl ?_
  · rw [row_command _ rfl, word, trees]
  · apply Outline.row_acting
    rw [Outline.tableKeyword_acting _ _ isSelectToo, tableKeyword_of_select said isSelect]
  · have known : draft.scope.command = some slot := by
      rw [sketched.heldScope.command, said]
      rfl
    have scope : { draft.scope with command := some slot } = draft.scope := by rw [← known]
    have held := held_acting sketched.heldScope (sketched.kind_ne_group plain)
      ⟨slot, action.distinctly⟩ fun _ => ?_
    · exact scope ▸ held
    · show Option.bind (some _) _ = Option.bind _ _
      rw [said]
      exact lastColumn

/-- **A projection returns each row once.** -/
theorem distinct (sketched : draft.Sketched scopes outlines) (plain : draft.inGroup = false) :
    draft.distinct.Sketched scopes (Function.update outlines draft.scope.root
      ((outlines draft.scope.root).acting
        ((outlines draft.scope.root).distinction draft.store.fresh)
        (outlines draft.scope.root).target)) := by
  unfold Draft.distinct
  rw [if_neg (by simp [plain])]
  cases known : draft.scope.command with
  | none =>
    have absent := sketched.command_eq_none known
    have distinction : (outlines draft.scope.root).distinction draft.store.fresh =
        ⟨draft.store.fresh, .all true⟩ := by
      unfold Outline.distinction
      rw [absent]
    rw [distinction]
    exact sketched.startDistinct plain absent
  | some slot =>
    obtain ⟨action, said⟩ := sketched.command_eq_some known
    obtain ⟨-, -, framed⟩ := sketched.framedAt plain (by decide) (row_command _ said)
    have payload : (draft.store.node slot).payload = .keyword action.keyword := framed.payload_eq
    have distinction : (outlines draft.scope.root).distinction draft.store.fresh =
        ⟨slot, action.distinctly⟩ := by
      unfold Outline.distinction
      rw [said]
    rw [distinction]
    show Draft.Sketched (if (draft.store.node slot).payload.isKeyword .select then _ else _) _ _
    rw [payload]
    by_cases selects : action.keyword = .select
    · rw [if_pos (by simp [Payload.isKeyword, selects])]
      exact sketched.makeDistinct plain said selects
    · rw [if_neg (by simp [Payload.isKeyword, selects]), distinctly_of_not_select selects,
        acting_self said, Function.update_eq_self]
      exact sketched

/-! ### Grouping and ordering -/

/-- Columns are added to a list, which is started where there was none. -/
theorem drawnColumns (sketched : draft.Sketched scopes outlines) (plain : draft.inGroup = false)
    {rank : Nat} {word : Keyword} (known : word.rank? = some rank) (inside : rank < 9)
    {Thing : Type} {trees : Thing → List Tree} (make : String → Thing)
    (nonempty : ∀ thing, trees thing ≠ [])
    (made : ∀ text, trees (make text) = [.leaf (.literal text)])
    {old : Option (Clause (List Thing))}
    (row : (outlines draft.scope.root).row rank =
      old.toList.map fun clause => clause.tree word (listed trees clause.part))
    (columns : List String) :
    ((draft.store.ensureClause draft.scope.root word).pushColumns
      (draft.store.clauseSlot draft.scope.root word) columns).Drawn draft.root scopes
        (Function.update (fun root => (outlines root).trees) draft.scope.root
          (((outlines draft.scope.root).before rank ++ []) ++
            .node (some (draft.store.clauseSlot draft.scope.root word)) (.keyword word)
              (listed trees ((old.elim [] Clause.part) ++ columns.map make)) ::
            ([] ++ (outlines draft.scope.root).behind rank))) := by
  have ensured := sketched.ensuredClause plain known inside
    (show listed trees [] = [] from rfl) row
  obtain ⟨-, -, framed⟩ := ensured.framedAt sketched.isScope (Function.update_self _ _ _)
  obtain ⟨added, each, drawn, -⟩ := Store.Framed.pushColumns (fun _ text => make text)
    (fun _ => none) nonempty (fun _ => made) (by simp) sketched.isScope columns framed ensured
    (Function.update_self _ _ _)
  have same : added = columns.map make := by
    clear drawn
    induction each with
    | nil => rfl
    | cons one _ step =>
      obtain ⟨_, rfl⟩ := one
      rw [List.map_cons, step]
  rwa [Function.update_idem, same] at drawn

/-- **Columns are added to the grouping.** -/
theorem groupBy (sketched : draft.Sketched scopes outlines) (plain : draft.inGroup = false)
    {columns : List String} (asked : columns ≠ []) :
    (draft.groupBy columns).Sketched scopes (Function.update outlines draft.scope.root
      ((outlines draft.scope.root).grouped (draft.store.clauseSlot draft.scope.root .groupBy)
        ((outlines draft.scope.root).grouping.elim [] Clause.part ++ columns))) := by
  have drawn := sketched.drawnColumns plain (show Keyword.groupBy.rank? = some 4 from rfl)
    (by decide) (fun text => text) (by simp) (fun text => rfl) rfl columns
  rw [List.map_id'] at drawn
  unfold Draft.groupBy Draft.listColumns
  rw [if_neg (by simp [asked, plain]), ← adjust_id (draft.alter _)]
  exact sketched.reworked plain (show 4 < 9 by decide) drawn rfl (Outline.row_grouped _ _ _) rfl rfl
    rfl { sketched.heldScope with }

/-- **Columns are added to the ordering.** -/
theorem orderBy (sketched : draft.Sketched scopes outlines) (plain : draft.inGroup = false)
    {columns : List String} (asked : columns ≠ []) :
    (draft.orderBy columns).Sketched scopes (Function.update outlines draft.scope.root
      ((outlines draft.scope.root).sorted (draft.store.clauseSlot draft.scope.root .orderBy)
        ((outlines draft.scope.root).ordering.elim [] Clause.part ++
          columns.map fun text => (text, none)))) := by
  have drawn := sketched.drawnColumns plain (show Keyword.orderBy.rank? = some 7 from rfl)
    (by decide) (fun text => ((text, none) : String × Option Direction)) (by simp [sortTrees])
    (fun text => rfl) rfl columns
  unfold Draft.orderBy Draft.listColumns
  rw [if_neg (by simp [asked, plain]), ← adjust_id (draft.alter _)]
  refine sketched.reworked plain (show 7 < 9 by decide) drawn rfl (Outline.row_sorted _ _ _) rfl rfl
    rfl { sketched.heldScope with ordered := ?_ }
  intro clause same
  obtain rfl := Option.some.inj same
  exact List.append_ne_nil_of_right_ne_nil _ fun nothing => asked (List.map_eq_nil_iff.mp nothing)

/-- The direction of the last column is put behind the column, or in the place of the one it had. -/
theorem exists_directed (sketched : draft.Sketched scopes outlines) {slot : Slot}
    {front : List (String × Option Direction)} {last : String × Option Direction}
    {context : Payload → List Tree → List Tree}
    (framed : draft.store.Framed scopes draft.scope.root slot (.keyword .orderBy)
      (listed sortTrees (front ++ [last])) context) (direction : Direction) :
    ∃ (child : Slot) (grow : Store → Store), draft.store.lastChild? slot = some child ∧
      (if (draft.store.node child).payload.keyword?.any Keyword.isDirection then
          draft.alter fun store => store.setPayload child (.keyword direction.keyword)
        else draft.alter fun store => store.addChild slot (.keyword direction.keyword)) =
        draft.alter grow ∧
      (grow draft.store).Drawn draft.root scopes (Function.update
        (fun root => (outlines root).trees) draft.scope.root (context (.keyword .orderBy)
          (listed sortTrees (front ++ [(last.1, some direction)])))) := by
  have forest := sketched.drawn.forest
  have sorted : sortTrees (last.1, some direction) =
      [.leaf (.literal last.1)] ++ [.leaf (.keyword direction.keyword)] := rfl
  rw [listed_append] at framed ⊢
  rw [sorted, ← List.append_assoc, ← List.append_assoc]
  cases said : last.2 with
  | none =>
    have tail : sortTrees last = [.leaf (.literal last.1)] := by
      unfold sortTrees
      rw [said]
      rfl
    rw [tail, ← List.append_assoc] at framed
    obtain ⟨child, lastChild, -, -, leaf⟩ := framed.last forest
    have payload : (draft.store.node child).payload = .literal last.1 := leaf.payload_eq
    have drawn := (framed.addChild sketched.drawn sketched.isScope
      (.keyword direction.keyword) none (by simp)).1
    refine ⟨child, fun store => store.addChild slot (.keyword direction.keyword), lastChild, ?_,
      drawn⟩
    rw [payload, if_neg (by simp [Payload.keyword?])]
  | some before =>
    have tail : sortTrees last = [.leaf (.literal last.1)] ++
        [.leaf (.keyword before.keyword)] := by
      unfold sortTrees
      rw [said]
      rfl
    rw [tail, ← List.append_assoc, ← List.append_assoc] at framed
    obtain ⟨child, lastChild, -, plainChild, leaf⟩ := framed.last forest
    have payload : (draft.store.node child).payload = .keyword before.keyword := leaf.payload_eq
    have drawn := sketched.drawn.retag sketched.isScope leaf plainChild
      (forest.retagged leaf.inUse (.keyword direction.keyword))
    refine ⟨child, fun store => store.setPayload child (.keyword direction.keyword), lastChild, ?_,
      drawn⟩
    rw [payload, if_pos (by cases before <;> rfl)]

/-- The ordering that is found is the one of the outline. -/
theorem ordering?_eq (sketched : draft.Sketched scopes outlines) (plain : draft.inGroup = false) :
    draft.ordering? = (outlines draft.scope.root).ordering.map Clause.slot := by
  have shows := (sketched.drawn.framed sketched.isScope).inside
  rw [sketched.rows_eq plain] at shows
  have known : Keyword.orderBy.rank? = some 7 := rfl
  have row : (outlines draft.scope.root).row 7 = (outlines draft.scope.root).ordering.toList.map
      fun clause => clause.tree .orderBy (listed sortTrees clause.part) := rfl
  unfold Draft.ordering?
  cases said : (outlines draft.scope.root).ordering with
  | none =>
    rw [said] at row
    exact Outline.clause?_of_row_nil known (by decide) shows row
  | some clause =>
    rw [said] at row
    rw [Outline.clause?_of_row known (by decide) shows row, if_pos rfl]
    rfl

/-- **The last column of the ordering gets a direction.** -/
theorem direct (sketched : draft.Sketched scopes outlines) (plain : draft.inGroup = false)
    (direction : Direction) :
    (draft.direct direction).Sketched scopes (Function.update outlines draft.scope.root
      ((outlines draft.scope.root).directed direction)) := by
  have found := sketched.ordering?_eq plain
  unfold Draft.direct
  rw [if_neg (by simp [plain]), found]
  cases said : (outlines draft.scope.root).ordering with
  | none =>
    have directed : (outlines draft.scope.root).directed direction = outlines draft.scope.root := by
      unfold Outline.directed
      rw [said]
    rw [directed, Function.update_eq_self]
    exact sketched
  | some clause =>
    obtain ⟨front, last, items⟩ := (List.eq_nil_or_concat' clause.part).resolve_left
      (sketched.heldScope.ordered clause said)
    have directed : (outlines draft.scope.root).directed direction =
        (outlines draft.scope.root).sorted clause.slot (front ++ [(last.1, some direction)]) := by
      unfold Outline.directed Outline.directLast
      rw [said]
      simp [items]
    obtain ⟨-, -, framed⟩ := sketched.framedAt plain (by decide) (row_ordering said)
    rw [items] at framed
    obtain ⟨child, grow, lastChild, grown, drawn⟩ := sketched.exists_directed framed direction
    rw [directed]
    simp only [Option.map_some, lastChild]
    rw [grown, ← adjust_id (draft.alter grow)]
    refine sketched.reworked plain (show 7 < 9 by decide) drawn rfl (Outline.row_sorted _ _ _) rfl
      rfl rfl { sketched.heldScope with ordered := ?_ }
    intro other same
    obtain rfl := Option.some.inj same
    simp

end Draft.Sketched

end SqlDraft
