/-
**Removals in an outline.**

A removal takes the place of the command with all its columns, and the tag of the table clause
follows it. A name that would have gone to a column goes nowhere, and other names keep their place:
no slot that a scope remembers is among those that are released.

* `Draft.Sketched.target_of_columns`: which names keep their place when the columns go.
* `Draft.Sketched.remove`: what a removal changes.
-/

import SqlDraft.Proofs.Sketch.Names

namespace SqlDraft

/-! ### Outlines of removals -/

/-- Whether a target is still there when the columns are gone. -/
def Target.outlivesColumns : Target → Bool
  | column => false
  | table | join => true

namespace Outline

variable (outline : Outline)

/-- An outline whose command is a removal. -/
def removed (slot : Slot) (removal : Removal) : Outline :=
  { outline with
    command := some ⟨slot, .removal removal⟩
    target := outline.target.filter Target.outlivesColumns }

theorem tableKeyword_removed (slot : Slot) (removal : Removal) :
    (outline.removed slot removal).tableKeyword = removal.tableKeyword := by
  cases removal <;> rfl

theorem behind_one_removed (slot : Slot) (removal : Removal) :
    (outline.removed slot removal).behind 1 = outline.behind 1 := by
  refine List.flatMap_congr fun found member => ?_
  have bounds := List.mem_range'_1.mp member
  match found with
  | 0 | 1 => omega
  | 2 | 3 | 4 | 5 | 6 | 7 | 8 | _ + 9 => rfl

theorem clauses_eq_three :
    outline.clauses = outline.row 0 ++ (outline.row 1 ++ outline.behind 1) := by
  rw [outline.clauses_eq_append (show 1 < 9 by decide)]
  show (List.range 1).flatMap _ ++ _ = _
  rw [List.range_one, List.flatMap_singleton]

theorem behind_zero : outline.behind 0 = outline.row 1 ++ outline.behind 1 := by
  have both := (outline.clauses_eq_append (show 0 < 9 by decide)).symm.trans outline.clauses_eq_three
  exact List.append_cancel_left both

end Outline

/-- A scope that remembers this command and this place of a name. -/
def Scope.commanded (scope : Scope) (slot : Slot) (target : Option Slot) : Scope :=
  { scope with command := some slot, target }

/-- A scope that is a removal remembers no column. -/
theorem Scope.Held.removed {scope : Scope} {outline : Outline} (held : scope.Held outline)
    (plain : outline.kind ≠ .group) (slot : Slot) (removal : Removal) :
    (scope.commanded slot ((outline.target.filter Target.outlivesColumns).bind
      outline.place?)).Held (outline.removed slot removal) := by
  have elsewhere : ∀ target ∈ outline.target.filter Target.outlivesColumns,
      (outline.removed slot removal).place? target = outline.place? target := by
    intro target goes
    cases target with
    | column => exact absurd (Option.filter_eq_some_iff.mp goes).2 (by decide)
    | table | join => rfl
  refine { held with command := rfl, target := ?_, placed := ?_, bare := ?_ }
  · show _ = (outline.target.filter Target.outlivesColumns).bind
      (outline.removed slot removal).place?
    cases goes : outline.target.filter Target.outlivesColumns with
    | none => rfl
    | some target => exact (elsewhere target goes).symm
  · intro target goes
    rw [elsewhere target goes]
    exact held.placed target (Option.filter_eq_some_iff.mp goes).1
  · exact fun group => absurd group plain

namespace Draft.Sketched

variable {draft : Draft} {scopes : List Slot} {outlines : Slot → Outline}

/-! ### Removals in a draft -/

/-- Without a command there is no column that a name would go to. -/
theorem target_of_none (sketched : draft.Sketched scopes outlines)
    (absent : (outlines draft.scope.root).command = none) :
    draft.scope.target = ((outlines draft.scope.root).target.filter Target.outlivesColumns).bind
      (outlines draft.scope.root).place? := by
  have held := sketched.heldScope
  rw [held.target]
  cases goes : (outlines draft.scope.root).target with
  | none => rfl
  | some target =>
    cases target with
    | column =>
      have placed := held.placed .column goes
      rw [Outline.place?, absent] at placed
      exact absurd placed (by simp)
    | table | join => rfl

/-- **Only the names of columns go with the columns.** -/
theorem target_of_columns (sketched : draft.Sketched scopes outlines)
    (plain : draft.inGroup = false) {clause : Clause Action}
    (said : (outlines draft.scope.root).command = some clause) :
    (draft.scope.target.filter fun target => target ∉ draft.store.children clause.slot) =
      ((outlines draft.scope.root).target.filter Target.outlivesColumns).bind
        (outlines draft.scope.root).place? := by
  have held := sketched.heldScope
  have isCommand := (sketched.framedAt plain (by decide) (row_command _ said)).2.2.payload_eq
  rw [held.target]
  cases goes : (outlines draft.scope.root).target with
  | none => rfl
  | some target =>
    obtain ⟨slot, place⟩ := Option.isSome_iff_exists.mp (held.placed target goes)
    obtain ⟨holder, isHolder, -, rank, member⟩ :=
      sketched.drawn.placed sketched.isScope (sketched.rows_eq plain) place
    rw [Option.bind_some, place]
    -- A child of the table or of a join is not one of the command, whose rank is another one.
    have apart : target.rank ≠ 0 → slot ∉ draft.store.children clause.slot := by
      intro different memberToo
      rw [sketched.drawn.forest.sole_parent _ _ _ member memberToo, isCommand] at rank
      exact different (Option.some.inj (rank.symm.trans (rank?_keyword clause.part)))
    cases target with
    | column =>
      rw [Outline.holder?, said] at isHolder
      obtain rfl := Option.some.inj isHolder
      rw [Option.filter_some, if_neg (by simp [member])]
      rfl
    | table | join =>
      rw [Option.filter_some, if_pos (by simp [apart (by decide)])]
      exact place.symm

/-- The tag of the table clause follows a removal. -/
theorem removed_drawn {store : Store} (sketched : draft.Sketched scopes outlines)
    {slot : Slot} {removal : Removal}
    (drawn : store.Drawn draft.root scopes (Function.update (fun root => (outlines root).trees)
      draft.scope.root (.node (some slot) (.keyword removal.keyword) [] ::
        ((outlines draft.scope.root).row 1 ++ (outlines draft.scope.root).behind 1)))) :
    (match draft.scope.table with
      | some clause => store.setPayload clause (.keyword removal.tableKeyword)
      | none => store).Drawn draft.root scopes (Function.update (fun root => (outlines root).trees)
        draft.scope.root ((outlines draft.scope.root).removed slot removal).clauses) := by
  rw [Outline.clauses_eq_three, Outline.behind_one_removed, sketched.heldScope.table]
  have command : ((outlines draft.scope.root).removed slot removal).row 0 =
      [.node (some slot) (.keyword removal.keyword) []] := rfl
  have table : ((outlines draft.scope.root).removed slot removal).row 1 =
      (outlines draft.scope.root).table.toList.map fun clause =>
        clause.tree removal.tableKeyword clause.part.trees := by
    show (outlines draft.scope.root).table.toList.map _ = _
    rw [Outline.tableKeyword_removed]
  have before : (outlines draft.scope.root).row 1 =
      (outlines draft.scope.root).table.toList.map fun clause =>
        clause.tree (outlines draft.scope.root).tableKeyword clause.part.trees := rfl
  rw [command, table]
  cases said : (outlines draft.scope.root).table with
  | none =>
    rw [before, said] at drawn
    exact drawn
  | some clause =>
    rw [before, said] at drawn
    have row : Function.update (fun root => (outlines root).trees) draft.scope.root
        (.node (some slot) (.keyword removal.keyword) [] ::
          ((some clause).toList.map (fun clause => clause.tree
            (outlines draft.scope.root).tableKeyword clause.part.trees) ++
              (outlines draft.scope.root).behind 1)) draft.scope.root =
        [.node (some slot) (.keyword removal.keyword) []] ++ .node (some clause.slot)
          (.keyword (outlines draft.scope.root).tableKeyword) clause.part.trees ::
            (outlines draft.scope.root).behind 1 := by
      rw [Function.update_self]
      rfl
    obtain ⟨-, plain, framed⟩ := drawn.framedAt sketched.isScope row
    have retagged := drawn.retag sketched.isScope framed plain
      (drawn.forest.retagged framed.inUse (.keyword removal.tableKeyword))
    rwa [Function.update_idem] at retagged

/-- The command of a removal is in place, and the table gets its tag. -/
theorem tagTable (sketched : draft.Sketched scopes outlines) (plain : draft.inGroup = false)
    {removal : Removal} {grow : Store → Store} {change : Scope → Scope} {slot : Slot}
    (drawn : (grow draft.store).Drawn draft.root scopes (Function.update
      (fun root => (outlines root).trees) draft.scope.root
        (.node (some slot) (.keyword removal.keyword) [] ::
          ((outlines draft.scope.root).row 1 ++ (outlines draft.scope.root).behind 1))))
    (changed : change draft.scope = draft.scope.commanded slot
      (((outlines draft.scope.root).target.filter Target.outlivesColumns).bind
        (outlines draft.scope.root).place?)) :
    Draft.Sketched (match ((draft.alter grow).adjust change).scope.table with
      | some clause => ((draft.alter grow).adjust change).alter
        (·.setPayload clause (.keyword removal.tableKeyword))
      | none => (draft.alter grow).adjust change) scopes
      (Function.update outlines draft.scope.root
        ((outlines draft.scope.root).removed slot removal)) := by
  have ungrouped := sketched.kind_ne_group plain
  have table : ((draft.alter grow).adjust change).scope.table = draft.scope.table := by
    rw [scope_adjust, scope_alter, changed]
    rfl
  have held := sketched.heldScope.removed ungrouped slot removal
  rw [← changed] at held
  have removed := sketched.removed_drawn drawn
  have open_ : ((outlines draft.scope.root).removed slot removal).kind ≠ .group := ungrouped
  rw [← Outline.trees_eq_clauses held.opened open_] at removed
  have root : (change draft.scope).root = draft.scope.root := by
    rw [changed]
    rfl
  have handback : (change draft.scope).handback = draft.scope.handback := by
    rw [changed]
    rfl
  have kind : (change draft.scope).kind = draft.scope.kind := by
    rw [changed]
    rfl
  rw [table]
  cases known : draft.scope.table with
  | none =>
    rw [known] at removed
    exact sketched.edited removed root handback kind held
  | some clause =>
    rw [known] at removed
    show (((draft.alter grow).adjust change).alter
      (·.setPayload clause (.keyword removal.tableKeyword))).Sketched _ _
    rw [alter_adjust, alter_alter]
    exact sketched.edited removed root handback kind held

/-- **A scope becomes a removal.** -/
theorem remove (sketched : draft.Sketched scopes outlines) (plain : draft.inGroup = false)
    (removal : Removal) : ∃ slot, (draft.remove removal).Sketched scopes
      (Function.update outlines draft.scope.root
        ((outlines draft.scope.root).removed slot removal)) := by
  have word : removal.keyword.rank? = some 0 := by cases removal <;> rfl
  unfold Draft.remove
  rw [if_neg (by simp [plain])]
  cases known : draft.scope.command with
  | none =>
    have absent := sketched.command_eq_none known
    have added := sketched.addedClause plain word (by decide)
    rw [row_zero_of_none absent, List.nil_append, Outline.behind_zero] at added
    refine ⟨draft.store.fresh, ?_⟩
    refine @tagTable _ _ _ sketched plain _ (fun store => store.addClause draft.scope.root removal.keyword)
      (fun scope => { scope with command := some draft.store.fresh }) _ added ?_
    rw [← sketched.target_of_none absent]
    rfl
  | some slot =>
    obtain ⟨action, said⟩ := sketched.command_eq_some known
    obtain ⟨-, plainSlot, framed⟩ := sketched.framedAt plain (by decide) (row_command _ said)
    have cleared := sketched.drawn.trim sketched.isScope framed (Action.scopes_trees action)
      (sketched.drawn.forest.trimmed_eraseChildren framed.inUse) fun _ => Iff.rfl
    obtain ⟨-, -, framedEmpty⟩ := cleared.framedAt sketched.isScope (Function.update_self _ _ _)
    have retagged := cleared.retag sketched.isScope framedEmpty plainSlot
      (cleared.forest.retagged framedEmpty.inUse (.keyword removal.keyword))
    rw [Function.update_idem, List.nil_append, Outline.behind_zero] at retagged
    refine ⟨slot, ?_⟩
    refine @tagTable _ _ _ sketched plain _ (fun store => (store.eraseChildren slot).setPayload slot
      (.keyword removal.keyword)) (fun scope => { scope with
        target := scope.target.filter (fun target => target ∉ draft.store.children slot) }) _
      retagged ?_
    rw [← sketched.target_of_columns plain said]
    unfold Scope.commanded
    rw [← known]

end Draft.Sketched

end SqlDraft
