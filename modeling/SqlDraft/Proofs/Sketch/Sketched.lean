/-
**Drafts drawn as outlines.**

A draft is drawn when its tree shows the outline of every scope that was ever opened in it, and each
open scope remembers slots of its own outline only:

* `Draft.Sketched`: the draft is drawn by the outlines of its scopes.
* `Draft.Sketched.edited`: one scope says something else, and everything else stays.
-/

import SqlDraft.Proofs.Sketch.Clauses
import SqlDraft.Proofs.Sketch.Stacked

namespace SqlDraft

namespace Draft

/-- The open scopes, the innermost first. -/
def opens (draft : Draft) : List Scope := draft.nested ++ [draft.base]

/-- The open scopes around the innermost one. -/
def around (draft : Draft) : List Scope :=
  match draft.nested with
  | [] => []
  | _ :: outer => outer ++ [draft.base]

/-- **A draft is drawn by the outlines of its scopes.** -/
structure Sketched (draft : Draft) (scopes : List Slot) (outlines : Slot → Outline) : Prop
    extends Stacked draft.opens scopes outlines where
  drawn : draft.store.Drawn draft.root scopes fun root => (outlines root).trees
  statement : draft.base.kind = .statement

/-! ### Changes of the innermost scope -/

theorem opens_eq (draft : Draft) : draft.opens = draft.scope :: draft.around := by
  unfold opens scope around
  cases draft.nested <;> rfl

theorem opens_adjust (draft : Draft) (change : Scope → Scope) :
    (draft.adjust change).opens = change draft.scope :: draft.around := by
  unfold adjust opens scope around
  cases draft.nested <;> rfl

@[simp]
theorem scope_alter (draft : Draft) (change : Store → Store) :
    (draft.alter change).scope = draft.scope := rfl

@[simp]
theorem store_alter (draft : Draft) (change : Store → Store) :
    (draft.alter change).store = change draft.store := rfl

@[simp]
theorem alter_alter (draft : Draft) (first second : Store → Store) :
    (draft.alter first).alter second = draft.alter fun store => second (first store) := rfl

@[simp]
theorem alter_adjust (draft : Draft) (change : Scope → Scope) (grow : Store → Store) :
    (draft.adjust change).alter grow = (draft.alter grow).adjust change := by
  unfold adjust alter
  cases nested : draft.nested <;> rfl

@[simp]
theorem adjust_adjust (draft : Draft) (first second : Scope → Scope) :
    (draft.adjust first).adjust second = draft.adjust fun scope => second (first scope) := by
  unfold adjust
  cases nested : draft.nested <;> simp

@[simp]
theorem adjust_id (draft : Draft) : (draft.adjust fun scope => scope) = draft := by
  unfold adjust
  split
  · rfl
  · next nested => rw [← nested]

theorem root_adjust (draft : Draft) {change : Scope → Scope}
    (root : (change draft.scope).root = draft.scope.root) :
    (draft.adjust change).root = draft.root := by
  unfold adjust
  cases nested : draft.nested with
  | nil =>
    rw [scope, nested] at root
    exact root
  | cons inner outer => rfl

theorem base_kind_adjust (draft : Draft) {change : Scope → Scope}
    (kind : (change draft.scope).kind = draft.scope.kind) :
    (draft.adjust change).base.kind = draft.base.kind := by
  unfold adjust
  cases nested : draft.nested with
  | nil =>
    rw [scope, nested] at kind
    exact kind
  | cons inner outer => rfl

namespace Sketched

variable {draft : Draft} {scopes : List Slot} {outlines : Slot → Outline}

theorem scope_mem_opens (draft : Draft) : draft.scope ∈ draft.opens := by
  rw [opens_eq]
  exact List.mem_cons_self

theorem isScope (sketched : draft.Sketched scopes outlines) : draft.scope.root ∈ scopes :=
  sketched.known draft.scope (scope_mem_opens draft)

theorem heldScope (sketched : draft.Sketched scopes outlines) :
    draft.scope.Held (outlines draft.scope.root) :=
  sketched.held draft.scope (scope_mem_opens draft)

theorem base_mem_opens (draft : Draft) : draft.base ∈ draft.opens :=
  List.mem_append_right _ (List.mem_singleton_self _)

theorem root_mem (sketched : draft.Sketched scopes outlines) : draft.root ∈ scopes :=
  sketched.known draft.base (base_mem_opens draft)

theorem heldBase (sketched : draft.Sketched scopes outlines) :
    draft.base.Held (outlines draft.root) :=
  sketched.held draft.base (base_mem_opens draft)

/-- The innermost scope and those around it. -/
theorem stacked (sketched : draft.Sketched scopes outlines) :
    Stacked (draft.scope :: draft.around) scopes outlines := by
  rw [← opens_eq]
  exact sketched.toStacked

theorem trees_update (outlines : Slot → Outline) (root : Slot) (outline : Outline) :
    (fun found => (Function.update outlines root outline found).trees) =
      Function.update (fun found => (outlines found).trees) root outline.trees := by
  funext found
  exact Function.apply_update (fun _ => Outline.trees) outlines root outline found

theorem kind_ne_group (sketched : draft.Sketched scopes outlines) (plain : draft.inGroup = false) :
    (outlines draft.scope.root).kind ≠ .group := by
  rw [sketched.heldScope.kind]
  exact of_decide_eq_false plain

theorem inGroup_eq_false (sketched : draft.Sketched scopes outlines)
    (ungrouped : (outlines draft.scope.root).kind ≠ .group) : draft.inGroup = false :=
  decide_eq_false fun isGroup => ungrouped (sketched.heldScope.kind.trans isGroup)

theorem rows_eq (sketched : draft.Sketched scopes outlines) (plain : draft.inGroup = false) :
    (outlines draft.scope.root).trees = (outlines draft.scope.root).clauses :=
  Outline.trees_eq_clauses sketched.heldScope.opened (sketched.kind_ne_group plain)

/-- **The innermost scope says something else, and everything else stays.** -/
theorem edited (sketched : draft.Sketched scopes outlines) {grow : Store → Store}
    {change : Scope → Scope} {outline : Outline}
    (drawn : (grow draft.store).Drawn draft.root scopes (Function.update
      (fun root => (outlines root).trees) draft.scope.root outline.trees))
    (root : (change draft.scope).root = draft.scope.root)
    (handback : (change draft.scope).handback = draft.scope.handback)
    (kind : (change draft.scope).kind = draft.scope.kind)
    (held : (change draft.scope).Held outline) :
    ((draft.alter grow).adjust change).Sketched scopes
      (Function.update outlines draft.scope.root outline) := by
  have opens : ((draft.alter grow).adjust change).opens = change draft.scope :: draft.around :=
    opens_adjust (draft.alter grow) change
  have rootEq : ((draft.alter grow).adjust change).root = draft.root :=
    root_adjust (draft.alter grow) root
  refine ⟨?_, ?_, ?_⟩
  · rw [opens]
    exact sketched.stacked.revised root handback kind held
  · rw [rootEq, store_adjust, trees_update]
    exact drawn
  · rw [base_kind_adjust (draft.alter grow) kind]
    exact sketched.statement

/-! ### Changes of one clause -/

theorem trees_at (sketched : draft.Sketched scopes outlines) (plain : draft.inGroup = false)
    {rank : Nat} (inside : rank < 9) {front back : List Tree} {tree : Tree}
    (row : (outlines draft.scope.root).row rank = front ++ tree :: back) :
    (outlines draft.scope.root).trees = ((outlines draft.scope.root).before rank ++ front) ++
      tree :: (back ++ (outlines draft.scope.root).behind rank) := by
  rw [sketched.rows_eq plain, Outline.clauses_of_row_eq inside (fun _ _ => rfl) row]

/-- A clause of the innermost scope stands at its place. -/
theorem framedAt (sketched : draft.Sketched scopes outlines) (plain : draft.inGroup = false)
    {rank : Nat} (inside : rank < 9) {front below back : List Tree} {slot : Slot}
    {content : Payload} (row : (outlines draft.scope.root).row rank =
      front ++ .node (some slot) content below :: back) :
    slot ∈ draft.store.children draft.scope.root ∧ slot ∉ scopes ∧
      draft.store.Framed scopes draft.scope.root slot content below fun content row =>
        ((outlines draft.scope.root).before rank ++ front) ++ .node (some slot) content row ::
          (back ++ (outlines draft.scope.root).behind rank) := by
  have framed := sketched.drawn.framed sketched.isScope
  rw [sketched.trees_at plain inside row] at framed
  exact framed.marked sketched.drawn.forest

/-- A clause is added to the innermost scope. -/
theorem addedClause (sketched : draft.Sketched scopes outlines) (plain : draft.inGroup = false)
    {rank : Nat} {word : Keyword} (known : word.rank? = some rank) (inside : rank < 9) :
    (draft.store.addClause draft.scope.root word).Drawn draft.root scopes
      (Function.update (fun root => (outlines root).trees) draft.scope.root
        (((outlines draft.scope.root).before rank ++ (outlines draft.scope.root).row rank) ++
          .node (some draft.store.fresh) (.keyword word) [] ::
            ([] ++ (outlines draft.scope.root).behind rank))) :=
  sketched.drawn.addClause sketched.isScope known inside (sketched.rows_eq plain)

/-- A clause of the innermost scope is drawn at its place. -/
theorem shownClause (sketched : draft.Sketched scopes outlines) (plain : draft.inGroup = false)
    {rank : Nat} (inside : rank < 9) {front back : List Tree} {tree : Tree}
    (row : (outlines draft.scope.root).row rank = front ++ tree :: back) :
    draft.store.Drawn draft.root scopes (Function.update (fun root => (outlines root).trees)
      draft.scope.root (((outlines draft.scope.root).before rank ++ front) ++ tree ::
        (back ++ (outlines draft.scope.root).behind rank))) := by
  rw [← sketched.trees_at plain inside row,
    Function.update_eq_self draft.scope.root fun root => (outlines root).trees]
  exact sketched.drawn

/-- A clause of the innermost scope is found, or else added without anything in it. -/
theorem ensuredClause (sketched : draft.Sketched scopes outlines) (plain : draft.inGroup = false)
    {rank : Nat} {word : Keyword} (known : word.rank? = some rank) (inside : rank < 9)
    {Part : Type} {below : Part → List Tree} {nothing : Part} (empty : below nothing = [])
    {old : Option (Clause Part)} (row : (outlines draft.scope.root).row rank =
      old.toList.map fun clause => clause.tree word (below clause.part)) :
    (draft.store.ensureClause draft.scope.root word).Drawn draft.root scopes
      (Function.update (fun root => (outlines root).trees) draft.scope.root
        (((outlines draft.scope.root).before rank ++ []) ++
          .node (some (draft.store.clauseSlot draft.scope.root word)) (.keyword word)
            (below (old.elim nothing Clause.part)) ::
              ([] ++ (outlines draft.scope.root).behind rank))) := by
  have shows := (sketched.drawn.framed sketched.isScope).inside
  rw [sketched.rows_eq plain] at shows
  unfold Store.ensureClause Store.clauseSlot
  cases old with
  | none =>
    rw [Outline.clause?_of_row_nil known inside shows row, if_neg (by simp), Option.elim_none, empty]
    have added := sketched.addedClause plain known inside
    rwa [row] at added
  | some clause =>
    rw [Outline.clause?_of_row known inside shows row, if_pos rfl, if_pos (by rfl)]
    exact sketched.shownClause plain inside (show _ = [] ++ _ :: [] from row)

/-- **One clause of the innermost scope says something else.** -/
theorem reworked (sketched : draft.Sketched scopes outlines) (plain : draft.inGroup = false)
    {rank : Nat} (inside : rank < 9) {grow : Store → Store} {change : Scope → Scope}
    {changed : Outline} {front back : List Tree} {tree : Tree}
    (drawn : (grow draft.store).Drawn draft.root scopes (Function.update
      (fun root => (outlines root).trees) draft.scope.root
        (((outlines draft.scope.root).before rank ++ front) ++ tree ::
          (back ++ (outlines draft.scope.root).behind rank))))
    (row : changed.row rank = front ++ tree :: back)
    (same : ∀ found, found ≠ rank → changed.row found = (outlines draft.scope.root).row found)
    (root : (change draft.scope).root = draft.scope.root)
    (handback : (change draft.scope).handback = draft.scope.handback)
    (kind : (change draft.scope).kind = draft.scope.kind)
    (held : (change draft.scope).Held changed) :
    ((draft.alter grow).adjust change).Sketched scopes
      (Function.update outlines draft.scope.root changed) := by
  refine sketched.edited ?_ root handback kind held
  have ungrouped : changed.kind ≠ .group := by
    rw [held.kind, kind]
    exact of_decide_eq_false plain
  rw [Outline.trees_eq_clauses held.opened ungrouped, Outline.clauses_of_row_eq inside same row]
  exact drawn

end Sketched

end Draft

end SqlDraft
