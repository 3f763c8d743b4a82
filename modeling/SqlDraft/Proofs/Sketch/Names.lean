/-
**Names in an outline.**

A name stands directly behind what it names. What a name would go to is the last column, the table
or the last join, and all three are handled as one: a node in a clause of a known rank, with the
name it has behind it.

* `Outline.place?_eq_some`: where the node that a name would go to stands.
* `Store.Drawn.placed`: it is a child of a clause of its rank.
* `Draft.Sketched.giveName`: what a name changes.
-/

import Mathlib.Data.List.ModifyLast
import SqlDraft.Proofs.Sketch.Sources

namespace SqlDraft

/-! ### Outlines with names -/

/-- The slot that a tree is known by. -/
def Tree.slot? : Tree → Option Slot
  | node mark _ _ => mark
  | scope root => some root

/-- The rank of the clause that a target stands in. -/
def Target.rank : Target → Nat
  | column => 0
  | table => 1
  | join => 2

/-- How a target stands in the row of its clause: nothing but its name is behind the last column, and a
table comes first. -/
def Target.Fits : Target → (lead : List Tree) → (source : Tree) → (tail : List Tree) → Prop
  | column, _, source, tail => (∃ slot text, source = .node (some slot) (.literal text) []) ∧ tail = []
  | table, lead, _, _ | join, lead, _, _ => lead = []

def Column.called (name : String) (column : Column) : Column := { column with name := some name }

def Table.called (name : String) (table : Table) : Table := { table with name := some name }

def Join.called (name : String) (join : Join) : Join := { join with name := some name }

/-- A command whose last column has this name. -/
def Action.nameLast (name : String) : Action → Action
  | columns distinct row => columns distinct (row.modifyLast (Column.called name))
  | action => action

namespace Outline

/-- The clause that a target stands in. -/
def holder? (outline : Outline) : Target → Option Slot
  | .column => outline.command.map Clause.slot
  | .table => outline.table.map Clause.slot
  | .join => outline.joins.getLast?.map Clause.slot

/-- An outline in which a target has this name. -/
def naming (outline : Outline) (name : String) : Target → Outline
  | .column =>
    { outline with command := outline.command.map (Clause.revise (Action.nameLast name)) }
  | .table => { outline with table := outline.table.map (Clause.revise (Table.called name)) }
  | .join => { outline with joins := outline.joins.modifyLast (Clause.revise (Join.called name)) }

/-- An outline in which what came last has this name. -/
def named (outline : Outline) (name : String) : Outline :=
  match outline.target with
  | none => outline
  | some target => outline.naming name target

theorem slot?_sourceTree (source : Source) : source.tree.slot? = some source.slot := by
  cases source <;> rfl

/-- **A target stands in a clause of its rank, with its name behind it.** What is further behind are
the conditions of a join. -/
theorem place?_eq_some {outline : Outline} {target : Target} {slot : Slot}
    (place : outline.place? target = some slot) :
    ∃ front clause word lead source name tail back,
      outline.holder? target = some clause ∧
      outline.row target.rank = front ++ .node (some clause) (.keyword word)
        (lead ++ source :: (nameTrees name ++ tail)) :: back ∧
      source.slot? = some slot ∧ target.Fits lead source tail ∧
      (∀ tree ∈ tail, ∃ below slot, tree = .node (some slot) (.keyword .joinOn) below) ∧
      ∀ new, (outline.naming new target).row target.rank =
        front ++ .node (some clause) (.keyword word)
          (lead ++ source :: (nameTrees (some new) ++ tail)) :: back := by
  cases target with
  | column =>
    obtain ⟨clause, said, last⟩ := Option.bind_eq_some_iff.mp place
    obtain ⟨at_, action⟩ := clause
    cases action with
    | all _ | removal _ => exact absurd last (by simp [Action.lastColumn?])
    | columns distinct row =>
      obtain ⟨column, final, rfl⟩ := Option.map_eq_some_iff.mp last
      obtain ⟨front, rfl⟩ := List.getLast?_eq_some_iff.mp final
      refine ⟨[], at_, (Action.columns distinct []).keyword,
        listed Column.trees front ++ (if front.isEmpty then [] else [.leaf (.keyword .comma)]),
        .node (some column.slot) (.literal column.text) [], column.name, [], [], ?_, ?_, rfl,
        ⟨⟨_, _, rfl⟩, rfl⟩, by simp, fun new => ?_⟩
      · rw [holder?, said]
        rfl
      · show outline.command.toList.map _ = _
        rw [said]
        show [Clause.tree _ _ (listed Column.trees (front ++ [column]))] = _
        rw [listed_append]
        simp [Clause.tree, Column.trees, Action.keyword]
      · show (outline.command.map _).toList.map _ = _
        rw [said]
        show [Clause.tree _ _ (listed Column.trees (List.modifyLast _ (front ++ [column])))] = _
        rw [List.modifyLast_concat, listed_append]
        simp [Clause.tree, Column.trees, Column.called, Action.keyword, Clause.revise,
          Action.nameLast]
  | table =>
    obtain ⟨clause, said, rfl⟩ := Option.map_eq_some_iff.mp place
    refine ⟨[], clause.slot, outline.tableKeyword, [], clause.part.source.tree, clause.part.name,
      [], [], ?_, ?_, slot?_sourceTree _, rfl, by simp, fun new => ?_⟩
    · rw [holder?, said]
      rfl
    · show outline.table.toList.map _ = _
      rw [said]
      simp [Clause.tree, Table.trees]
    · show (outline.table.map _).toList.map _ = _
      rw [said]
      simp [Clause.tree, Table.trees, Clause.revise, Table.called, tableKeyword, naming]
  | join =>
    obtain ⟨clause, final, rfl⟩ := Option.map_eq_some_iff.mp place
    obtain ⟨front, said⟩ := List.getLast?_eq_some_iff.mp final
    refine ⟨front.map fun clause => clause.tree clause.part.kind.keyword clause.part.trees,
      clause.slot, clause.part.kind.keyword, [], clause.part.source.tree, clause.part.name,
      clause.part.conditions.toList.map fun clause => clause.tree .joinOn (Item.trees clause.part),
      [], ?_, ?_, slot?_sourceTree _, rfl, ?_, fun new => ?_⟩
    · rw [holder?, final]
      rfl
    · show outline.joins.map _ = _
      rw [said, List.map_append]
      rfl
    · cases clause.part.conditions with
      | none => simp
      | some conditions => simp [Clause.tree]
    · show (outline.joins.modifyLast _).map _ = _
      rw [said, List.modifyLast_concat, List.map_append]
      rfl

theorem row_naming (outline : Outline) (name : String) (target : Target) (found : Nat)
    (different : found ≠ target.rank) :
    (outline.naming name target).row found = outline.row found := by
  cases target with
  | table =>
    match found with
    | 1 => exact absurd rfl different
    | 0 | 2 | 3 | 4 | 5 | 6 | 7 | 8 | _ + 9 => rfl
  | join =>
    match found with
    | 2 => exact absurd rfl different
    | 0 | 1 | 3 | 4 | 5 | 6 | 7 | 8 | _ + 9 => rfl
  | column =>
    cases said : outline.command with
    | none =>
      have same : outline.naming name .column = outline := by
        unfold naming
        rw [said, Option.map_none, ← said]
      rw [same]
    | some clause =>
      have same : outline.naming name .column =
          outline.acting (clause.revise (Action.nameLast name)) outline.target := by
        unfold naming acting
        rw [said, Option.map_some]
      rw [same]
      refine outline.row_acting ?_ found different
      unfold tableKeyword acting
      rw [said]
      obtain ⟨at_, action⟩ := clause
      cases action <;> rfl

end Outline

/-! ### Names in a store -/

namespace Store

variable {store : Store} {scopes : List Slot} {rows : Slot → List Tree} {base root slot : Slot}
  {payload : Payload} {context : Payload → List Tree → List Tree}

/-- A row around a tree that is known by its slot. -/
theorem Shows.around {row : List Slot} {before after : List Tree} {tree : Tree}
    (shows : store.Shows scopes row (before ++ tree :: after)) (known : tree.slot? = some slot) :
    ∃ front back, row = front ++ slot :: back ∧ front.length = before.length ∧
      store.Shows scopes back after := by
  obtain ⟨front, rest, rfl, showsFront, showsRest⟩ := shows.split
  cases showsRest with
  | scope _ behind =>
    obtain rfl := Option.some.inj known
    exact ⟨front, _, rfl, showsFront.length_eq, behind⟩
  | node _ marked _ behind =>
    obtain rfl := marked slot known
    exact ⟨front, _, rfl, showsFront.length_eq, behind⟩

/-- **What a name would go to is a child of a clause of its rank.** -/
theorem Drawn.placed (drawn : store.Drawn base scopes rows) (isScope : root ∈ scopes)
    {outline : Outline} (row : rows root = outline.clauses) {target : Target}
    (place : outline.place? target = some slot) :
    ∃ clause, outline.holder? target = some clause ∧ clause ∈ store.children root ∧
      (store.payload clause).rank? = some target.rank ∧ slot ∈ store.children clause := by
  obtain ⟨front, clause, word, lead, source, name, tail, back, holder, shown, known, -, -, -⟩ :=
    Outline.place?_eq_some place
  have inside : target.rank < 9 := by cases target <;> decide
  rw [Outline.clauses_of_row_eq inside (fun _ _ => rfl) shown] at row
  obtain ⟨member, -, framed⟩ := drawn.framedAt isScope row
  obtain ⟨first, rest, split, -⟩ := framed.inside.around known
  refine ⟨clause, holder, member, ?_, by simp [split]⟩
  have inRow : .node (some clause) (.keyword word) (lead ++ source :: (nameTrees name ++ tail)) ∈
      outline.row target.rank := by simp [shown]
  obtain ⟨at_, tag, below, same, ranked⟩ := Outline.rank?_of_mem_row inRow
  obtain ⟨-, sameTag, -⟩ := Tree.node.inj same
  rw [framed.payload_eq, sameTag]
  exact ranked

end Store

namespace Draft

variable {draft : Draft} {scopes : List Slot} {rows : Slot → List Tree} {base root slot : Slot}
  {payload : Payload} {context : Payload → List Tree → List Tree}

/-- **A name is put directly behind what it names, or replaces the name that stands there.** -/
theorem giveName_drawn {source : Tree} {target : Slot} {lead tail : List Tree} {old : Option String}
    (drawn : draft.store.Drawn base scopes rows) (isScope : root ∈ scopes)
    (framed : draft.store.Framed scopes root slot payload
      (lead ++ source :: (nameTrees old ++ tail)) context)
    (known : source.slot? = some target) (goes : draft.scope.target = some target)
    (free : ∀ tree ∈ tail.head?, ∃ below slot, tree = .node (some slot) (.keyword .joinOn) below)
    (name : String) :
    ∃ grow, draft.giveName name = draft.alter grow ∧ (grow draft.store).Drawn base scopes
      (Function.update rows root
        (context payload (lead ++ source :: (nameTrees (some name) ++ tail)))) := by
  have forest := drawn.forest
  obtain ⟨front, back, split, length, behind⟩ := framed.inside.around known
  have next := forest.next_eq_head? split
  unfold Draft.giveName
  rw [goes]
  cases old with
  | none =>
    rw [nameTrees, Option.toList_none, List.map_nil, List.nil_append] at framed behind
    have unnamed : draft.nameAfter? target = none := by
      unfold Draft.nameAfter?
      rw [next]
      cases tail with
      | nil =>
        cases behind
        rfl
      | cons tree rest =>
        obtain ⟨below, at_, rfl⟩ := free tree rfl
        obtain ⟨child, others, rfl, tag, -⟩ := behind.uncons
        show Option.filter (fun slot => (draft.store.payload slot).isKeyword .asName) _ = none
        rw [List.head?_cons, Option.filter_some, tag]
        rfl
    simp only [unnamed]
    refine ⟨_, rfl, ?_⟩
    obtain ⟨between, grownLabel, grownLeaf⟩ :=
      Store.named forest split (.keyword .asName) (.literal name)
    have plain : draft.store.fresh ∉ scopes := fun member =>
      draft.store.fresh_not_inUse (drawn.inUse _ member)
    have lengthToo : (front ++ [target]).length = (lead ++ [source]).length := by simp [length]
    rw [show lead ++ source :: tail = (lead ++ [source]) ++ tail by simp] at framed
    have drawnLabel := drawn.grow isScope framed grownLabel lengthToo none (by simp)
    have framedLabel := framed.grow forest (Store.sameScopes_refl _ _) grownLabel lengthToo
      (@Store.Grown.leaf _ _ _ _ _ _ _ grownLabel forest plain none (by simp))
    obtain ⟨first, child, rest, row, firstLength, -, -, -, deeper⟩ :=
      framedLabel.child drawnLabel.forest
    obtain ⟨-, same⟩ := List.append_inj (grownLabel.children_parent.symm.trans row)
      (lengthToo.trans firstLength.symm)
    obtain ⟨rfl, -⟩ := List.cons.inj same
    rw [← List.append_nil ([] : List Tree)] at deeper
    have drawnLeaf := drawnLabel.grow isScope deeper grownLeaf rfl none (by simp)
    rw [Function.update_idem] at drawnLeaf
    simpa [nameTrees, Tree.leaf] using drawnLeaf
  | some before =>
    rw [nameTrees, Option.toList_some, List.map_cons, List.map_nil, List.singleton_append]
      at framed behind
    obtain ⟨label, others, rfl, -⟩ := behind.uncons
    rw [show lead ++ source :: .node none (.keyword .asName) [.leaf (.literal before)] :: tail =
      (lead ++ [source]) ++ .node none (.keyword .asName) [.leaf (.literal before)] :: tail by simp]
      at framed
    obtain ⟨first, child, rest, row, firstLength, -, -, -, deeper⟩ := framed.child forest
    have lengthToo : (front ++ [target]).length = first.length := by simp [firstLength, length]
    obtain ⟨-, same⟩ := List.append_inj
      ((show (front ++ [target]) ++ label :: others = _ by simp [split]).trans row) lengthToo
    obtain ⟨rfl, -⟩ := List.cons.inj same
    obtain ⟨leaf, below, plain, framedLeaf⟩ := deeper.only forest
    have named : draft.nameAfter? target = some label := by
      unfold Draft.nameAfter?
      rw [next]
      show Option.filter (fun slot => (draft.store.payload slot).isKeyword .asName) _ = _
      rw [List.head?_cons, Option.filter_some, deeper.payload_eq]
      rfl
    have firstChild : draft.store.firstChild? label = some leaf := by
      rw [forest.firstChild?_eq_head?, below]
      rfl
    simp only [named, firstChild]
    refine ⟨_, rfl, ?_⟩
    have retagged := drawn.retag isScope framedLeaf plain
      (forest.retagged framedLeaf.inUse (.literal name))
    simpa [nameTrees, Tree.leaf] using retagged

end Draft

/-! ### Names in a draft -/

theorem getLast?_modifyLast {Thing Mark : Type} {change : Thing → Thing} {mark : Thing → Mark}
    (same : ∀ thing, mark (change thing) = mark thing) (things : List Thing) :
    (things.modifyLast change).getLast?.map mark = things.getLast?.map mark := by
  rcases List.eq_nil_or_concat' things with rfl | ⟨front, last, rfl⟩
  · rfl
  · rw [List.modifyLast_concat, List.getLast?_append, List.getLast?_append, List.getLast?_singleton,
      List.getLast?_singleton, Option.some_or, Option.some_or, Option.map_some, Option.map_some,
      same]

theorem Action.lastColumn?_nameLast (name : String) (action : Action) :
    (action.nameLast name).lastColumn? = action.lastColumn? := by
  cases action with
  | columns _ row =>
    exact @getLast?_modifyLast _ _ (Column.called name) Column.slot (fun _ => rfl) row
  | all _ | removal _ => rfl

/-- A scope remembers what is named, not the name. -/
theorem Scope.Held.naming {scope : Scope} {outline : Outline} (held : scope.Held outline)
    (name : String) (target : Target) : scope.Held (outline.naming name target) := by
  cases target with
  | column =>
    refine held.congr rfl rfl ?_ rfl rfl rfl rfl ?_ rfl
    · show (outline.command.map _).map _ = _
      rw [Option.map_map]
      rfl
    · funext found
      cases found with
      | column =>
        show (outline.command.map _).bind _ = outline.command.bind _
        cases outline.command with
        | none => rfl
        | some clause => exact clause.part.lastColumn?_nameLast name
      | table | join => rfl
  | table =>
    refine held.congr rfl rfl rfl ?_ rfl rfl rfl ?_ rfl
    · show (outline.table.map _).map _ = _
      rw [Option.map_map]
      rfl
    · funext found
      cases found with
      | table =>
        show (outline.table.map _).map _ = _
        rw [Option.map_map]
        rfl
      | column | join => rfl
  | join =>
    have last {Mark : Type} (mark : Clause Join → Mark)
        (same : ∀ clause, mark (clause.revise (Join.called name)) = mark clause) :
        (outline.naming name .join).joins.getLast?.map mark = outline.joins.getLast?.map mark :=
      getLast?_modifyLast same outline.joins
    refine held.congr rfl rfl rfl rfl (last _ fun _ => rfl) rfl rfl ?_ rfl
    funext found
    cases found with
    | join => exact last _ fun _ => rfl
    | column | table => rfl

/-- A name goes nowhere in a group. -/
theorem Scope.Held.place?_eq_none {scope : Scope} {outline : Outline} (held : scope.Held outline)
    (group : outline.kind = .group) (target : Target) : outline.place? target = none := by
  obtain ⟨noCommand, noTable, noJoins⟩ := held.bare group
  cases target with
  | column => simp [Outline.place?, noCommand]
  | table => simp [Outline.place?, noTable]
  | join => simp [Outline.place?, noJoins]

namespace Draft.Sketched

variable {draft : Draft} {scopes : List Slot} {outlines : Slot → Outline}

theorem plain_of_place (sketched : draft.Sketched scopes outlines) {target : Target} {slot : Slot}
    (place : (outlines draft.scope.root).place? target = some slot) : draft.inGroup = false := by
  refine decide_eq_false fun group => ?_
  rw [sketched.heldScope.place?_eq_none (sketched.heldScope.kind.trans group)] at place
  exact nomatch place

/-- **What came last in a scope is named.** -/
theorem giveName (sketched : draft.Sketched scopes outlines) (name : String) :
    (draft.giveName name).Sketched scopes (Function.update outlines draft.scope.root
      ((outlines draft.scope.root).named name)) := by
  have held := sketched.heldScope
  have goes := held.target
  unfold Outline.named
  cases aim : (outlines draft.scope.root).target with
  | none =>
    rw [aim, Option.bind_none] at goes
    unfold Draft.giveName
    simp only [goes, Function.update_eq_self]
    exact sketched
  | some target =>
    obtain ⟨slot, place⟩ := Option.isSome_iff_exists.mp (held.placed target aim)
    rw [aim, Option.bind_some, place] at goes
    have plain := sketched.plain_of_place place
    have inside : target.rank < 9 := by cases target <;> decide
    obtain ⟨front, clause, word, lead, source, old, tail, back, -, row, known, -, free, changed⟩ :=
      Outline.place?_eq_some place
    obtain ⟨-, -, framed⟩ := sketched.framedAt plain inside row
    obtain ⟨grow, same, drawn⟩ := giveName_drawn sketched.drawn sketched.isScope framed known goes
      (fun tree first => free tree (List.mem_of_mem_head? first)) name
    rw [same, ← adjust_id (draft.alter grow)]
    exact sketched.reworked plain inside drawn (changed name) (Outline.row_naming _ name target) rfl
      rfl rfl (held.naming name target)

end Draft.Sketched

end SqlDraft
