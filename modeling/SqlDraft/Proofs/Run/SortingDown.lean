/-
**Columns that are sorted downwards.**

Columns to sort by are put behind those that an ordering has, and the last column of the ordering
then gets its direction. That column is one of the new ones, unless there are none: then the column
that was last before is turned.

* `Store.Lengthens`: leaves were put behind a list, and nothing else changed.
* `Store.exists_lengthens`: columns are put behind a list, and a direction behind them.
* `Draft.SortsBy`: the columns of an ordering with their directions.
* `Draft.SortsMore`: an ordering got longer, or was started, and nothing else changed.
* **`Story.sorting_down_adds`**: columns are added, and what no columns change.
-/

import SqlDraft.Proofs.Run.LastEdit
import SqlDraft.Proofs.Run.Tending
import SqlDraft.Proofs.Sheet.Basic
import SqlDraft.Proofs.Store.Extending
import SqlDraft.Proofs.Store.ListOperations

namespace SqlDraft

namespace Store

variable {store between other : Store} {list root : Slot} {added more : List Slot}

/-! ### Longer lists -/

/-- Leaves were put behind the children of a node, and nothing else changed. -/
structure Lengthens (store other : Store) (list : Slot) (added : List Slot) : Prop
    extends store.KeepsBut other list where
  forest : other.Forest
  row : other.children list = store.children list ++ added
  new : ∀ slot ∈ added, ¬ store.InUse slot

theorem Lengthens.trans (first : store.Lengthens between list added)
    (second : between.Lengthens other list more) : store.Lengthens other list (added ++ more) where
  toKeepsBut := first.toKeepsBut.trans second.toKeepsBut
  forest := second.forest
  row := by rw [second.row, first.row, List.append_assoc]
  new slot member inUse := by
    rcases List.mem_append.mp member with inAdded | inMore
    · exact first.new slot inAdded inUse
    · exact second.new slot inMore (first.inUse slot inUse)

/-- One more leaf behind a list. -/
theorem lengthens_addChild (forest : store.Forest) (inUse : store.InUse list) (content : Payload) :
    store.Lengthens (store.addChild list content) list [store.fresh] ∧
      (store.addChild list content).payload store.fresh = content := by
  have grown := grown_addChild forest inUse content
  refine ⟨⟨⟨fun _ => grown.inUse_of_inUse, fun _ => grown.payload_of_inUse,
    fun _ _ => grown.children_of_ne⟩, grown.forest, grown.children_parent, fun slot member => ?_⟩,
    grown.payload_fresh⟩
  rw [List.mem_singleton.mp member]
  exact store.fresh_not_inUse

theorem exists_pushColumn (forest : store.Forest) (inUse : store.InUse list) (column : String) :
    ∃ front last, store.Lengthens (store.pushColumn list column) list (front ++ [last]) ∧
      (store.pushColumn list column).payload last = .literal column := by
  unfold pushColumn
  split
  · obtain ⟨comma, -⟩ := lengthens_addChild forest inUse (.keyword .comma)
    obtain ⟨text, reads⟩ :=
      lengthens_addChild comma.forest (comma.inUse list inUse) (.literal column)
    exact ⟨_, _, comma.trans text, reads⟩
  · obtain ⟨text, reads⟩ := lengthens_addChild forest inUse (.literal column)
    exact ⟨[], _, text, reads⟩

theorem exists_pushColumns (forest : store.Forest) (inUse : store.InUse list)
    (columns : List String) :
    ∃ added, store.Lengthens (store.pushColumns list columns) list added := by
  induction columns generalizing store with
  | nil => exact ⟨[], .refl store list, forest, (List.append_nil _).symm, nofun⟩
  | cons column rest step =>
    obtain ⟨front, last, first, -⟩ := exists_pushColumn forest inUse column
    obtain ⟨added, further⟩ := step first.forest (first.inUse list inUse)
    exact ⟨_, first.trans further⟩

/-- **Columns are put behind a list, and a direction behind them.** The last column is a text, so it
is no direction that would be replaced. -/
theorem exists_lengthens (forest : store.Forest) (inUse : store.InUse list) {columns : List String}
    (asked : columns ≠ []) (direction : Direction) :
    ∃ added, store.Lengthens ((store.pushColumns list columns).setDirection list direction) list
      added := by
  obtain ⟨before, column, rfl⟩ := (List.eq_nil_or_concat' columns).resolve_left asked
  have pushed : store.pushColumns list (before ++ [column]) =
      (store.pushColumns list before).pushColumn list column := List.foldl_concat ..
  obtain ⟨added, first⟩ := exists_pushColumns forest inUse before
  obtain ⟨front, last, text, reads⟩ :=
    exists_pushColumn first.forest (first.inUse list inUse) column
  rw [← pushed] at text reads
  have whole := first.trans text
  have isLast : (store.pushColumns list (before ++ [column])).lastChild? list = some last := by
    rw [lastChild?, whole.row, ← List.append_assoc, ← List.append_assoc, List.getLast?_concat]
  have literal : ((store.pushColumns list (before ++ [column])).node last).payload =
      .literal column := reads
  obtain ⟨mark, -⟩ := lengthens_addChild whole.forest (whole.inUse list inUse)
    (.keyword direction.keyword)
  have marked : (store.pushColumns list (before ++ [column])).setDirection list direction =
      (store.pushColumns list (before ++ [column])).addChild list (.keyword direction.keyword) := by
    simp only [setDirection, isLast, literal, Payload.keyword?, Option.any_none,
      Bool.false_eq_true, if_false]
  rw [← marked] at mark
  exact ⟨_, whole.trans mark⟩

/-- A clause is there or is put into its place, and nothing else changes. -/
structure Ensures (store other : Store) (root clause : Slot) (row : List Slot) : Prop
    extends store.KeepsBut other root where
  forest : other.Forest
  inUse_clause : other.InUse clause
  ne_root : clause ≠ root
  row : other.children clause = row
  clauses : (other.children root).erase clause = (store.children root).erase clause

theorem ensures_clause (forest : store.Forest) (inUse : store.InUse root) (word : Keyword) :
    store.Ensures (store.ensureClause root word) root (store.clauseSlot root word)
      ((store.clause? root word).elim [] store.children) := by
  unfold ensureClause clauseSlot
  cases found : store.clause? root word with
  | some clause =>
    have member := mem_of_clause? found
    exact ⟨.refl store root, forest, forest.inUse_child root clause member,
      forest.ne_of_mem_children member, rfl, rfl⟩
  | none =>
    have grown := grown_addClause forest inUse word
    refine ⟨⟨fun _ => grown.inUse_of_inUse, fun _ => grown.payload_of_inUse,
      fun _ _ => grown.children_of_ne⟩, grown.forest, grown.inUse_fresh, inUse.ne_fresh.symm,
      grown.children_fresh forest, ?_⟩
    have idle : store.fresh ∉ store.children root := fun member =>
      store.fresh_not_inUse (forest.inUse_child root _ member)
    show List.erase (children (addClause _ _ _) _) store.fresh = List.erase _ store.fresh
    rw [erase_split (grown.forest.children_nodup root) grown.children_parent,
      List.erase_of_not_mem idle, grown.split]

end Store

/-! ### The columns of an ordering -/

/-- Columns to sort by, the last of them downwards. -/
def downwards (columns : List String) : List (String × Option Direction) :=
  Outline.directLast .desc (columns.map fun text => (text, none))

theorem Outline.directLast_append (direction : Direction) (front : List (String × Option Direction))
    {back : List (String × Option Direction)} (some_ : back ≠ []) :
    directLast direction (front ++ back) = front ++ directLast direction back := by
  obtain ⟨before, last, rfl⟩ := (List.eq_nil_or_concat' back).resolve_left some_
  simp [directLast, ← List.append_assoc]

/-- The payloads of columns to sort by that are not the first ones. -/
def spellFurther (columns : List (String × Option Direction)) : List Payload :=
  columns.flatMap fun next => .keyword .comma :: spellSort next

/-- No direction stands before a further column. -/
theorem keyword_cons_ne_spellFurther (direction : Direction) (payloads : List Payload)
    (columns : List (String × Option Direction)) :
    .keyword direction.keyword :: payloads ≠ spellFurther columns := by
  cases columns with
  | nil => exact List.cons_ne_nil _ _
  | cons => cases direction <;> exact fun same => nomatch same

theorem spellSort_append_inj {column other : String × Option Direction}
    {rest more : List (String × Option Direction)}
    (same : spellSort column ++ spellFurther rest = spellSort other ++ spellFurther more) :
    column = other ∧ spellFurther rest = spellFurther more := by
  obtain ⟨text, direction?⟩ := column
  obtain ⟨textToo, directionToo?⟩ := other
  obtain ⟨sameText, tails⟩ := List.cons.inj same
  obtain rfl := Payload.literal.inj sameText
  match direction?, directionToo? with
  | none, none => exact ⟨rfl, tails⟩
  | none, some direction => exact absurd tails.symm (keyword_cons_ne_spellFurther direction _ _)
  | some direction, none => exact absurd tails (keyword_cons_ne_spellFurther direction _ _)
  | some direction, some directionToo =>
    obtain ⟨sameWord, further⟩ := List.cons.inj tails
    obtain rfl : direction = directionToo := by
      cases direction <;> cases directionToo <;> first | rfl | exact nomatch sameWord
    exact ⟨rfl, further⟩

theorem spellFurther_inj {rest more : List (String × Option Direction)}
    (same : spellFurther rest = spellFurther more) : rest = more := by
  induction rest generalizing more with
  | nil =>
    cases more with
    | nil => rfl
    | cons => exact nomatch same
  | cons next rest step =>
    cases more with
    | nil => exact nomatch same
    | cons nextToo more =>
      obtain ⟨rfl, tails⟩ := spellSort_append_inj (List.cons.inj same).2
      rw [step tails]

/-- **Columns with their directions are read in one way.** -/
theorem spellList_spellSort_inj {row other : List (String × Option Direction)}
    (same : spellList spellSort row = spellList spellSort other) : row = other := by
  cases row with
  | nil =>
    cases other with
    | nil => rfl
    | cons => exact nomatch same
  | cons first rest =>
    cases other with
    | nil => exact nomatch same
    | cons firstToo more =>
      obtain ⟨rfl, tails⟩ := spellSort_append_inj same
      rw [spellFurther_inj tails]

/-- The direction of the last column is the last thing that is read. -/
theorem exists_spellList_concat (front : List (String × Option Direction)) (text : String)
    (direction : Direction) : ∃ before, spellList spellSort (front ++ [(text, some direction)]) =
      before ++ [.keyword direction.keyword] := by
  cases front with
  | nil => exact ⟨[.literal text], rfl⟩
  | cons first rest =>
    refine ⟨spellSort first ++ spellFurther rest ++ [.keyword .comma, .literal text], ?_⟩
    show spellSort first ++ spellFurther (rest ++ [(text, some direction)]) = _
    rw [spellFurther, List.flatMap_append, ← spellFurther, ← List.append_assoc, List.append_assoc]
    simp [spellSort]

namespace Draft

variable {draft : Draft} {scopes : List Slot} {outlines : Slot → Outline}

/-- The nodes of the ordering in the innermost scope. -/
def sorting (draft : Draft) : List Slot := draft.ordering?.elim [] draft.store.children

/-- **The innermost scope sorts by some columns**, with these directions. -/
structure SortsBy (draft : Draft) (columns : List (String × Option Direction)) : Prop where
  reads : draft.sorting.map draft.store.payload = spellList spellSort columns
  /-- There is an ordering just where there are columns. -/
  isNone : draft.ordering? = none ↔ columns = []

theorem SortsBy.unique {columns other : List (String × Option Direction)}
    (first : draft.SortsBy columns) (second : draft.SortsBy other) : other = columns :=
  spellList_spellSort_inj (second.reads.symm.trans first.reads)

/-- A direction that is said again changes nothing. -/
theorem SortsBy.direct_eq_self {columns : List (String × Option Direction)} {direction : Direction}
    (sorts : draft.SortsBy columns) (plain : draft.inGroup = false)
    (directed : ∀ last ∈ columns.getLast?, last.2 = some direction) :
    draft.direct direction = draft := by
  rcases List.eq_nil_or_concat' columns with rfl | ⟨front, ⟨text, direction?⟩, rfl⟩
  · have missing := sorts.isNone.mpr rfl
    simp [direct, missing]
  · obtain rfl : direction? = some direction := directed _ List.getLast?_concat
    obtain ⟨clause, found⟩ := Option.ne_none_iff_exists'.mp
      (mt sorts.isNone.mp (List.append_ne_nil_of_right_ne_nil front (List.cons_ne_nil _ _)))
    obtain ⟨before, spelled⟩ := exists_spellList_concat front text direction
    have row : draft.sorting = draft.store.children clause := by
      rw [sorting, found]
      rfl
    have reads := sorts.reads
    rw [spelled, row] at reads
    obtain ⟨nodes, ends, split, -, single⟩ := List.map_eq_append_iff.mp reads
    obtain ⟨last, rfl, mark⟩ := List.map_eq_singleton_iff.mp single
    have isLast : draft.store.lastChild? clause = some last := by
      rw [Store.lastChild?, split, List.getLast?_concat]
    have directs : draft.store.Directs clause last :=
      ⟨isLast, mark ▸ Store.any_isDirection direction⟩
    have same : draft.store.setDirection clause direction = draft.store := by
      rw [directs.setDirection_eq, Store.setPayload_eq_self mark]
    rw [direct_of_found plain found]
    exact congrArg (fun store => { draft with store }) same

/-- **An ordering got longer, or was started**, and nothing else changed. -/
structure SortsMore (draft other : Draft) (added : List Slot) : Prop where
  sorting : other.sorting = draft.sorting ++ added
  new : ∀ slot ∈ added, ¬ draft.store.InUse slot
  inUse : ∀ slot, draft.store.InUse slot → other.store.InUse slot
  payload : ∀ slot, draft.store.InUse slot → other.store.payload slot = draft.store.payload slot
  children : ∀ slot, draft.store.InUse slot → slot ≠ draft.scope.root →
    draft.ordering? ≠ some slot → other.store.children slot = draft.store.children slot
  /-- Of all clauses only the ordering may be a new one. -/
  clauses : ∃ clause, other.ordering? = some clause ∧
    (other.store.children draft.scope.root).erase clause =
      (draft.store.children draft.scope.root).erase clause
  /-- The scopes remember what they did. -/
  scopes : other = { draft with store := other.store }

/-! ### What is sorted by -/

namespace Sketched

variable (sketched : draft.Sketched scopes outlines) (plain : draft.inGroup = false)

theorem map_head_listed_sortTrees (columns : List (String × Option Direction)) :
    (listed sortTrees columns).map Tree.head = spellList spellSort columns := by
  have each (column : String × Option Direction) :
      (sortTrees column).map Tree.head = spellSort column := by
    obtain ⟨text, direction?⟩ := column
    cases direction? <;> rfl
  cases columns with
  | nil => rfl
  | cons first rest =>
    rw [listed, spellList, List.map_append, each, List.map_flatMap]
    refine congrArg _ (List.flatMap_congr fun column _ => ?_)
    rw [List.map_cons, each]
    rfl

include sketched plain

/-- **The columns of an ordering are those of the outline.** -/
theorem sortsBy :
    draft.SortsBy ((outlines draft.scope.root).ordering.elim [] Clause.part) := by
  have found := sketched.ordering?_eq plain
  cases said : (outlines draft.scope.root).ordering with
  | none =>
    rw [said, Option.map_none] at found
    refine ⟨?_, iff_of_true found rfl⟩
    rw [sorting, found]
    rfl
  | some clause =>
    rw [said, Option.map_some] at found
    obtain ⟨-, -, framed⟩ := sketched.framedAt plain (by decide) (row_ordering said)
    refine ⟨?_, iff_of_false (by simp [found]) (sketched.heldScope.ordered clause said)⟩
    rw [sorting, found]
    exact (framed.inside.map_payload sketched.drawn.blank).trans (map_head_listed_sortTrees _)

/-- Columns that are sorted downwards are the last ones of the ordering. -/
theorem orderDown {columns : List String} (asked : columns ≠ []) :
    (draft.orderDown columns).Sketched scopes (Function.update outlines draft.scope.root
      ((outlines draft.scope.root).sorted (draft.store.clauseSlot draft.scope.root .orderBy)
        ((outlines draft.scope.root).ordering.elim [] Clause.part ++ downwards columns))) := by
  have frames : (draft.orderBy columns).frames = draft.frames := draft.frames_listColumns _ _
  have directed := (sketched.orderBy plain asked).direct ((inGroup_eq frames).trans plain) .desc
  rw [scope_root_eq frames, Function.update_idem, Function.update_self] at directed
  have row := Outline.directLast_append .desc
    ((outlines draft.scope.root).ordering.elim [] Clause.part)
    (mt List.map_eq_nil_iff.mp asked : columns.map (fun text => (text, none)) ≠ [])
  rw [downwards, ← row]
  exact directed

/-- Columns are sorted downwards below one clause, which is there or is put into its place. -/
theorem orderDown_eq {columns : List String} (asked : columns ≠ []) :
    draft.orderDown columns = draft.alter fun store =>
      ((store.ensureClause draft.scope.root .orderBy).pushColumns
        (draft.store.clauseSlot draft.scope.root .orderBy) columns).setDirection
          (draft.store.clauseSlot draft.scope.root .orderBy) .desc := by
  have frames : (draft.orderBy columns).frames = draft.frames := draft.frames_listColumns _ _
  have plainToo := (inGroup_eq frames).trans plain
  have found : (draft.orderBy columns).ordering? =
      some (draft.store.clauseSlot draft.scope.root .orderBy) := by
    rw [(sketched.orderBy plain asked).ordering?_eq plainToo, scope_root_eq frames,
      Function.update_self]
    rfl
  rw [Draft.orderDown, direct_of_found plainToo found]
  simp [Draft.orderBy, listColumns, asked, plain]

/-- **Columns that are sorted downwards make an ordering longer**, or start one. -/
theorem sortsMore {columns : List String} (asked : columns ≠ []) :
    ∃ added, draft.SortsMore (draft.orderDown columns) added := by
  have frames : (draft.orderDown columns).frames = draft.frames :=
    (frames_direct _ _).trans (draft.frames_listColumns _ _)
  have found : (draft.orderDown columns).ordering? =
      some (draft.store.clauseSlot draft.scope.root .orderBy) := by
    rw [(sketched.orderDown plain asked).ordering?_eq ((inGroup_eq frames).trans plain),
      scope_root_eq frames, Function.update_self]
    rfl
  have ensured := Store.ensures_clause sketched.drawn.forest
    (sketched.drawn.inUse _ sketched.isScope) .orderBy
  obtain ⟨added, lengthens⟩ :=
    Store.exists_lengthens ensured.forest ensured.inUse_clause asked .desc
  have down := sketched.orderDown_eq plain asked
  have store := congrArg Draft.store down
  rw [store_alter] at store
  rw [← store] at lengthens
  refine ⟨added, ?_, fun slot member inUse => lengthens.new slot member (ensured.inUse slot inUse),
    fun slot inUse => lengthens.inUse slot (ensured.inUse slot inUse), fun slot inUse => ?_,
    fun slot inUse notRoot elsewhere => ?_, ⟨_, found, ?_⟩, ?_⟩
  · rw [sorting, found]
    exact lengthens.row.trans (congrArg (· ++ added) ensured.row)
  · rw [lengthens.payload slot (ensured.inUse slot inUse), ensured.payload slot inUse]
  · have apart : slot ≠ draft.store.clauseSlot draft.scope.root .orderBy := by
      rintro rfl
      unfold Store.clauseSlot at inUse elsewhere
      cases known : draft.store.clause? draft.scope.root .orderBy with
      | none =>
        rw [known] at inUse
        exact draft.store.fresh_not_inUse inUse
      | some clause =>
        rw [known] at elsewhere
        exact elsewhere known
    rw [lengthens.children slot (ensured.inUse slot inUse) apart,
      ensured.children slot inUse notRoot]
  · rw [lengthens.children _ (ensured.inUse _ (sketched.drawn.inUse _ sketched.isScope))
      ensured.ne_root.symm, ensured.clauses]
  · rw [down]
    rfl

/-- **No columns turn the column that was last.** -/
theorem orderDown_nil :
    (draft.orderDown []).SortsBy (Outline.directLast .desc
        ((outlines draft.scope.root).ordering.elim [] Clause.part)) ∧
      (draft.orderDown [] = draft ↔
        ∀ last ∈ ((outlines draft.scope.root).ordering.elim [] Clause.part).getLast?,
          last.2 = some .desc) := by
  have nothing : draft.orderDown [] = draft.direct .desc := rfl
  have before := sketched.sortsBy plain
  have frames := draft.frames_direct .desc
  have after := (sketched.direct plain .desc).sortsBy ((inGroup_eq frames).trans plain)
  rw [scope_root_eq frames, Function.update_self] at after
  have row : ((outlines draft.scope.root).directed .desc).ordering.elim [] Clause.part =
      Outline.directLast .desc
        ((outlines draft.scope.root).ordering.elim [] Clause.part) := by
    unfold Outline.directed
    cases said : (outlines draft.scope.root).ordering with
    | none =>
      rw [said]
      rfl
    | some clause => rfl
  rw [row, ← nothing] at after
  refine ⟨after, ?_, ?_⟩
  · intro same last isLast
    rw [same] at after
    have turned := before.unique after
    obtain ⟨front, split⟩ := List.getLast?_eq_some_iff.mp isLast
    rw [split, Outline.directLast, List.getLast?_concat, List.dropLast_concat] at turned
    have column := List.head_eq_of_cons_eq (List.append_cancel_left turned)
    exact (congrArg Prod.snd column).symm
  · intro turned
    exact before.direct_eq_self plain turned

end Sketched

end Draft

namespace Story

/-- **Sorting downwards only adds, unless there is nothing to add.** After any moves, in a scope that
is no group, columns that are sorted downwards are put behind those that the scope sorts by already,
in their order and with `DESC` behind the last of them. The columns from before keep their directions,
and nothing else changes. An empty list adds nothing, and it is passed over by the other calls that
add columns; but here it turns the column that was last before, which changes the draft just where
that column is not sorted downwards already. -/
theorem sorting_down_adds (settings : Settings) (moves : List Move)
    (statement : (after settings moves).draft.inGroup = false) :
    ∃ before, (after settings moves).draft.SortsBy before ∧
      (∀ other, (after settings moves).draft.SortsBy other → other = before) ∧
      (∀ columns, columns ≠ [] →
        ((after settings moves).draft.orderDown columns).SortsBy (before ++ downwards columns) ∧
        ∃ added, (after settings moves).draft.SortsMore
          ((after settings moves).draft.orderDown columns) added) ∧
      ((after settings moves).draft.orderDown []).SortsBy (Outline.directLast .desc before) ∧
      ((after settings moves).draft.orderDown [] = (after settings moves).draft ↔
        ∀ last ∈ before.getLast?, last.2 = some .desc) ∧
      (after settings moves).draft.select [] = (after settings moves).draft ∧
      (after settings moves).draft.groupBy [] = (after settings moves).draft ∧
      (after settings moves).draft.orderBy [] = (after settings moves).draft := by
  obtain ⟨scopes, outlines, kept⟩ := kept_after settings moves
  have sketched := kept.sketched
  have before := sketched.sortsBy statement
  obtain ⟨turned, same⟩ := sketched.orderDown_nil statement
  refine ⟨_, before, fun other => before.unique, fun columns asked => ⟨?_, ?_⟩, turned, same, ?_⟩
  · have frames : ((after settings moves).draft.orderDown columns).frames =
        (after settings moves).draft.frames := Draft.frames_apply _ (.orderDown columns)
    have longer := (sketched.orderDown statement asked).sortsBy
      ((Draft.inGroup_eq frames).trans statement)
    rwa [Draft.scope_root_eq frames, Function.update_self] at longer
  · exact sketched.sortsMore statement asked
  · exact ⟨by simp [Draft.select], by simp [Draft.groupBy, Draft.listColumns],
      by simp [Draft.orderBy, Draft.listColumns]⟩

/-- A statement that sorts by a column, for which no direction was said. -/
def sortedOnce : List Move := [.edit (.table "users"), .edit (.orderBy ["name"])]

/-- Two more columns, the last of them downwards. -/
theorem sorting_down_adds_two :
    (after .standard sortedOnce).draft.inGroup = false ∧
      ((after .standard sortedOnce).draft.orderDown ["age", "id"]).SortsBy
        [("name", none), ("age", none), ("id", some .desc)] := by
  have statement : (after .standard sortedOnce).draft.inGroup = false := by decide
  obtain ⟨before, sorts, unique, adds, -⟩ := sorting_down_adds .standard sortedOnce statement
  have once : (after .standard sortedOnce).draft.SortsBy [("name", none)] := ⟨by decide, by decide⟩
  obtain rfl := unique _ once
  exact ⟨statement, (adds ["age", "id"] (by decide)).1⟩

/-- **No columns turn the last one.** What was sorted by without a direction is sorted downwards. -/
theorem sorting_down_turns_the_last_column :
    (after .standard sortedOnce).draft.inGroup = false ∧
      (after .standard sortedOnce).draft.orderBy [] = (after .standard sortedOnce).draft ∧
      (after .standard sortedOnce).draft.SortsBy [("name", none)] ∧
      ((after .standard sortedOnce).draft.orderDown []).SortsBy [("name", some .desc)] ∧
      (after .standard sortedOnce).draft.orderDown [] ≠ (after .standard sortedOnce).draft :=
  ⟨by decide, by decide, ⟨by decide, by decide⟩, ⟨by decide, by decide⟩, by decide⟩

end Story

end SqlDraft
