/-
**Limit and offset in an outline.**

The limit clause is one page of rows: the limit stands first, the offset behind it, and the clause
is tagged as having no limit exactly when its page has none.

* `Store.Drawn.setLimit`, `Store.Drawn.setOffset`: the numbers of a page.
* `Draft.Sketched.limit`, `Draft.Sketched.offset`: what they change.
-/

import SqlDraft.Proofs.Sketch.Growing

namespace SqlDraft

/-! ### Outlines with pages -/

def Page.limited (count : UInt64) (page : Page) : Page := { page with limit := some count }

def Page.skipping (count : UInt64) (page : Page) : Page := { page with offset := some count }

namespace Outline

variable (outline : Outline)

/-- An outline with this page of rows. -/
def paged (clause : Clause Page) : Outline := { outline with page := some clause }

/-- The limit clause, which says nothing if there was none. -/
def pageClause (fresh : Slot) : Clause Page := outline.page.getD ⟨fresh, {}⟩

theorem row_paged (clause : Clause Page) (found : Nat) (different : found ≠ 8) :
    (outline.paged clause).row found = outline.row found := by
  match found with
  | 8 => exact absurd rfl different
  | 0 | 1 | 2 | 3 | 4 | 5 | 6 | 7 | _ + 9 => rfl

end Outline

/-! ### Pages in a store -/

namespace Store

variable {store : Store} {scopes : List Slot} {rows : Slot → List Tree} {base root slot : Slot}
  {before after : List Tree} {page : Page}

/-- **The limit of a page is set or replaced.** -/
theorem Drawn.setLimit (drawn : store.Drawn base scopes rows) (isScope : root ∈ scopes)
    (row : rows root = before ++ .node (some slot) (.keyword page.keyword) page.trees :: after)
    (count : UInt64) :
    (store.setLimit slot count).Drawn base scopes (Function.update rows root
      (before ++ .node (some slot) (.keyword .limit) (page.limited count).trees :: after)) := by
  obtain ⟨-, plain, framed⟩ := drawn.framedAt isScope row
  have marked := drawn.retag isScope framed plain
    (drawn.forest.retagged framed.inUse (.keyword .limit))
  obtain ⟨-, -, framedMarked⟩ := marked.framedAt isScope (Function.update_self _ _ _)
  have forest := marked.forest
  obtain ⟨limit, offset⟩ := page
  unfold Store.setLimit
  simp only [forest.firstChild?_eq_head?]
  cases limit with
  | none =>
    have placed : ((store.setPayload slot (.keyword .limit)).children slot).head?.filter
        (fun first => !((store.setPayload slot (.keyword .limit)).node first).payload.isKeyword
          .offset) = none := by
      cases offset with
      | none =>
        have nothing := List.length_eq_zero_iff.mp framedMarked.inside.length_eq
        rw [nothing]
        rfl
      | some skipped =>
        obtain ⟨child, shown, -, leaf⟩ := framedMarked.only forest
        have tag : ((store.setPayload slot (.keyword .limit)).node child).payload =
            .keyword .offset := leaf.payload_eq
        rw [shown, List.head?_cons, Option.filter_some, tag]
        rfl
    rw [placed]
    have grown := grown_addFirst forest framedMarked.inUse (countPayload count)
    rw [← List.nil_append (Page.trees _)] at framedMarked
    have counted := marked.grow isScope framedMarked grown rfl none (by simp)
    rw [Function.update_idem] at counted
    exact counted
  | some old =>
    have split : Page.trees ⟨some old, offset⟩ = [] ++ .node none (countPayload old) [] ::
        Page.trees ⟨none, offset⟩ := rfl
    rw [split] at framedMarked
    obtain ⟨front, child, back, shown, length, -, -, plainChild, leaf⟩ := framedMarked.child forest
    obtain rfl := List.length_eq_zero_iff.mp length
    have number : ((store.setPayload slot (.keyword .limit)).node child).payload =
        countPayload old := leaf.payload_eq
    have placed : ((store.setPayload slot (.keyword .limit)).children slot).head?.filter
        (fun first => !((store.setPayload slot (.keyword .limit)).node first).payload.isKeyword
          .offset) = some child := by
      rw [shown, List.nil_append, List.head?_cons, Option.filter_some, number]
      rfl
    rw [placed]
    have counted := marked.retag isScope leaf plainChild
      (forest.retagged leaf.inUse (countPayload count))
    rw [Function.update_idem] at counted
    exact counted

/-- A number below a node is set or replaced. -/
theorem Framed.setCount {payload : Payload} {context : Payload → List Tree → List Tree}
    {old : Option UInt64}
    (framed : store.Framed scopes root slot payload
      (old.toList.map fun count => .leaf (countPayload count)) context)
    (drawn : store.Drawn base scopes rows) (isScope : root ∈ scopes) (count : UInt64) :
    (store.setCount slot count).Drawn base scopes
      (Function.update rows root (context payload [.leaf (countPayload count)])) := by
  unfold Store.setCount
  rw [drawn.forest.firstChild?_eq_head?]
  cases old with
  | none =>
    have nothing := List.length_eq_zero_iff.mp framed.inside.length_eq
    rw [nothing]
    exact (framed.addChild drawn isScope (countPayload count) none (by simp)).1
  | some before =>
    obtain ⟨child, shown, plain, leaf⟩ := framed.only drawn.forest
    have counted := drawn.retag isScope leaf plain
      (drawn.forest.retagged leaf.inUse (countPayload count))
    rw [shown]
    exact counted

/-- **The offset of a page is set or replaced.** -/
theorem Drawn.setOffset (drawn : store.Drawn base scopes rows) (isScope : root ∈ scopes)
    (row : rows root = before ++ .node (some slot) (.keyword page.keyword) page.trees :: after)
    (count : UInt64) :
    (store.setOffset slot count).Drawn base scopes (Function.update rows root
      (before ++ .node (some slot) (.keyword page.keyword) (page.skipping count).trees ::
        after)) := by
  obtain ⟨-, -, framed⟩ := drawn.framedAt isScope row
  obtain ⟨limit, offset⟩ := page
  have numbers : ∀ tree ∈ limit.toList.map fun count => Tree.leaf (countPayload count),
      tree.head ≠ .keyword .offset := by
    intro tree member
    obtain ⟨number, -, rfl⟩ := List.mem_map.mp member
    exact fun same => nomatch same
  unfold Store.setOffset
  cases offset with
  | none =>
    have trees : Page.trees ⟨limit, none⟩ =
        limit.toList.map fun count => Tree.leaf (countPayload count) := List.append_nil _
    rw [trees] at framed
    rw [framed.childWith?_eq_none drawn numbers]
    obtain ⟨added, deeper⟩ := framed.newChild drawn isScope (.keyword .offset) none (by simp)
    have counted := @Framed.setCount _ _ _ _ _ _ _ _ none deeper added isScope count
    rw [Function.update_idem] at counted
    exact counted
  | some old =>
    obtain ⟨child, found, -, -, deeper⟩ :=
      Framed.childWith?_eq_some (show store.Framed scopes root slot _ (_ ++ _ :: []) _ from framed)
        drawn numbers
    rw [found]
    exact @Framed.setCount _ _ _ _ _ _ _ _ (some old) deeper drawn isScope count

end Store

/-! ### Pages in a draft -/

namespace Draft.Sketched

variable {draft : Draft} {scopes : List Slot} {outlines : Slot → Outline}

/-- The limit clause that is found is the one of the outline. -/
theorem limitClause?_eq (sketched : draft.Sketched scopes outlines) (plain : draft.inGroup = false) :
    draft.limitClause? = (outlines draft.scope.root).page.map Clause.slot := by
  have shows := (sketched.drawn.framed sketched.isScope).inside
  rw [sketched.rows_eq plain] at shows
  have row : (outlines draft.scope.root).row 8 = (outlines draft.scope.root).page.toList.map
    fun clause => clause.tree clause.part.keyword clause.part.trees := rfl
  have limits : Keyword.limit.rank? = some 8 := rfl
  have noLimits : Keyword.noLimit.rank? = some 8 := rfl
  unfold Draft.limitClause?
  cases said : (outlines draft.scope.root).page with
  | none =>
    rw [said] at row
    rw [Outline.clause?_of_row_nil limits (by decide) shows row,
      Outline.clause?_of_row_nil noLimits (by decide) shows row]
    rfl
  | some clause =>
    rw [said] at row
    rw [Outline.clause?_of_row limits (by decide) shows row,
      Outline.clause?_of_row noLimits (by decide) shows row]
    unfold Page.keyword
    cases clause.part.limit <;> rfl

/-- The innermost scope gets a limit clause. -/
theorem withLimitClause (sketched : draft.Sketched scopes outlines) (plain : draft.inGroup = false) :
    ∃ grow, draft.withLimitClause = draft.alter grow ∧
      draft.limitClause = ((outlines draft.scope.root).pageClause draft.store.fresh).slot ∧
      (grow draft.store).Drawn draft.root scopes (Function.update
        (fun root => (outlines root).trees) draft.scope.root
          (((outlines draft.scope.root).before 8 ++ []) ++
            ((outlines draft.scope.root).pageClause draft.store.fresh).tree
              ((outlines draft.scope.root).pageClause draft.store.fresh).part.keyword
              ((outlines draft.scope.root).pageClause draft.store.fresh).part.trees ::
                ([] ++ (outlines draft.scope.root).behind 8))) := by
  have row : (outlines draft.scope.root).row 8 = (outlines draft.scope.root).page.toList.map
    fun clause => clause.tree clause.part.keyword clause.part.trees := rfl
  have found := sketched.limitClause?_eq plain
  unfold Draft.withLimitClause Draft.limitClause Outline.pageClause
  rw [found]
  cases said : (outlines draft.scope.root).page with
  | none =>
    rw [said] at row
    have added := sketched.addedClause plain (show Keyword.noLimit.rank? = some 8 from rfl)
      (by decide)
    rw [row] at added
    exact ⟨fun store => store.addClause draft.scope.root .noLimit, rfl, rfl, added⟩
  | some clause =>
    rw [said] at row
    exact ⟨fun store => store, rfl, rfl,
      sketched.shownClause plain (by decide) (show _ = [] ++ _ :: [] from row)⟩

/-- **The limit of a page is set.** -/
theorem limit (sketched : draft.Sketched scopes outlines) (plain : draft.inGroup = false)
    (count : UInt64) : (draft.limit count).Sketched scopes
      (Function.update outlines draft.scope.root ((outlines draft.scope.root).paged
        (((outlines draft.scope.root).pageClause draft.store.fresh).revise
          (Page.limited count)))) := by
  obtain ⟨grow, same, slot, drawn⟩ := sketched.withLimitClause plain
  have limited := drawn.setLimit sketched.isScope (Function.update_self _ _ _) count
  rw [Function.update_idem] at limited
  unfold Draft.limit
  rw [if_neg (by simp [plain]), same, slot, alter_alter, ← adjust_id (draft.alter _)]
  exact sketched.reworked plain (show 8 < 9 by decide) limited rfl (Outline.row_paged _ _) rfl rfl
    rfl { sketched.heldScope with }

/-- **The offset of a page is set.** -/
theorem offset (sketched : draft.Sketched scopes outlines) (plain : draft.inGroup = false)
    (count : UInt64) : (draft.offset count).Sketched scopes
      (Function.update outlines draft.scope.root ((outlines draft.scope.root).paged
        (((outlines draft.scope.root).pageClause draft.store.fresh).revise
          (Page.skipping count)))) := by
  obtain ⟨grow, same, slot, drawn⟩ := sketched.withLimitClause plain
  have skipping := drawn.setOffset sketched.isScope (Function.update_self _ _ _) count
  rw [Function.update_idem] at skipping
  unfold Draft.offset
  rw [if_neg (by simp [plain]), same, slot, alter_alter, ← adjust_id (draft.alter _)]
  exact sketched.reworked plain (show 8 < 9 by decide) skipping rfl (Outline.row_paged _ _) rfl rfl
    rfl { sketched.heldScope with }

end Draft.Sketched

end SqlDraft
