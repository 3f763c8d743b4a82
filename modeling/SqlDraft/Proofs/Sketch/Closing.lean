/-
**Scopes that are closed in an outline.**

A scope that is closed gets the columns it returns, if none were said, and its parentheses, unless it
is a branch of a union. The scope around it goes on: a name goes to the closed scope if that stands
as a table or a join, and to nothing else that was said before.

* `Outline.completed`, `Outline.shut`: what is added to a scope when it is closed.
* `Draft.Sketched.closed_aiming`: what closing a scope changes.
-/

import SqlDraft.Proofs.Sketch.Opening

namespace SqlDraft

/-! ### Outlines of closed scopes -/

namespace Outline

variable (outline : Outline)

/-- An outline with all columns, if it has a table and no command. -/
def completed (slot : Slot) : Outline :=
  if outline.kind ≠ .group ∧ outline.command.isNone ∧ outline.table.isSome then
    outline.acting ⟨slot, .all false⟩ outline.target
  else outline

/-- The outline of a scope that is closed. -/
def shut : Outline := { outline with closed := true }

/-- The outline of a scope after one inside it was closed. -/
def resumed (target : Option Target) (keepsJoin : Bool) : Outline :=
  { outline with target, joining := outline.joining && keepsJoin }

theorem kind_completed (slot : Slot) : (outline.completed slot).kind = outline.kind := by
  unfold completed
  split <;> rfl

theorem closed_completed (slot : Slot) : (outline.completed slot).closed = outline.closed := by
  unfold completed
  split <;> rfl

/-- **A scope that is closed says what it returns.** -/
theorem complete_shut (slot : Slot) : (outline.completed slot).shut.Complete := by
  refine ⟨rfl, ?_⟩
  show (outline.completed slot).kind ≠ .group → (outline.completed slot).table.isSome →
    (outline.completed slot).command.isSome
  unfold completed
  split
  · exact fun _ _ => rfl
  · next lacks =>
    intro plain tabled
    rw [not_and, not_and, Option.isNone_iff_eq_none] at lacks
    by_contra absent
    exact lacks plain (Option.not_isSome_iff_eq_none.mp absent) tabled

theorem trees_resumed (target : Option Target) (keepsJoin : Bool) :
    (outline.resumed target keepsJoin).trees = outline.trees := by
  have inner : (outline.resumed target keepsJoin).inner = outline.inner := by
    unfold inner clauses
    refine congrArg (fun clauses => if outline.kind = .group then _ else clauses) ?_
    refine List.flatMap_congr fun found _ => ?_
    match found with
    | 0 | 1 | 2 | 3 | 4 | 5 | 6 | 7 | 8 | _ + 9 => rfl
  unfold trees
  rw [inner]
  rfl

theorem trees_shut {outline : Outline} (opened : outline.closed = false)
    (parenthesized : outline.kind ≠ .union) : outline.shut.trees =
      .leaf (.keyword .leftParen) :: (outline.trees ++ [.leaf (.keyword .rightParen)]) := by
  rw [trees_of_open opened]
  exact @trees_of_closed outline.shut rfl parenthesized

theorem trees_shut_union {outline : Outline} (opened : outline.closed = false)
    (union : outline.kind = .union) : outline.shut.trees = outline.trees := by
  rw [trees_of_open opened]
  exact @trees_of_union outline.shut union

end Outline

/-- A scope goes on after one inside it was closed. -/
theorem Scope.Held.resumed {scope closed : Scope} {outline : Outline} (held : scope.Held outline)
    {target : Option Target}
    (named : target.bind outline.place? =
      if closed.handback.takesName then some closed.root else none)
    (placed : ∀ found ∈ target, (outline.place? found).isSome) :
    (scope.resume closed).Held (outline.resumed target closed.handback.keepsJoin) := by
  have place : (outline.resumed target closed.handback.keepsJoin).place? = outline.place? := by
    funext found
    cases found <;> rfl
  refine { held with join := ?_, target := ?_, placed := ?_, crossing := ?_ }
  · show (if closed.handback.keepsJoin then scope.join else none) =
      if (outline.joining && closed.handback.keepsJoin) = true then _ else _
    rw [held.join]
    cases closed.handback.keepsJoin <;> cases outline.joining <;> rfl
  · rw [place]
    exact named.symm
  · rw [place]
    exact placed
  · intro joins
    exact held.crossing (Bool.and_eq_true_iff.mp joins).1

theorem Scope.Held.lacksProjection_iff {scope : Scope} {outline : Outline}
    (held : scope.Held outline) : scope.lacksProjection = true ↔
      outline.kind ≠ .group ∧ outline.command.isNone ∧ outline.table.isSome := by
  unfold Scope.lacksProjection
  rw [held.kind, held.command, held.table, Option.isNone_map, Option.isSome_map, Bool.and_eq_true,
    Bool.and_eq_true, decide_eq_true_iff, and_assoc]

namespace Draft.Sketched

variable {draft : Draft} {scopes : List Slot} {outlines : Slot → Outline}

/-! ### What is added to a scope -/

/-- A scope that is closed gets the columns it returns. -/
theorem completed_drawn (sketched : draft.Sketched scopes outlines) :
    (completeProjection draft.store draft.scope).Drawn draft.root scopes (Function.update
      (fun root => (outlines root).trees) draft.scope.root
        ((outlines draft.scope.root).completed draft.store.fresh).trees) := by
  have held := sketched.heldScope
  have lacks := held.lacksProjection_iff
  unfold Draft.completeProjection Outline.completed
  by_cases lacking : draft.scope.lacksProjection = true
  · have complete := lacks.mp lacking
    have ungrouped := complete.1
    have plain := sketched.inGroup_eq_false ungrouped
    have absent := Option.isNone_iff_eq_none.mp complete.2.1
    rw [if_pos lacking, if_pos complete]
    have drawn := sketched.addedFilled plain (show Keyword.select.rank? = some 0 from rfl)
      (by decide) (.keyword .star) none (by simp)
    rw [row_zero_of_none absent] at drawn
    have same : ((outlines draft.scope.root).acting ⟨draft.store.fresh, .all false⟩
        (outlines draft.scope.root).target).tableKeyword =
          (outlines draft.scope.root).tableKeyword := by
      rw [Outline.tableKeyword_acting _ _ rfl, tableKeyword_of_none absent]
    have clauses : ((outlines draft.scope.root).acting ⟨draft.store.fresh, .all false⟩
        (outlines draft.scope.root).target).clauses =
          ((outlines draft.scope.root).before 0 ++ []) ++ .node (some draft.store.fresh)
            (.keyword .select) [.node none (.keyword .star) []] ::
              ([] ++ (outlines draft.scope.root).behind 0) :=
      Outline.clauses_of_row_eq (by decide) (Outline.row_acting _ same) rfl
    have trees : ((outlines draft.scope.root).acting ⟨draft.store.fresh, .all false⟩
        (outlines draft.scope.root).target).trees = _ :=
      Outline.trees_eq_clauses held.opened ungrouped
    rw [trees, clauses]
    exact drawn
  · rw [if_neg lacking, if_neg fun complete => lacking (lacks.mpr complete),
      Function.update_eq_self draft.scope.root fun root => (outlines root).trees]
    exact sketched.drawn

/-- A scope that is closed gets its parentheses. -/
theorem shut_drawn {store : Store} {base : Slot} {rows : Slot → List Tree} {scope : Scope}
    {outline : Outline} (drawn : store.Drawn base scopes rows) (isScope : scope.root ∈ scopes)
    (row : rows scope.root = outline.trees) (opened : outline.closed = false)
    (kind : outline.kind = scope.kind) :
    (parenthesize store scope).Drawn base scopes
      (Function.update rows scope.root outline.shut.trees) := by
  unfold Draft.parenthesize
  by_cases union : scope.kind = .union
  · rw [if_pos union, Outline.trees_shut_union opened (kind.trans union), ← row,
      Function.update_eq_self]
    exact drawn
  · rw [if_neg union, Outline.trees_shut opened fun isUnion => union (kind.symm.trans isUnion)]
    have framed := drawn.framed isScope
    rw [row, ← List.nil_append outline.trees] at framed
    have grown := Store.grown_addFirst drawn.forest framed.inUse (.keyword .leftParen)
    have plain : store.fresh ∉ scopes := fun member =>
      store.fresh_not_inUse (drawn.inUse _ member)
    have left := drawn.grow isScope framed grown rfl none (by simp)
    have framedLeft := framed.grow drawn.forest (Store.sameScopes_refl _ _) grown rfl
      (@Store.Grown.leaf _ _ _ _ _ _ _ grown drawn.forest plain none (by simp))
    have right := (framedLeft.addChild left isScope (.keyword .rightParen) none (by simp)).1
    rw [Function.update_idem] at right
    exact right

/-- The innermost scope is drawn with what it returns and with its parentheses. -/
theorem closed_drawn (sketched : draft.Sketched scopes outlines) :
    (parenthesize (completeProjection draft.store draft.scope) draft.scope).Drawn draft.root scopes
      (Function.update (fun root => (outlines root).trees) draft.scope.root
        ((outlines draft.scope.root).completed draft.store.fresh).shut.trees) := by
  have opened : ((outlines draft.scope.root).completed draft.store.fresh).closed = false := by
    rw [Outline.closed_completed]
    exact sketched.heldScope.opened
  have kind : ((outlines draft.scope.root).completed draft.store.fresh).kind =
      draft.scope.kind := by
    rw [Outline.kind_completed]
    exact sketched.heldScope.kind
  have shut := shut_drawn sketched.completed_drawn sketched.isScope (Function.update_self _ _ _)
    opened kind
  rw [Function.update_idem] at shut
  exact shut

/-- The name that comes next goes to the closed scope if that gave it back, or nowhere. -/
theorem exists_target {inner outer : Scope} (inside : inner.Inside outlines outer) :
    ∃ target : Option Target,
      target.bind (outlines outer.root).place? =
        (if inner.handback.takesName then some inner.root else none) ∧
      ∀ found ∈ target, ((outlines outer.root).place? found).isSome := by
  cases takes : inner.handback.takesName with
  | false => exact ⟨none, rfl, fun found goes => nomatch goes⟩
  | true =>
    obtain ⟨target, place⟩ := inside.named takes
    refine ⟨some target, place, fun found goes => ?_⟩
    obtain rfl : target = found := Option.some.inj goes
    rw [place]
    rfl

/-- A draft is closed by closing its innermost scope and going on with the one around it. -/
theorem exists_resting {closed : Scope} {outer : List Scope} (nested : draft.nested = closed :: outer) :
    ∃ resting : Draft, resting.opens = draft.around ∧
      resting.store = parenthesize (completeProjection draft.store closed) closed ∧
      resting.base = draft.base ∧ draft.close = resting.adjust fun scope => scope.resume closed := by
  have left : draft.around = outer ++ [draft.base] := by
    unfold Draft.around
    rw [nested]
  refine ⟨{ draft with
    store := parenthesize (completeProjection draft.store closed) closed
    nested := outer }, left.symm, rfl, rfl, ?_⟩
  unfold Draft.close
  rw [nested]

/-- **The innermost scope is closed, and the scope around it goes on.** A name then goes to a target
that is the closed scope if that gave it back. -/
theorem closed_aiming (sketched : draft.Sketched scopes outlines) {closed : Scope}
    {outer : List Scope} (nested : draft.nested = closed :: outer) :
    ∃ next further, draft.around = next :: further ∧ next.root ≠ closed.root ∧
      closed.Inside outlines next ∧
      ∀ target : Option Target, target.bind (outlines next.root).place? =
          (if closed.handback.takesName then some closed.root else none) →
        (∀ found ∈ target, ((outlines next.root).place? found).isSome) →
        draft.close.Sketched scopes (Function.update
          (Function.update outlines closed.root
            ((outlines closed.root).completed draft.store.fresh).shut) next.root
          ((outlines next.root).resumed target closed.handback.keepsJoin)) := by
  obtain ⟨resting, around, store, base, closing⟩ := exists_resting nested
  obtain rfl : draft.scope = closed := by
    unfold Draft.scope
    rw [nested]
    rfl
  have stacked := sketched.stacked
  rw [← around, opens_eq] at stacked
  have isNext : resting.scope ∈ draft.opens := by
    rw [opens_eq draft, ← around]
    exact List.mem_cons_of_mem _ (scope_mem_opens resting)
  have apart := stacked.ne_of_around List.mem_cons_self
  refine ⟨resting.scope, resting.around, ?_, apart,
    (List.isChain_cons_cons.mp stacked.inside).1, fun target named placed => ⟨?_, ?_, ?_⟩⟩
  · rw [← around, opens_eq]
  · have resumed := (sketched.held resting.scope isNext).resumed named placed
    rw [closing, opens_adjust]
    exact (stacked.popped (Outline.complete_shut _ _)).revised rfl rfl rfl resumed
  · have root : draft.close.root = draft.root := by
      rw [closing, root_adjust resting rfl]
      exact congrArg Scope.root base
    have kept : Function.update (fun root => (outlines root).trees) draft.scope.root
        ((outlines draft.scope.root).completed draft.store.fresh).shut.trees resting.scope.root =
          (outlines resting.scope.root).trees := Function.update_of_ne apart _ _
    rw [root, closing, store_adjust, store, trees_update, trees_update, Outline.trees_resumed,
      ← kept, Function.update_eq_self]
    exact sketched.closed_drawn
  · rw [closing, base_kind_adjust resting rfl, base]
    exact sketched.statement

/-- The innermost scope is closed, wherever a name then goes. -/
theorem close (sketched : draft.Sketched scopes outlines) {closed : Scope} {outer : List Scope}
    (nested : draft.nested = closed :: outer) :
    ∃ next ∈ draft.opens, next.root ≠ closed.root ∧ ∃ target,
      draft.close.Sketched scopes (Function.update
        (Function.update outlines closed.root
          ((outlines closed.root).completed draft.store.fresh).shut) next.root
        ((outlines next.root).resumed target closed.handback.keepsJoin)) := by
  obtain ⟨next, further, around, apart, inside, aiming⟩ := sketched.closed_aiming nested
  obtain ⟨target, named, placed⟩ := exists_target inside
  refine ⟨next, ?_, apart, target, aiming target named placed⟩
  rw [opens_eq, around]
  exact List.mem_cons_of_mem _ List.mem_cons_self

end Draft.Sketched

end SqlDraft
