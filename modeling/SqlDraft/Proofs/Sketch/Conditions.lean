/-
**Conditions in an outline.**

A condition lands in one row of conditions: that of a group, of a `WHERE` or `HAVING` clause or of
the last join. All four are handled as one, a node that shows a row of conditions:

* `Outline.seat?`: the row that the conditions of a clause go to.
* `Draft.Sketched.seated`: this row has a place in the tree.
* `Store.Framed.placeCondition`: what stands before one more condition.
* `Draft.Sketched.restrict`: what one more condition changes.
-/

import SqlDraft.Draft.Conditions
import SqlDraft.Proofs.Sketch.Names

namespace SqlDraft

/-! ### Rows of conditions -/

/-- The rows of conditions that a scope has. -/
inductive Seat
  /-- The conditions of a group. -/
  | members
  | filters
  | havings
  /-- The conditions of the last join. -/
  | lastJoin

/-- A join with these conditions. -/
def Join.joinedOn (slot : Slot) (items : List Item) (join : Join) : Join :=
  { join with conditions := some ⟨slot, items⟩ }

namespace Outline

variable (outline : Outline)

/-- The row that the conditions of a clause go to. -/
def seat? : FilterClause → Option Seat
  | .whereClause => some (if outline.kind = .group then .members else .filters)
  | .having => some (if outline.kind = .group then .members else .havings)
  | .joinOn =>
    if outline.kind = .group then some .members
    else if outline.joining then some .lastJoin
    else none

/-- The conditions in a row. -/
def items : Seat → List Item
  | .members => outline.members
  | .filters => outline.filters.elim [] Clause.part
  | .havings => outline.havings.elim [] Clause.part
  | .lastJoin =>
    (outline.joins.getLast?.bind fun clause => clause.part.conditions).elim [] Clause.part

/-- An outline with these conditions in a row, whose place is in this slot. -/
def seated (slot : Slot) (items : List Item) : Seat → Outline
  | .members => { outline with members := items }
  | .filters => { outline with filters := some ⟨slot, items⟩ }
  | .havings => { outline with havings := some ⟨slot, items⟩ }
  | .lastJoin =>
    { outline with joins := outline.joins.modifyLast (Clause.revise (.joinedOn slot items)) }

theorem kind_seated (slot : Slot) (items : List Item) (seat : Seat) :
    (outline.seated slot items seat).kind = outline.kind := by
  cases seat <;> rfl

theorem closed_seated (slot : Slot) (items : List Item) (seat : Seat) :
    (outline.seated slot items seat).closed = outline.closed := by
  cases seat <;> rfl

theorem row_seated_filters (slot : Slot) (items : List Item) (found : Nat) (different : found ≠ 3) :
    (outline.seated slot items .filters).row found = outline.row found := by
  match found with
  | 3 => exact absurd rfl different
  | 0 | 1 | 2 | 4 | 5 | 6 | 7 | 8 | _ + 9 => rfl

theorem row_seated_havings (slot : Slot) (items : List Item) (found : Nat) (different : found ≠ 5) :
    (outline.seated slot items .havings).row found = outline.row found := by
  match found with
  | 5 => exact absurd rfl different
  | 0 | 1 | 2 | 3 | 4 | 6 | 7 | 8 | _ + 9 => rfl

theorem row_seated_lastJoin (slot : Slot) (items : List Item) (found : Nat)
    (different : found ≠ 2) :
    (outline.seated slot items .lastJoin).row found = outline.row found := by
  match found with
  | 2 => exact absurd rfl different
  | 0 | 1 | 3 | 4 | 5 | 6 | 7 | 8 | _ + 9 => rfl

/-- The last join with its conditions stands last among the joins. -/
theorem row_two_seated {front : List (Clause Join)} {clause : Clause Join}
    (said : outline.joins = front ++ [clause]) (slot : Slot) (items : List Item) :
    (outline.seated slot items .lastJoin).row 2 =
      front.map (fun clause => clause.tree clause.part.kind.keyword clause.part.trees) ++
        .node (some clause.slot) (.keyword clause.part.kind.keyword)
          ((clause.part.source.tree :: nameTrees clause.part.name) ++
            .node (some slot) (.keyword .joinOn) (Item.trees items) :: []) :: [] := by
  show (outline.joins.modifyLast _).map _ = _
  rw [said, List.modifyLast_concat, List.map_append]
  rfl

end Outline

namespace Join

/-! ### Joins and their conditions -/

variable {join : Join}

theorem trees_of_none (bare : join.conditions = none) :
    join.trees = join.source.tree :: nameTrees join.name := by
  unfold trees
  rw [bare, Option.toList_none, List.map_nil, List.append_nil]

theorem trees_of_some {clause : Clause (List Item)} (said : join.conditions = some clause) :
    join.trees = (join.source.tree :: nameTrees join.name) ++
      .node (some clause.slot) (.keyword .joinOn) (Item.trees clause.part) :: [] := by
  unfold trees
  rw [said]
  rfl

/-- What stands before the conditions of a join has another tag. -/
theorem head_ne_joinOn (join : Join) :
    ∀ tree ∈ join.source.tree :: nameTrees join.name, tree.head ≠ .keyword .joinOn := by
  intro tree member
  rcases List.mem_cons.mp member with rfl | named
  · cases join.source <;> exact fun same => nomatch same
  · obtain ⟨name, -, rfl⟩ := List.mem_map.mp named
    exact fun same => nomatch same

end Join

/-- A scope remembers its conditions by their place only. -/
theorem Scope.Held.seated {scope : Scope} {outline : Outline} (held : scope.Held outline)
    (slot : Slot) (items : List Item) (seat : Seat) :
    scope.Held (outline.seated slot items seat) := by
  cases seat with
  | members | filters | havings => exact { held with }
  | lastJoin =>
    have last {Mark : Type} (mark : Clause Join → Mark)
        (same : ∀ clause, mark (clause.revise (.joinedOn slot items)) = mark clause) :
        (outline.seated slot items .lastJoin).joins.getLast?.map mark =
          outline.joins.getLast?.map mark := getLast?_modifyLast same outline.joins
    refine held.congr rfl rfl rfl rfl (last _ fun _ => rfl) rfl rfl ?_ rfl
    funext found
    cases found with
    | join => exact last _ fun _ => rfl
    | column | table => rfl

/-! ### What stands before a condition -/

namespace Store

variable {store : Store} {scopes : List Slot} {rows : Slot → List Tree} {base root place : Slot}
  {payload : Payload} {context : Payload → List Tree → List Tree} {items : List Item}

/-- **Room for one more condition.** Its mark depends on whether it comes first, and its negation has
a node of its own unless it does. -/
theorem Framed.placeCondition
    (framed : store.Framed scopes root place payload (Item.trees items) context)
    (drawn : store.Drawn base scopes rows) (isScope : root ∈ scopes) (logic : Connective) :
    ∃ content inner, (∀ row, inner content row = context payload
        (Item.trees items ++ [shell items.isEmpty store.fresh logic row])) ∧
      (store.placeCondition place logic).Drawn base scopes
        (Function.update rows root (inner content [])) ∧
      (store.placeCondition place logic).Framed scopes root (store.conditionSlot place logic) content
        [] inner := by
  have some_ : (store.firstChild? place).isSome = !items.isEmpty := by
    rw [framed.firstChild?_isSome drawn.forest]
    cases items <;> rfl
  obtain ⟨drawnMark, marked⟩ := framed.newChild drawn isScope
    (.keyword (store.conditionMark place logic)) (some store.fresh) (by simp)
  unfold Store.placeCondition Store.conditionSlot Store.negatesBelow Store.pushMark
  unfold Store.conditionMark at drawnMark marked ⊢
  rw [some_] at drawnMark marked ⊢
  unfold shell
  generalize items.isEmpty = first at drawnMark marked ⊢
  generalize logic.negates = negates at drawnMark marked ⊢
  cases first with
  | true =>
    simp only [Bool.not_true, Bool.false_and, Bool.false_eq_true, if_false] at drawnMark marked ⊢
    refine ⟨_, _, fun row => ?_, drawnMark, marked⟩
    cases negates <;> rfl
  | false =>
    simp only [Bool.not_false, Bool.true_and, if_true] at drawnMark marked ⊢
    cases negates with
    | false =>
      simp only [Bool.false_eq_true, if_false]
      exact ⟨_, _, fun row => rfl, drawnMark, marked⟩
    | true =>
      obtain ⟨drawnNot, negated⟩ := marked.newChild drawnMark isScope (.keyword .not) none (by simp)
      rw [Function.update_idem] at drawnNot
      simp only [if_true]
      exact ⟨_, _, fun row => rfl, drawnNot, negated⟩

end Store

/-! ### Conditions in a draft -/

namespace Draft.Sketched

variable {draft : Draft} {scopes : List Slot} {outlines : Slot → Outline}

theorem trees_seated (sketched : draft.Sketched scopes outlines) (plain : draft.inGroup = false)
    {rank : Nat} (inside : rank < 9) {seat : Seat} {slot : Slot} {items : List Item}
    {front back : List Tree} {tree : Tree}
    (same : ∀ found, found ≠ rank → ((outlines draft.scope.root).seated slot items seat).row found =
      (outlines draft.scope.root).row found)
    (row : ((outlines draft.scope.root).seated slot items seat).row rank = front ++ tree :: back) :
    ((outlines draft.scope.root).seated slot items seat).trees =
      ((outlines draft.scope.root).before rank ++ front) ++ tree ::
        (back ++ (outlines draft.scope.root).behind rank) := by
  have opened : ((outlines draft.scope.root).seated slot items seat).closed = false := by
    rw [Outline.closed_seated, sketched.heldScope.opened]
  have ungrouped : ((outlines draft.scope.root).seated slot items seat).kind ≠ .group := by
    rw [Outline.kind_seated]
    exact sketched.kind_ne_group plain
  rw [Outline.trees_eq_clauses opened ungrouped, Outline.clauses_of_row_eq inside same row]

/-- The conditions of a clause have their place below the clause. -/
theorem seatedClause (sketched : draft.Sketched scopes outlines) (plain : draft.inGroup = false)
    {rank : Nat} {word : Keyword} (known : word.rank? = some rank) (inside : rank < 9) {seat : Seat}
    {old : Option (Clause (List Item))}
    (row : (outlines draft.scope.root).row rank =
      old.toList.map fun clause => clause.tree word (Item.trees clause.part))
    (items : (outlines draft.scope.root).items seat = old.elim [] Clause.part)
    (same : ∀ slot items found, found ≠ rank →
      ((outlines draft.scope.root).seated slot items seat).row found =
        (outlines draft.scope.root).row found)
    (shown : ∀ slot items, ((outlines draft.scope.root).seated slot items seat).row rank =
      [] ++ .node (some slot) (.keyword word) (Item.trees items) :: []) :
    ∃ content context,
      (∀ items, context content (Item.trees items) = ((outlines draft.scope.root).seated
        (draft.store.clauseSlot draft.scope.root word) items seat).trees) ∧
      (draft.store.ensureClause draft.scope.root word).Drawn draft.root scopes
        (Function.update (fun root => (outlines root).trees) draft.scope.root
          (context content (Item.trees ((outlines draft.scope.root).items seat)))) ∧
      (draft.store.ensureClause draft.scope.root word).Framed scopes draft.scope.root
        (draft.store.clauseSlot draft.scope.root word) content
        (Item.trees ((outlines draft.scope.root).items seat)) context := by
  have ensured := sketched.ensuredClause plain known inside (show Item.trees [] = [] from rfl) row
  obtain ⟨-, -, framed⟩ := ensured.framedAt sketched.isScope (Function.update_self _ _ _)
  rw [← items] at ensured framed
  refine ⟨_, _, fun items => ?_, ensured, framed⟩
  exact (sketched.trees_seated plain inside (same _ items) (shown _ items)).symm

/-- The conditions of the last join have their place below the join. -/
theorem seatedJoin (sketched : draft.Sketched scopes outlines) (plain : draft.inGroup = false)
    (joining : (outlines draft.scope.root).joining = true) :
    ∃ place grow content context,
      draft.conditionPlace? .joinOn = some place ∧
      draft.withConditions .joinOn = draft.alter grow ∧
      (∀ items, context content (Item.trees items) =
        ((outlines draft.scope.root).seated place items .lastJoin).trees) ∧
      (grow draft.store).Drawn draft.root scopes
        (Function.update (fun root => (outlines root).trees) draft.scope.root
          (context content (Item.trees ((outlines draft.scope.root).items .lastJoin)))) ∧
      (grow draft.store).Framed scopes draft.scope.root place content
        (Item.trees ((outlines draft.scope.root).items .lastJoin)) context := by
  have held := sketched.heldScope
  obtain ⟨clause, final, -⟩ := held.crossing joining
  rw [Option.mem_def] at final
  have join := held.join
  rw [joining, final] at join
  obtain ⟨front, said⟩ := List.getLast?_eq_some_iff.mp final
  have row : (outlines draft.scope.root).row 2 =
      front.map (fun clause => clause.tree clause.part.kind.keyword clause.part.trees) ++
        .node (some clause.slot) (.keyword clause.part.kind.keyword) clause.part.trees :: [] := by
    show (outlines draft.scope.root).joins.map _ = _
    rw [said, List.map_append]
    rfl
  have trees := fun slot items => sketched.trees_seated plain (by decide)
    (Outline.row_seated_lastJoin _ slot items) (Outline.row_two_seated _ said slot items)
  obtain ⟨-, -, framed⟩ := sketched.framedAt plain (by decide) row
  unfold Draft.conditionPlace? Draft.withConditions Outline.items
  rw [plain, join, final]
  cases conditions : clause.part.conditions with
  | none =>
    rw [Join.trees_of_none conditions] at framed
    have absent := framed.childWith?_eq_none sketched.drawn clause.part.head_ne_joinOn
    obtain ⟨added, framedAdded⟩ := framed.newChild sketched.drawn sketched.isScope
      (.keyword .joinOn) (some draft.store.fresh) (by simp)
    have items : ((some clause).bind fun clause => clause.part.conditions).elim [] Clause.part =
        [] := by
      rw [Option.bind_some, conditions, Option.elim_none]
    rw [items]
    refine ⟨draft.store.fresh, fun store => store.addChild clause.slot (.keyword .joinOn), _, _, ?_,
      ?_, fun items => ?_, added, framedAdded⟩
    · simp [absent]
    · simp [absent]
    · exact (trees draft.store.fresh items).symm
  | some old =>
    rw [Join.trees_of_some conditions] at framed
    obtain ⟨child, found, marked, -, deeper⟩ :=
      framed.childWith?_eq_some sketched.drawn clause.part.head_ne_joinOn
    obtain rfl := marked old.slot rfl
    have shown := sketched.shownClause plain (by decide) row
    rw [Join.trees_of_some conditions] at shown
    have items : ((some clause).bind fun clause => clause.part.conditions).elim [] Clause.part =
        old.part := by
      rw [Option.bind_some, conditions, Option.elim_some]
    rw [items]
    refine ⟨old.slot, fun store => store, _, _, ?_, ?_, fun items => ?_, shown, deeper⟩
    · simp [found]
    · simp [found]
      rfl
    · exact (trees old.slot items).symm

/-- **A row of conditions of the innermost scope has a place in the tree.** -/
theorem seated (sketched : draft.Sketched scopes outlines) {clause : FilterClause} {seat : Seat}
    (goes : (outlines draft.scope.root).seat? clause = some seat) :
    ∃ place grow content context,
      draft.conditionPlace? clause = some place ∧
      draft.withConditions clause = draft.alter grow ∧
      (∀ items, context content (Item.trees items) =
        ((outlines draft.scope.root).seated place items seat).trees) ∧
      (grow draft.store).Drawn draft.root scopes
        (Function.update (fun root => (outlines root).trees) draft.scope.root
          (context content (Item.trees ((outlines draft.scope.root).items seat)))) ∧
      (grow draft.store).Framed scopes draft.scope.root place content
        (Item.trees ((outlines draft.scope.root).items seat)) context := by
  have held := sketched.heldScope
  by_cases group : (outlines draft.scope.root).kind = .group
  · have inGroup : draft.inGroup = true := decide_eq_true (held.kind.symm.trans group)
    obtain rfl : seat = .members := by
      cases clause <;> simpa [Outline.seat?, group, eq_comm] using goes
    have trees := Outline.trees_eq_members held.opened group
    have framed := sketched.drawn.framed sketched.isScope
    have drawn := sketched.drawn
    rw [← Function.update_eq_self draft.scope.root fun root => (outlines root).trees, trees] at drawn
    rw [trees] at framed
    refine ⟨draft.scope.root, fun store => store, _, _, ?_, ?_, fun items => ?_, drawn, framed⟩
    · simp [Draft.conditionPlace?, inGroup]
    · simp [Draft.withConditions, inGroup]
      rfl
    · exact (@Outline.trees_eq_members ((outlines draft.scope.root).seated draft.scope.root items
        .members) held.opened group).symm
  · have plain := sketched.inGroup_eq_false group
    cases clause with
    | whereClause =>
      obtain rfl : .filters = seat := by simpa [Outline.seat?, group] using goes
      obtain ⟨content, context, shown, drawn, framed⟩ := sketched.seatedClause plain
        (show Keyword.whereClause.rank? = some 3 from rfl) (by decide) rfl rfl
        (Outline.row_seated_filters _) fun _ _ => rfl
      refine ⟨_, fun store => store.ensureClause draft.scope.root .whereClause, content, context, ?_,
        ?_, shown, drawn, framed⟩
      · simp [Draft.conditionPlace?, plain]
      · simp [Draft.withConditions, plain]
    | having =>
      obtain rfl : .havings = seat := by simpa [Outline.seat?, group] using goes
      obtain ⟨content, context, shown, drawn, framed⟩ := sketched.seatedClause plain
        (show Keyword.having.rank? = some 5 from rfl) (by decide) rfl rfl
        (Outline.row_seated_havings _) fun _ _ => rfl
      refine ⟨_, fun store => store.ensureClause draft.scope.root .having, content, context, ?_, ?_,
        shown, drawn, framed⟩
      · simp [Draft.conditionPlace?, plain]
      · simp [Draft.withConditions, plain]
    | joinOn =>
      have joins : (outlines draft.scope.root).joining = true ∧ .lastJoin = seat := by
        simpa [Outline.seat?, group] using goes
      obtain ⟨joining, rfl⟩ := joins
      exact sketched.seatedJoin plain joining

/-- A condition without a row is not possible. -/
theorem conditionPlace?_eq_none (sketched : draft.Sketched scopes outlines) {clause : FilterClause}
    (goes : (outlines draft.scope.root).seat? clause = none) :
    draft.conditionPlace? clause = none := by
  have held := sketched.heldScope
  have group : (outlines draft.scope.root).kind ≠ .group := by
    intro group
    cases clause <;> simp [Outline.seat?, group] at goes
  have plain := sketched.inGroup_eq_false group
  cases clause with
  | whereClause | having => simp [Outline.seat?] at goes
  | joinOn =>
    have join := held.join
    have idle : (outlines draft.scope.root).joining = false := by
      simpa [Outline.seat?, group] using goes
    rw [idle, if_neg (by simp)] at join
    simp [Draft.conditionPlace?, plain, join]

/-- There is room for one more condition in a row. -/
theorem placed (sketched : draft.Sketched scopes outlines) {clause : FilterClause} {seat : Seat}
    (goes : (outlines draft.scope.root).seat? clause = some seat) (logic : Connective) :
    ∃ place grow mark payload inner,
      draft.conditionPlace? clause = some place ∧
      draft.withConditions clause = draft.alter grow ∧
      (∀ content : Content, inner payload content.trees = ((outlines draft.scope.root).seated place
        ((outlines draft.scope.root).items seat ++ [⟨mark, logic, content⟩]) seat).trees) ∧
      ((grow draft.store).placeCondition place logic).Drawn draft.root scopes
        (Function.update (fun root => (outlines root).trees) draft.scope.root (inner payload [])) ∧
      ((grow draft.store).placeCondition place logic).Framed scopes draft.scope.root
        ((grow draft.store).conditionSlot place logic) payload [] inner := by
  obtain ⟨place, grow, content, context, found, ready, trees, drawn, framed⟩ :=
    sketched.seated goes
  obtain ⟨payload, inner, shown, drawnPlace, framedPlace⟩ :=
    framed.placeCondition drawn sketched.isScope logic
  rw [Function.update_idem] at drawnPlace
  refine ⟨place, grow, (grow draft.store).fresh, payload, inner, found, ready, fun content => ?_,
    drawnPlace, framedPlace⟩
  rw [shown, ← trees, Item.trees_append]
  rfl

/-- **One more condition.** -/
theorem restrict (sketched : draft.Sketched scopes outlines) {clause : FilterClause} {seat : Seat}
    (goes : (outlines draft.scope.root).seat? clause = some seat) (logic : Connective)
    (condition : Condition) :
    ∃ place mark, (draft.restrict clause logic condition).Sketched scopes
      (Function.update outlines draft.scope.root ((outlines draft.scope.root).seated place
        ((outlines draft.scope.root).items seat ++ [⟨mark, logic, .leaf condition.sql⟩]) seat)) := by
  obtain ⟨place, grow, mark, payload, inner, found, ready, trees, drawn, framed⟩ :=
    sketched.placed goes logic
  have added := (framed.addChild drawn sketched.isScope (.literal condition.sql) none (by simp)).1
  rw [Function.update_idem, List.nil_append] at added
  refine ⟨place, mark, ?_⟩
  unfold Draft.restrict
  simp only [found, ready, store_alter, alter_alter]
  rw [← adjust_id (draft.alter _)]
  refine sketched.edited ?_ rfl rfl rfl (sketched.heldScope.seated _ _ _)
  rw [← trees]
  exact added

end Draft.Sketched

end SqlDraft
