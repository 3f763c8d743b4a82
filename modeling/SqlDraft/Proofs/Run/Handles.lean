/-
**The slots that open scopes remember.**

Slots are released and handed out again, and open scopes remember slots across calls. What a scope
remembers is always what it meant when it was remembered:

* `Scope.Sound`: what a scope remembers are its own clauses, and what stands in them.
* `Draft.GetsAt`: the slots that are remembered or linked to between calls.
* `Draft.Sound`: the open scopes hang below each other, and all slots that are remembered or linked
  to are in use.
* `Story.draft_is_sound`: every draft is sound, wherever it stands between two calls.
-/

import SqlDraft.Proofs.Run.Kept

namespace SqlDraft

/-! ### What is remembered -/

/-- A slot in use holds a clause of this rank directly below a node. -/
def Store.HasClause (store : Store) (root : Slot) (rank : Nat) (slot : Slot) : Prop :=
  store.InUse slot ∧ slot ∈ store.children root ∧ (store.payload slot).rank? = some rank

/-- **What a scope remembers is there.** -/
structure Scope.Sound (store : Store) (scope : Scope) : Prop where
  root : store.InUse scope.root
  command : ∀ slot ∈ scope.command, store.HasClause scope.root 0 slot
  table : ∀ slot ∈ scope.table, store.HasClause scope.root 1 slot
  join : ∀ slot ∈ scope.join, store.HasClause scope.root 2 slot ∧
    store.payload slot ≠ .keyword .crossJoin
  /-- A name goes to something in the command, in the table or in a join. -/
  target : ∀ slot ∈ scope.target, store.InUse slot ∧ ∃ clause, slot ∈ store.children clause ∧
    (scope.command = some clause ∨ scope.table = some clause ∨ store.HasClause scope.root 2 clause)
  group : scope.kind = .group →
    scope.command = none ∧ scope.table = none ∧ scope.target = none ∧ scope.join = none

namespace Draft

/-- **The slots that are remembered or linked to between calls.** An open scope remembers a slot, or
links lead to it from such a slot. -/
inductive GetsAt (draft : Draft) : Slot → Prop
  | remembered {scope : Scope} {slot : Slot} (isOpen : scope ∈ draft.opens)
      (remembers : slot = scope.root ∨ slot ∈ scope.command ∨ slot ∈ scope.table ∨
        slot ∈ scope.target ∨ slot ∈ scope.join) : GetsAt draft slot
  | linked {slot next : Slot} (gets : GetsAt draft slot)
      (leads : (draft.store.node slot).next = some next ∨
        (draft.store.node slot).child = some next) : GetsAt draft next

/-- **The open scopes of a draft are in order.** -/
structure Sound (draft : Draft) : Prop where
  /-- The statement is the outermost open scope, and no other scope is one. Its node is the node of
  the draft by definition, as a draft keeps the two as one (`Draft.root`). -/
  outermost : draft.opens.getLast? = some draft.base ∧ draft.base.root = draft.root
  statement : draft.base.kind = .statement ∧ ∀ scope ∈ draft.nested, scope.kind ≠ .statement
  /-- Every other open scope hangs below the one around it. -/
  inside : draft.opens.IsChain fun inner outer =>
    draft.store.InUse inner.root ∧ inner.root ≠ outer.root ∧ draft.store.Below outer.root inner.root
  remembers : ∀ scope ∈ draft.opens, scope.Sound draft.store
  /-- A slot that is remembered or linked to was handed out and not given back since. -/
  inUse : ∀ slot, draft.GetsAt slot → draft.store.InUse slot

end Draft

/-! ### Where it stands -/

namespace Store.Drawn

variable {store : Store} {base root : Slot} {scopes : List Slot} {rows : Slot → List Tree}

/-- The clauses of an outline are clauses in the store. -/
theorem hasClause (drawn : store.Drawn base scopes rows) (isScope : root ∈ scopes)
    {outline : Outline} (row : rows root = outline.trees) (plain : outline.kind ≠ .group)
    {rank : Nat} (inside : rank < 9) {slot : Slot} {content : Payload} {below : List Tree}
    (member : .node (some slot) content below ∈ outline.row rank) :
    store.HasClause root rank slot ∧ store.payload slot = content := by
  obtain ⟨before, after, split⟩ := List.append_of_mem (Outline.mem_trees plain inside member)
  obtain ⟨child, -, framed⟩ := drawn.framedAt isScope (row.trans split)
  obtain ⟨at_, word, inner, same, ranked⟩ := Outline.rank?_of_mem_row member
  obtain ⟨-, sameContent, -⟩ := Tree.node.inj same
  refine ⟨⟨framed.inUse, child, ?_⟩, framed.payload_eq⟩
  rw [framed.payload_eq, sameContent]
  exact ranked

/-- The links of a slot in use lead to slots in use. -/
theorem inUse_of_link (drawn : store.Drawn base scopes rows) {slot next : Slot}
    (inUse : store.InUse slot)
    (leads : (store.node slot).next = some next ∨ (store.node slot).child = some next) :
    store.InUse next := by
  have forest := drawn.forest
  rcases leads with behind | down
  · obtain ⟨top, isTop, reaches⟩ := forest.grounded slot inUse
    rcases Relation.ReflTransGen.cases_tail reaches with same | ⟨parent, -, member⟩
    · rw [same, (drawn.isTop_iff top).mp isTop, drawn.loose] at behind
      exact nomatch behind
    · obtain ⟨front, back, split⟩ := List.append_of_mem member
      rw [forest.next_eq_head? split] at behind
      refine forest.inUse_child parent next ?_
      rw [split]
      exact List.mem_append_right _ (List.mem_cons_of_mem _ (List.mem_of_mem_head? behind))
  · refine forest.inUse_child slot next (List.mem_of_mem_head? ?_)
    rw [← forest.firstChild?_eq_head?]
    exact down

end Store.Drawn

namespace Scope.Held

variable {store : Store} {base : Slot} {scopes : List Slot} {rows : Slot → List Tree}
  {scope : Scope} {outline : Outline}

/-- A group remembers nothing. -/
theorem eq_none_of_group (held : scope.Held outline) (group : outline.kind = .group) :
    scope.command = none ∧ scope.table = none ∧ scope.target = none ∧ scope.join = none := by
  obtain ⟨noCommand, noTable, noJoins⟩ := held.bare group
  refine ⟨?_, ?_, ?_, ?_⟩
  · rw [held.command, noCommand, Option.map_none]
  · rw [held.table, noTable, Option.map_none]
  · rw [held.target]
    cases outline.target with
    | none => rfl
    | some target => exact held.place?_eq_none group target
  · rw [held.join, noJoins]
    exact ite_self none

theorem hasCommand (held : scope.Held outline) (drawn : store.Drawn base scopes rows)
    (isScope : scope.root ∈ scopes) (row : rows scope.root = outline.trees)
    (plain : outline.kind ≠ .group) {slot : Slot} (remembered : scope.command = some slot) :
    store.HasClause scope.root 0 slot := by
  rw [held.command] at remembered
  obtain ⟨clause, said, rfl⟩ := Option.map_eq_some_iff.mp remembered
  have member : clause.tree clause.part.keyword clause.part.trees ∈ outline.row 0 := by
    show _ ∈ outline.command.toList.map _
    rw [said]
    exact List.mem_singleton_self _
  exact (drawn.hasClause isScope row plain (by decide) member).1

theorem hasTable (held : scope.Held outline) (drawn : store.Drawn base scopes rows)
    (isScope : scope.root ∈ scopes) (row : rows scope.root = outline.trees)
    (plain : outline.kind ≠ .group) {slot : Slot} (remembered : scope.table = some slot) :
    store.HasClause scope.root 1 slot := by
  rw [held.table] at remembered
  obtain ⟨clause, said, rfl⟩ := Option.map_eq_some_iff.mp remembered
  have member : clause.tree outline.tableKeyword clause.part.trees ∈ outline.row 1 := by
    show _ ∈ outline.table.toList.map _
    rw [said]
    exact List.mem_singleton_self _
  exact (drawn.hasClause isScope row plain (by decide) member).1

theorem hasJoin (held : scope.Held outline) (drawn : store.Drawn base scopes rows)
    (isScope : scope.root ∈ scopes) (row : rows scope.root = outline.trees)
    (plain : outline.kind ≠ .group) {slot : Slot} (remembered : scope.join = some slot) :
    store.HasClause scope.root 2 slot ∧ store.payload slot ≠ .keyword .crossJoin := by
  rw [held.join] at remembered
  cases joining : outline.joining with
  | false =>
    rw [joining, if_neg (by simp)] at remembered
    exact nomatch remembered
  | true =>
    obtain ⟨clause, last, uncrossed⟩ := held.crossing joining
    rw [joining, if_pos rfl, Option.mem_def.mp last] at remembered
    obtain rfl : clause.slot = slot := Option.some.inj remembered
    have member : clause.tree clause.part.kind.keyword clause.part.trees ∈ outline.row 2 :=
      List.mem_map_of_mem (List.mem_of_getLast? last)
    obtain ⟨stands, payload⟩ := drawn.hasClause isScope row plain (by decide) member
    refine ⟨stands, fun crossed => uncrossed ?_⟩
    rw [payload] at crossed
    revert crossed
    cases clause.part.kind <;> decide

theorem hasTarget (held : scope.Held outline) (drawn : store.Drawn base scopes rows)
    (isScope : scope.root ∈ scopes) (row : rows scope.root = outline.trees)
    (plain : outline.kind ≠ .group) {slot : Slot} (remembered : scope.target = some slot) :
    store.InUse slot ∧ ∃ clause, slot ∈ store.children clause ∧ (scope.command = some clause ∨
      scope.table = some clause ∨ store.HasClause scope.root 2 clause) := by
  rw [held.target] at remembered
  obtain ⟨target, -, place⟩ := Option.bind_eq_some_iff.mp remembered
  have clauses := row.trans (Outline.trees_eq_clauses held.opened plain)
  obtain ⟨clause, holder, member, ranked, below⟩ := drawn.placed isScope clauses place
  refine ⟨drawn.forest.inUse_child clause slot below, clause, below, ?_⟩
  cases target with
  | column => exact Or.inl (held.command.trans holder)
  | table => exact Or.inr (Or.inl (held.table.trans holder))
  | join => exact Or.inr (Or.inr ⟨drawn.forest.inUse_child _ clause member, member, ranked⟩)

/-- **What a scope remembers is where its outline is drawn.** -/
theorem sound (held : scope.Held outline) (drawn : store.Drawn base scopes rows)
    (isScope : scope.root ∈ scopes) (row : rows scope.root = outline.trees) : scope.Sound store := by
  have root := drawn.inUse scope.root isScope
  by_cases group : outline.kind = .group
  · have nothing := held.eq_none_of_group group
    obtain ⟨noCommand, noTable, noTarget, noJoin⟩ := held.eq_none_of_group group
    refine ⟨root, ?_, ?_, ?_, ?_, fun _ => nothing⟩
    · rw [noCommand]
      exact fun slot remembered => nomatch remembered
    · rw [noTable]
      exact fun slot remembered => nomatch remembered
    · rw [noJoin]
      exact fun slot remembered => nomatch remembered
    · rw [noTarget]
      exact fun slot remembered => nomatch remembered
  · exact ⟨root, fun slot => held.hasCommand drawn isScope row group,
      fun slot => held.hasTable drawn isScope row group,
      fun slot => held.hasJoin drawn isScope row group,
      fun slot => held.hasTarget drawn isScope row group,
      fun isGroup => absurd (held.kind.trans isGroup) group⟩

end Scope.Held

/-- Every slot that a sound scope remembers is in use. -/
theorem Scope.Sound.inUse {store : Store} {scope : Scope} (sound : scope.Sound store) {slot : Slot}
    (remembers : slot = scope.root ∨ slot ∈ scope.command ∨ slot ∈ scope.table ∨
      slot ∈ scope.target ∨ slot ∈ scope.join) : store.InUse slot := by
  rcases remembers with rfl | command | table | target | join
  · exact sound.root
  · exact (sound.command slot command).1
  · exact (sound.table slot table).1
  · exact (sound.target slot target).1
  · exact (sound.join slot join).1.1

namespace Draft.Sketched

variable {draft : Draft} {scopes : List Slot} {outlines : Slot → Outline}

/-- A scope that stands in the outline of another one hangs below it. -/
theorem below_of_inside (sketched : draft.Sketched scopes outlines) {inner outer : Scope}
    (isOpen : outer ∈ draft.opens) (inside : inner.Inside outlines outer) :
    draft.store.Below outer.root inner.root := by
  have shows := sketched.drawn.shows outer.root (sketched.known outer isOpen)
  rcases shows.mem_scopes inside.stands with child | ⟨slot, child, below⟩
  · exact Relation.TransGen.single child
  · exact Relation.TransGen.head child below

/-- **A drawn draft is sound.** -/
theorem sound (sketched : draft.Sketched scopes outlines) : draft.Sound := by
  have drawn := sketched.drawn
  have remembers : ∀ scope ∈ draft.opens, scope.Sound draft.store := fun scope isOpen =>
    (sketched.held scope isOpen).sound drawn (sketched.known scope isOpen) rfl
  have below : draft.opens.IsChain fun inner outer => draft.store.InUse inner.root ∧
      inner.root ≠ outer.root ∧ draft.store.Below outer.root inner.root := by
    refine sketched.inside.imp_of_mem_imp fun inner outer _ isOpen inside => ?_
    have hangs := sketched.below_of_inside isOpen inside
    refine ⟨drawn.forest.inUse_of_below hangs, fun same => ?_, hangs⟩
    rw [same] at hangs
    exact drawn.forest.not_below_self outer.root hangs
  refine ⟨⟨List.getLast?_concat, rfl⟩, ⟨sketched.statement, fun scope member => ?_⟩, below,
    remembers, fun slot gets => ?_⟩
  · obtain ⟨front, back, split⟩ := List.append_of_mem member
    have chain := sketched.inside
    unfold Draft.opens at chain
    rw [split, List.append_assoc, List.cons_append] at chain
    have further := chain.right_of_append
    cases back with
    | nil => exact (List.isChain_cons_cons.mp further).1.kind
    | cons next more => exact (List.isChain_cons_cons.mp further).1.kind
  · induction gets with
    | remembered isOpen remembered => exact (remembers _ isOpen).inUse remembered
    | linked _ leads step => exact drawn.inUse_of_link step leads

end Draft.Sketched

namespace Story

/-- **After any moves the open scopes are in order**: what they remember is there, and every slot that
is remembered or linked to is in use. Each draft between two calls comes from some moves, also where a
scope is being filled (`exists_of_passes`), so every call starts from such a draft. -/
theorem draft_is_sound (settings : Settings) (moves : List Move) :
    (after settings moves).draft.Sound := by
  obtain ⟨scopes, outlines, kept⟩ := kept_after settings moves
  exact kept.sketched.sound

end Story

end SqlDraft
