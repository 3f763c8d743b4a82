/-
**Edits stay within their scope.**

What an edit adds, changes and releases hangs below the root of the innermost scope, and the scopes
around it remember what they did:

* `Store.tended_addChild`, `Store.tended_addClause` and the like: what is added below a root.
* `Draft.Tends`: a draft goes on in its innermost scope.
* `Drawing.tends_apply`: so does every edit.
-/

import SqlDraft.Proofs.Run.Handles
import SqlDraft.Proofs.Sheet.Edits
import SqlDraft.Proofs.Store.Within

namespace SqlDraft

namespace Store

/-! ### What is found below a root -/

theorem mem_of_scanClause? {store : Store} {keyword : Keyword} {rank : Nat} {row : List Slot}
    {slot : Slot} (found : store.scanClause? keyword rank row = some slot) : slot ∈ row := by
  induction row with
  | nil => cases found
  | cons child rest step =>
    unfold scanClause? at found
    split at found
    · exact Option.some.inj found ▸ List.mem_cons_self
    · split at found
      · cases found
      · exact List.mem_cons_of_mem child (step found)

/-- A clause that is found is a child. -/
theorem mem_of_clause? {store : Store} {parent : Slot} {keyword : Keyword} {slot : Slot}
    (found : store.clause? parent keyword = some slot) : slot ∈ store.children parent := by
  obtain ⟨rank, -, scanned⟩ := Option.bind_eq_some_iff.mp found
  exact mem_of_scanClause? scanned

/-! ### What is added below a root -/

section Adding

variable {store : Store} {root parent : Slot} (forest : store.Forest) (inUse : store.InUse root)
  (reaches : store.Reaches root parent)

include forest inUse reaches

theorem tended_addChild (content : Payload) : store.Tended (store.addChild parent content) root :=
  (grown_addChild forest (forest.inUse_of_reaches reaches inUse) content).tended forest inUse reaches

theorem reaches_addChild (content : Payload) :
    (store.addChild parent content).Reaches root store.fresh :=
  (grown_addChild forest (forest.inUse_of_reaches reaches inUse) content).reaches_fresh forest inUse
    reaches

theorem tended_addFirst (content : Payload) :
    store.Tended ((store.allocate content).linkFirst parent store.fresh) root :=
  (grown_addFirst forest (forest.inUse_of_reaches reaches inUse) content).tended forest inUse reaches

theorem tended_setPayload (content : Payload) : store.Tended (store.setPayload parent content) root :=
  (forest.retagged (forest.inUse_of_reaches reaches inUse) content).tended forest inUse reaches

theorem tended_setCount (count : UInt64) : store.Tended (store.setCount parent count) root := by
  unfold setCount
  cases first : store.firstChild? parent with
  | none => exact tended_addChild forest inUse reaches _
  | some leaf =>
    exact tended_setPayload forest inUse
      (reaches.trans (reaches_child (forest.mem_of_firstChild? first))) _

theorem tended_setOffset (count : UInt64) : store.Tended (store.setOffset parent count) root := by
  unfold setOffset
  cases found : store.childWith? parent .offset with
  | some slot =>
    exact tended_setCount forest inUse
      (reaches.trans (reaches_child (List.mem_of_find?_eq_some found))) count
  | none =>
    have added := tended_addChild forest inUse reaches (.keyword .offset)
    exact added.trans (tended_setCount added.forest added.inUse_root
      (reaches_addChild forest inUse reaches _) count)

theorem tended_setLimit (count : UInt64) : store.Tended (store.setLimit parent count) root := by
  have marked := tended_setPayload forest inUse reaches (.keyword .limit)
  have reachesStill := marked.reaches parent reaches
  unfold setLimit
  dsimp only
  split
  · next leaf found =>
    have first := (Option.filter_eq_some_iff.mp found).1
    exact marked.trans (tended_setPayload marked.forest marked.inUse_root
      (reachesStill.trans (reaches_child (marked.forest.mem_of_firstChild? first))) _)
  · exact marked.trans (tended_addFirst marked.forest marked.inUse_root reachesStill _)

theorem tended_pushColumn (column : String) :
    store.Tended (store.pushColumn parent column) root := by
  unfold pushColumn
  split
  · have comma := tended_addChild forest inUse reaches (.keyword .comma)
    exact comma.trans (tended_addChild comma.forest comma.inUse_root
      (comma.reaches parent reaches) _)
  · exact tended_addChild forest inUse reaches _

theorem tended_pushColumns (columns : List String) :
    store.Tended (store.pushColumns parent columns) root := by
  unfold pushColumns
  induction columns generalizing store with
  | nil => exact .refl forest inUse
  | cons column rest step =>
    have pushed := tended_pushColumn forest inUse reaches column
    exact pushed.trans (step pushed.forest pushed.inUse_root (pushed.reaches parent reaches))

theorem tended_placeCondition (logic : Connective) :
    store.Tended (store.placeCondition parent logic) root ∧
      (store.placeCondition parent logic).Reaches root (store.conditionSlot parent logic) := by
  have marked : store.Tended (store.pushMark parent logic) root :=
    tended_addChild forest inUse reaches _
  have reachesMark : (store.pushMark parent logic).Reaches root store.fresh :=
    reaches_addChild forest inUse reaches _
  unfold placeCondition conditionSlot
  dsimp only
  split
  · exact ⟨marked.trans (tended_addChild marked.forest marked.inUse_root reachesMark _),
      reaches_addChild marked.forest marked.inUse_root reachesMark _⟩
  · exact ⟨marked, reachesMark⟩

/-- A star is dropped from a projection, which still stands. -/
theorem within_dropStar :
    store.Within (store.dropStar parent) root ∧ (store.dropStar parent).Reaches root parent := by
  have same : store.Within store root ∧ store.Reaches root parent :=
    ⟨.refl forest inUse, reaches⟩
  unfold dropStar
  split
  · next star first =>
    split
    · have member := forest.mem_of_firstChild? first
      obtain ⟨before, after, split⟩ := List.append_of_mem member
      have trimmed := forest.trimmed_eraseChild split
      have whole : ∀ child ∈ store.children parent, child ∉ before ++ after →
          store.Reaches star child := by
        intro child inRow dropped
        rw [split, List.mem_append, List.mem_cons] at inRow
        rw [List.mem_append] at dropped
        have isStar : child = star := by tauto
        exact isStar ▸ Relation.ReflTransGen.refl
      have closed : ∀ above child, store.Reaches star above → child ∈ store.children above →
          store.Reaches star child := fun above child gone inRow =>
        gone.trans (reaches_child inRow)
      have kept : ¬ store.Reaches star parent :=
        forest.not_reaches_of_below (Relation.TransGen.single member)
      exact ⟨trimmed.within whole closed forest inUse reaches,
        (trimmed.reaches_iff whole closed kept).mpr reaches⟩
    · exact same
  · exact same

/-- The columns of a command are dropped, and the command still stands. -/
theorem within_eraseChildren :
    store.Within (store.eraseChildren parent) root ∧
      ∀ slot, ¬ store.Below parent slot → store.Reaches root slot →
        (store.eraseChildren parent).Reaches root slot := by
  have trimmed := forest.trimmed_eraseChildren (forest.inUse_of_reaches reaches inUse)
  have whole : ∀ child ∈ store.children parent, child ∉ [] → store.Below parent child :=
    fun child inRow _ => Relation.TransGen.single inRow
  have closed : ∀ above child, store.Below parent above → child ∈ store.children above →
      store.Below parent child := fun above child gone inRow => Relation.TransGen.tail gone inRow
  exact ⟨trimmed.within whole closed forest inUse reaches, fun slot kept inside =>
    (trimmed.reaches_iff whole closed kept).mpr inside⟩

end Adding

section Clauses

variable {store : Store} {root : Slot} (forest : store.Forest) (inUse : store.InUse root)

include forest inUse

theorem tended_addClause (keyword : Keyword) : store.Tended (store.addClause root keyword) root :=
  (grown_addClause forest inUse keyword).tended forest inUse Relation.ReflTransGen.refl

theorem reaches_addClause (keyword : Keyword) :
    (store.addClause root keyword).Reaches root store.fresh :=
  (grown_addClause forest inUse keyword).reaches_fresh forest inUse Relation.ReflTransGen.refl

theorem tended_ensureClause (keyword : Keyword) :
    store.Tended (store.ensureClause root keyword) root ∧
      (store.ensureClause root keyword).Reaches root (store.clauseSlot root keyword) := by
  unfold ensureClause clauseSlot
  cases found : store.clause? root keyword with
  | none => exact ⟨tended_addClause forest inUse keyword, reaches_addClause forest inUse keyword⟩
  | some slot => exact ⟨.refl forest inUse, reaches_child (mem_of_clause? found)⟩

/-- A name is put behind a node below a root. -/
theorem tended_named {target clause : Slot} (reaches : store.Reaches root clause)
    (member : target ∈ store.children clause) (label content : Payload) :
    store.Tended (((store.allocate label).addChild store.fresh content).linkAfter target store.fresh)
      root := by
  obtain ⟨front, after, split⟩ := List.append_of_mem member
  obtain ⟨between, labelled, filled⟩ := named forest split label content
  have tended := labelled.tended forest inUse reaches
  exact tended.trans (filled.tended tended.forest tended.inUse_root
    (labelled.reaches_fresh forest inUse reaches))

end Clauses

end Store

namespace Draft

/-! ### Drafts that go on in their innermost scope -/

/-- **A draft goes on in its innermost scope.** All that changes in the tree hangs below the root of
that scope, and the scopes around it remember what they did. -/
structure Tends (before after : Draft) : Prop where
  frame : after.scope.frame = before.scope.frame
  around : after.around = before.around
  within : before.store.Within after.store before.scope.root

theorem around_adjust (draft : Draft) (change : Scope → Scope) :
    (draft.adjust change).around = draft.around := by
  unfold adjust around
  cases draft.nested <;> rfl

namespace Tends

variable {before between after : Draft}

theorem root_eq (tends : before.Tends after) : after.scope.root = before.scope.root :=
  congrArg Prod.fst tends.frame

theorem refl {draft : Draft} (forest : draft.store.Forest)
    (inUse : draft.store.InUse draft.scope.root) : draft.Tends draft :=
  ⟨rfl, rfl, .refl forest inUse⟩

theorem trans (first : before.Tends between) (second : between.Tends after) :
    before.Tends after where
  frame := second.frame.trans first.frame
  around := second.around.trans first.around
  within := first.within.trans (first.root_eq ▸ second.within)

/-- The tree changes below the root. -/
theorem alter (tends : before.Tends after) {grow : Store → Store}
    (within : after.store.Within (grow after.store) before.scope.root) :
    before.Tends (after.alter grow) :=
  ⟨tends.frame, tends.around, tends.within.trans within⟩

/-- The innermost scope remembers something else. -/
theorem adjust (tends : before.Tends after) {change : Scope → Scope}
    (frame : ∀ scope, (change scope).frame = scope.frame) : before.Tends (after.adjust change) where
  frame := by rw [scope_adjust, frame, tends.frame]
  around := by rw [around_adjust, tends.around]
  within := by rw [store_adjust]; exact tends.within

end Tends

/-! ### Edits -/

section Edits

variable {draft : Draft} (forest : draft.store.Forest)
  (sound : draft.scope.Sound draft.store)

include forest sound

/-- A clause is added to the innermost scope, which may remember it. -/
theorem tends_addClause (keyword : Keyword) (change : Scope → Scope)
    (frame : ∀ scope, (change scope).frame = scope.frame) :
    draft.Tends ((draft.alter (·.addClause draft.scope.root keyword)).adjust change) ∧
      ((draft.alter (·.addClause draft.scope.root keyword)).adjust change).store.Reaches
        draft.scope.root draft.store.fresh := by
  have tended := Store.tended_addClause forest sound.root keyword
  refine ⟨Tends.adjust (Tends.alter (.refl forest sound.root) tended.toWithin) frame, ?_⟩
  rw [store_adjust]
  exact Store.reaches_addClause forest sound.root keyword

theorem tends_addCommand (keyword : Keyword) : draft.Tends (draft.addCommand keyword) ∧
    (draft.addCommand keyword).store.Reaches draft.scope.root draft.store.fresh :=
  tends_addClause forest sound keyword
    (fun scope => { scope with command := some draft.store.fresh }) fun _ => rfl

/-- The command of a scope with one hangs below its root. -/
theorem tends_withCommand : draft.Tends draft.withCommand ∧
    ∀ clause, draft.withCommand.scope.command = some clause →
      draft.withCommand.store.Reaches draft.scope.root clause := by
  unfold withCommand
  split
  · exact ⟨.refl forest sound.root, fun clause remembered =>
      Store.reaches_child (sound.command clause remembered).2.1⟩
  · obtain ⟨tends, reaches⟩ := tends_addCommand forest sound .select
    refine ⟨tends, fun clause remembered => ?_⟩
    rw [addCommand, scope_adjust] at remembered
    exact Option.some.inj remembered ▸ reaches

theorem tends_select (columns : List String) : draft.Tends (draft.select columns) := by
  obtain ⟨commanded, reaches⟩ := tends_withCommand forest sound
  unfold select
  split
  · exact .refl forest sound.root
  · dsimp only
    split
    · exact commanded
    · next clause remembered =>
      have within := commanded.within
      obtain ⟨dropped, reachesStill⟩ := Store.within_dropStar within.forest within.inUse_root
        (reaches clause remembered)
      have pushed := Store.tended_pushColumns dropped.forest dropped.inUse_root reachesStill columns
      exact (commanded.alter (dropped.trans pushed.toWithin)).adjust fun _ => rfl

theorem tends_distinct : draft.Tends draft.distinct := by
  unfold distinct
  split
  · exact .refl forest sound.root
  · cases command : draft.scope.command with
    | none =>
      obtain ⟨commanded, reaches⟩ := tends_addCommand forest sound .selectDistinct
      exact commanded.alter (Store.tended_addChild commanded.within.forest
        commanded.within.inUse_root reaches _).toWithin
    | some clause =>
      dsimp only
      split
      · exact (Tends.refl forest sound.root).alter (Store.tended_setPayload forest sound.root
          (Store.reaches_child (sound.command clause command).2.1) _).toWithin
      · exact .refl forest sound.root

theorem tends_addTable : draft.Tends draft.addTable ∧
    draft.addTable.store.Reaches draft.scope.root draft.store.fresh :=
  tends_addClause forest sound draft.tableKeyword
    (fun scope => { scope with table := some draft.store.fresh }) fun _ => rfl

theorem tends_table (name : String) : draft.Tends (draft.table name) := by
  obtain ⟨added, reaches⟩ := tends_addTable forest sound
  unfold table
  split
  · exact (added.alter (Store.tended_addChild added.within.forest added.within.inUse_root reaches
      _).toWithin).adjust fun _ => rfl
  · exact .refl forest sound.root

theorem tends_startJoin (kind : JoinKind) : draft.Tends (draft.startJoin kind) ∧
    (draft.startJoin kind).store.Reaches draft.scope.root draft.store.fresh :=
  tends_addClause forest sound kind.keyword (fun scope =>
    { scope with
      join := if kind = .cross then none else some draft.store.fresh
      target := none }) fun _ => rfl

theorem tends_join (kind : JoinKind) (table : String) : draft.Tends (draft.join kind table) := by
  obtain ⟨added, reaches⟩ := tends_startJoin forest sound kind
  unfold join
  split
  · exact .refl forest sound.root
  · exact (added.alter (Store.tended_addChild added.within.forest added.within.inUse_root reaches
      _).toWithin).adjust fun _ => rfl

omit forest in
/-- The clause that a name goes into hangs below the root. -/
theorem exists_target_clause {target : Slot} (remembered : draft.scope.target = some target) :
    ∃ clause, draft.store.Reaches draft.scope.root clause ∧
      target ∈ draft.store.children clause := by
  obtain ⟨-, clause, member, holder⟩ := sound.target target remembered
  refine ⟨clause, ?_, member⟩
  rcases holder with command | table | join
  · exact Store.reaches_child (sound.command clause command).2.1
  · exact Store.reaches_child (sound.table clause table).2.1
  · exact Store.reaches_child join.2.1

theorem tends_giveName (name : String) : draft.Tends (draft.giveName name) := by
  have same := Tends.refl forest sound.root
  unfold giveName
  cases remembered : draft.scope.target with
  | none => exact same
  | some target =>
    obtain ⟨clause, reaches, member⟩ := exists_target_clause sound remembered
    dsimp only
    split
    · next label found =>
      -- A name that is there stands behind the target in the same row.
      have next := (Option.filter_eq_some_iff.mp found).1
      obtain ⟨front, back, split⟩ := List.append_of_mem member
      rw [forest.next_eq_head? split] at next
      have labelled : label ∈ draft.store.children clause := by
        rw [split]
        exact List.mem_append_right _ (List.mem_cons_of_mem target (List.mem_of_head? next))
      have reachesLabel := reaches.trans (Store.reaches_child labelled)
      split
      · next leaf first =>
        exact same.alter (Store.tended_setPayload forest sound.root (reachesLabel.trans
          (Store.reaches_child (forest.mem_of_firstChild? first))) _).toWithin
      · exact same.alter (Store.tended_addChild forest sound.root reachesLabel _).toWithin
    · exact same.alter (Store.tended_named forest sound.root reaches member _ _).toWithin

/-- A command that is replaced keeps its place, and the table too. -/
theorem tends_replaceCommand (removal : Removal) {clause : Slot}
    (remembered : draft.scope.command = some clause) :
    draft.Tends (draft.replaceCommand removal clause) ∧
      ∀ slot ∈ draft.store.children draft.scope.root,
        (draft.replaceCommand removal clause).store.Reaches draft.scope.root slot := by
  have member := (sound.command clause remembered).2.1
  have keeps : ∀ slot ∈ draft.store.children draft.scope.root, ¬ draft.store.Below clause slot :=
    fun slot inRow hangs => forest.not_reaches_of_below (Relation.TransGen.single member)
      (forest.parent_of_below hangs inRow)
  obtain ⟨erased, kept⟩ := Store.within_eraseChildren forest sound.root (Store.reaches_child member)
  have tagged := Store.tended_setPayload erased.forest erased.inUse_root
    (kept clause (keeps clause member) (Store.reaches_child member)) (.keyword removal.keyword)
  have replaced : draft.Tends (draft.alter fun store =>
      (store.eraseChildren clause).setPayload clause (.keyword removal.keyword)) :=
    Tends.alter (.refl forest sound.root) (erased.trans tagged.toWithin)
  constructor
  · unfold replaceCommand
    exact replaced.adjust fun _ => rfl
  · intro slot inRow
    rw [replaceCommand, store_adjust]
    exact tagged.reaches slot (kept slot (keeps slot inRow) (Store.reaches_child inRow))

theorem tends_remove (removal : Removal) : draft.Tends (draft.remove removal) := by
  unfold remove
  split
  · exact .refl forest sound.root
  · cases command : draft.scope.command with
    | some clause =>
      obtain ⟨commanded, reaches⟩ := tends_replaceCommand forest sound removal command
      dsimp only
      split
      · next table remembered =>
        rw [replaceCommand, scope_adjust] at remembered
        exact commanded.alter (Store.tended_setPayload commanded.within.forest
          commanded.within.inUse_root (reaches table (sound.table table remembered).2.1) _).toWithin
      · exact commanded
    | none =>
      obtain ⟨commanded, -⟩ := tends_addCommand forest sound removal.keyword
      dsimp only
      split
      · next table remembered =>
        have tended := Store.tended_addClause forest sound.root removal.keyword
        rw [addCommand, scope_adjust] at remembered
        refine commanded.alter (Store.tended_setPayload commanded.within.forest
          commanded.within.inUse_root ?_ _).toWithin
        rw [addCommand, store_adjust]
        exact tended.reaches table (Store.reaches_child (sound.table table remembered).2.1)
      · exact commanded

/-- The place of the conditions of a clause hangs below the root. -/
theorem tends_withConditions {clause : FilterClause} {place : Slot}
    (known : draft.conditionPlace? clause = some place) :
    draft.Tends (draft.withConditions clause) ∧
      (draft.withConditions clause).store.Reaches draft.scope.root place := by
  have same := Tends.refl forest sound.root
  unfold conditionPlace? at known
  unfold withConditions
  by_cases group : draft.inGroup = true
  · rw [if_pos group] at known ⊢
    exact ⟨same, Option.some.inj known ▸ Relation.ReflTransGen.refl⟩
  · rw [if_neg group] at known ⊢
    cases clause with
    | whereClause | having =>
      obtain ⟨tended, reaches⟩ := Store.tended_ensureClause forest sound.root _
      exact ⟨same.alter tended.toWithin, Option.some.inj known ▸ reaches⟩
    | joinOn =>
      obtain ⟨join, remembered, rfl⟩ := Option.map_eq_some_iff.mp known
      have reaches := Store.reaches_child (sound.join join remembered).1.2.1
      simp only [remembered]
      cases found : draft.store.childWith? join .joinOn with
      | none =>
        rw [if_neg (by simp)]
        exact ⟨Tends.alter same (Store.tended_addChild forest sound.root reaches _).toWithin,
          Store.reaches_addChild forest sound.root reaches _⟩
      | some slot =>
        rw [if_pos (by rfl)]
        exact ⟨same, reaches.trans (Store.reaches_child (List.mem_of_find?_eq_some found))⟩

theorem tends_restrict (clause : FilterClause) (logic : Connective) (condition : Condition) :
    draft.Tends (draft.restrict clause logic condition) := by
  unfold restrict
  cases known : draft.conditionPlace? clause with
  | none => exact .refl forest sound.root
  | some place =>
    obtain ⟨ready, reaches⟩ := tends_withConditions forest sound known
    have within := ready.within
    obtain ⟨placed, reachesSlot⟩ := Store.tended_placeCondition within.forest within.inUse_root
      reaches logic
    exact ready.alter (placed.trans (Store.tended_addChild placed.forest placed.inUse_root
      reachesSlot _)).toWithin

end Edits

section Lists

variable {draft : Draft} (forest : draft.store.Forest)
  (inUse : draft.store.InUse draft.scope.root)

include forest inUse

theorem tends_listColumns (keyword : Keyword) (columns : List String) :
    draft.Tends (draft.listColumns keyword columns) := by
  unfold listColumns
  split
  · exact .refl forest inUse
  · obtain ⟨ensured, reaches⟩ := Store.tended_ensureClause forest inUse keyword
    exact (Tends.refl forest inUse).alter (ensured.trans (Store.tended_pushColumns ensured.forest
      ensured.inUse_root reaches columns)).toWithin

theorem tends_direct (direction : Direction) : draft.Tends (draft.direct direction) := by
  have same := Tends.refl forest inUse
  unfold direct
  split
  · exact same
  · cases found : draft.ordering? with
    | none => exact same
    | some clause =>
      have reaches := Store.reaches_child (Store.mem_of_clause? found)
      have added : draft.Tends (draft.alter (·.addChild clause (.keyword direction.keyword))) :=
        Tends.alter same (Store.tended_addChild forest inUse reaches _).toWithin
      dsimp only
      split
      · exact added
      · next last final =>
        have inRow : last ∈ draft.store.children clause := List.mem_of_getLast? final
        split
        · exact same.alter (Store.tended_setPayload forest inUse
            (reaches.trans (Store.reaches_child inRow)) _).toWithin
        · exact added

/-- The limit clause hangs below the root. -/
theorem tends_withLimitClause : draft.Tends draft.withLimitClause ∧
    draft.withLimitClause.store.Reaches draft.scope.root draft.limitClause := by
  unfold withLimitClause limitClause
  cases found : draft.limitClause? with
  | none =>
    rw [if_neg (by simp)]
    exact ⟨Tends.alter (.refl forest inUse) (Store.tended_addClause forest inUse _).toWithin,
      Store.reaches_addClause forest inUse _⟩
  | some clause =>
    rw [if_pos (by rfl)]
    refine ⟨.refl forest inUse, Store.reaches_child ?_⟩
    rcases Option.or_eq_some_iff.mp found with limited | ⟨-, unlimited⟩
    · exact Store.mem_of_clause? limited
    · exact Store.mem_of_clause? unlimited

theorem tends_limit (count : UInt64) : draft.Tends (draft.limit count) := by
  unfold limit
  split
  · exact .refl forest inUse
  · obtain ⟨ready, reaches⟩ := tends_withLimitClause forest inUse
    exact ready.alter (Store.tended_setLimit ready.within.forest ready.within.inUse_root reaches
      count).toWithin

theorem tends_offset (count : UInt64) : draft.Tends (draft.offset count) := by
  unfold offset
  split
  · exact .refl forest inUse
  · obtain ⟨ready, reaches⟩ := tends_withLimitClause forest inUse
    exact ready.alter (Store.tended_setOffset ready.within.forest ready.within.inUse_root reaches
      count).toWithin

end Lists

end Draft

namespace Drawing

variable (drawing : Drawing)

theorem forest : drawing.draft.store.Forest := drawing.sketched.drawn.forest

theorem sound : drawing.draft.scope.Sound drawing.draft.store :=
  drawing.sketched.sound.remembers _ (Draft.Sketched.scope_mem_opens _)

/-- **An edit goes on in the innermost scope.** -/
theorem tends_apply (change : Edit) : drawing.draft.Tends (drawing.draft.apply change) := by
  have forest := drawing.forest
  have sound := drawing.sound
  have inUse := sound.root
  cases change with
  | select columns => exact Draft.tends_select forest sound columns
  | distinct => exact Draft.tends_distinct forest sound
  | table name => exact Draft.tends_table forest sound name
  | remove removal => exact Draft.tends_remove forest sound removal
  | giveName name => exact Draft.tends_giveName forest sound name
  | join kind table => exact Draft.tends_join forest sound kind table
  | joinOn kind table condition =>
    show drawing.draft.Tends (drawing.draft.joinOn kind table condition)
    unfold Draft.joinOn
    split
    · exact .refl forest inUse
    · obtain ⟨joined, draft, -⟩ := drawing.join kind table
      refine (Draft.tends_join forest sound kind table).trans ?_
      rw [← draft]
      exact Draft.tends_restrict joined.forest joined.sound .joinOn .and condition
  | restrict clause logic condition => exact Draft.tends_restrict forest sound clause logic condition
  | groupBy columns => exact Draft.tends_listColumns forest inUse .groupBy columns
  | orderBy columns => exact Draft.tends_listColumns forest inUse .orderBy columns
  | orderDown columns =>
    have ordered := Draft.tends_listColumns forest inUse .orderBy columns
    exact ordered.trans (Draft.tends_direct ordered.within.forest
      (ordered.root_eq ▸ ordered.within.inUse_root) .desc)
  | direct direction => exact Draft.tends_direct forest inUse direction
  | limit count => exact Draft.tends_limit forest inUse count
  | offset count => exact Draft.tends_offset forest inUse count
  | showPage perPage page =>
    have limited := Draft.tends_limit forest inUse perPage
    exact limited.trans (Draft.tends_offset limited.within.forest
      (limited.root_eq ▸ limited.within.inUse_root) (Paging.skipped perPage page))

end Drawing

end SqlDraft
