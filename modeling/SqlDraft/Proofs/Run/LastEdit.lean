/-
**Edits that take the place of others.**

A limit, an offset, a page, a name, a direction, `DISTINCT` and a removal are each said once, so a
second call that says the same part takes the place of the first one. It does so exactly: the draft is
the one that the second call alone makes, in all its nodes, slots, released slots and scopes.

* `Edit.Replaces`: the pairs of edits that say the same part.
* `Draft.Sketched.limit_limit` and its like: one theorem for each part.
* `Story.last_edit_stays`: after any moves the second of two such edits is all that is left.
-/

import SqlDraft.Proofs.Run.Kept
import SqlDraft.Proofs.Sheet.Frames
import SqlDraft.Proofs.Sketch.Limits
import SqlDraft.Proofs.Sketch.Removals
import SqlDraft.Proofs.Store.Replacing

namespace SqlDraft

namespace Draft

variable {draft : Draft}

/-- Changes of the tree that come to the same. -/
theorem alter_congr {first second : Store → Store} (same : first draft.store = second draft.store) :
    draft.alter first = draft.alter second := by
  unfold alter
  rw [same]

theorem placeRank_keyword (removal : Removal) : Store.placeRank removal.keyword = 0 := by
  cases removal <;> rfl

/-! ### What a call does where it finds its clause -/

theorem limit_of_found {clause : Slot} (plain : draft.inGroup = false)
    (found : draft.limitClause? = some clause) (count : UInt64) :
    draft.limit count = draft.alter (·.setLimit clause count) := by
  simp [limit, withLimitClause, limitClause, found, plain]

theorem offset_of_found {clause : Slot} (plain : draft.inGroup = false)
    (found : draft.limitClause? = some clause) (count : UInt64) :
    draft.offset count = draft.alter (·.setOffset clause count) := by
  simp [offset, withLimitClause, limitClause, found, plain]

theorem direct_of_found {clause : Slot} (plain : draft.inGroup = false)
    (found : draft.ordering? = some clause) (direction : Direction) :
    draft.direct direction = draft.alter (·.setDirection clause direction) := by
  simp only [direct, plain, found, Bool.false_eq_true, if_false, alter, Store.setDirection]
  cases last : draft.store.lastChild? clause with
  | none => rfl
  | some child =>
    by_cases directed : (draft.store.node child).payload.keyword?.any Keyword.isDirection = true <;>
      simp [directed]

theorem giveName_of_found {target : Slot} (found : draft.scope.target = some target)
    (name : String) : draft.giveName name = draft.alter (·.setName target name) := by
  simp only [giveName, nameAfter?, found, alter, Store.setName]
  cases label : (draft.store.node target).next.filter fun slot =>
      (draft.store.node slot).payload.isKeyword .asName with
  | none => rfl
  | some slot => cases leaf : draft.store.firstChild? slot <;> simp only [leaf]

/-- A removal drops the columns of the command that is there. -/
theorem remove_of_command {clause : Slot} (plain : draft.inGroup = false)
    (command : draft.scope.command = some clause) (removal : Removal) :
    draft.remove removal =
      (draft.alter fun store =>
        (store.eraseChildren clause).markRemoval clause draft.scope.table removal).adjust
        fun scope => { scope with
          target := scope.target.filter fun target => target ∉ draft.store.children clause } := by
  simp only [remove, plain, command, replaceCommand, Bool.false_eq_true, if_false, scope_adjust,
    scope_alter]
  cases draft.scope.table with
  | none => rfl
  | some slot => exact alter_adjust _ _ _

/-- A removal adds the command where there is none. -/
theorem remove_of_none (forest : draft.store.Forest) (plain : draft.inGroup = false)
    (command : draft.scope.command = none) (removal : Removal) :
    draft.remove removal =
      (draft.alter fun store => (store.addClause draft.scope.root removal.keyword).markRemoval
        draft.store.fresh draft.scope.table removal).adjust
        fun scope => { scope with command := some draft.store.fresh } := by
  have tagged : (draft.store.addClause draft.scope.root removal.keyword).setPayload draft.store.fresh
      (.keyword removal.keyword) = draft.store.addClause draft.scope.root removal.keyword :=
    Store.varies_addClause forest draft.scope.root placeRank_keyword removal removal
  simp only [remove, plain, command, addCommand, Bool.false_eq_true, if_false, scope_adjust,
    scope_alter]
  cases draft.scope.table with
  | none => exact congrArg (adjust · _) (alter_congr tagged.symm)
  | some slot =>
    refine (alter_adjust _ _ _).trans (Eq.trans (congrArg (adjust · _) (alter_alter _ _ _)) ?_)
    exact congrArg (adjust · _) (alter_congr (congrArg (Store.setPayload · slot _) tagged.symm))

/-- A removal of a removal has no columns to drop. -/
theorem remove_of_childless {clause : Slot} (plain : draft.inGroup = false)
    (command : draft.scope.command = some clause)
    (childless : draft.store.firstChild? clause = none) (removal : Removal) :
    draft.remove removal = draft.alter (·.markRemoval clause draft.scope.table removal) := by
  have row : draft.store.children clause = [] := Store.children_eq_nil childless
  have whole (target : Option Slot) : target.filter (fun _ => true) = target := by
    cases target <;> rfl
  have replaced : draft.replaceCommand removal clause =
      draft.alter (·.setPayload clause (.keyword removal.keyword)) := by
    simp [replaceCommand, row, whole, Store.eraseChildren_of_childless childless, alter]
  simp only [remove, plain, command, replaced, Bool.false_eq_true, if_false, scope_alter]
  cases draft.scope.table <;> rfl

/-! ### Two calls in a row -/

namespace Sketched

variable {scopes : List Slot} {outlines : Slot → Outline}

theorem limitClause?_limit (sketched : draft.Sketched scopes outlines)
    (plain : draft.inGroup = false) (count : UInt64) :
    (draft.limit count).limitClause? = some draft.limitClause := by
  have frames := draft.frames_limit count
  obtain ⟨grow, -, slot, -⟩ := sketched.withLimitClause plain
  rw [(sketched.limit plain count).limitClause?_eq ((inGroup_eq frames).trans plain),
    scope_root_eq frames, Function.update_self, slot]
  rfl

theorem limitClause?_offset (sketched : draft.Sketched scopes outlines)
    (plain : draft.inGroup = false) (count : UInt64) :
    (draft.offset count).limitClause? = some draft.limitClause := by
  have frames := draft.frames_offset count
  obtain ⟨grow, -, slot, -⟩ := sketched.withLimitClause plain
  rw [(sketched.offset plain count).limitClause?_eq ((inGroup_eq frames).trans plain),
    scope_root_eq frames, Function.update_self, slot]
  rfl

/-- A limit or an offset is set in the limit clause, which is there or is added first. -/
theorem exists_page (sketched : draft.Sketched scopes outlines) (plain : draft.inGroup = false) :
    ∃ ready : Store → Store, (ready draft.store).Forest ∧
      (ready draft.store).InUse draft.limitClause ∧
      (∀ count, draft.limit count =
        draft.alter fun store => (ready store).setLimit draft.limitClause count) ∧
      ∀ count, draft.offset count =
        draft.alter fun store => (ready store).setOffset draft.limitClause count := by
  obtain ⟨ready, same, slot, drawn⟩ := sketched.withLimitClause plain
  obtain ⟨-, -, framed⟩ := drawn.framedAt sketched.isScope (Function.update_self _ _ _)
  refine ⟨ready, drawn.forest, slot ▸ framed.inUse, fun count => ?_, fun count => ?_⟩
  · simp only [Draft.limit, plain, Bool.false_eq_true, if_false, same, alter_alter]
  · simp only [Draft.offset, plain, Bool.false_eq_true, if_false, same, alter_alter]

theorem limit_limit (sketched : draft.Sketched scopes outlines) (former latter : UInt64) :
    (draft.limit former).limit latter = draft.limit latter := by
  have frames := inGroup_eq (draft.frames_limit former)
  cases plain : draft.inGroup with
  | true => simp [Draft.limit, plain]
  | false =>
    obtain ⟨ready, forest, inUse, limits, -⟩ := sketched.exists_page plain
    rw [limit_of_found (frames.trans plain) (sketched.limitClause?_limit plain former),
      limits former, limits latter, alter_alter]
    exact alter_congr (Store.setLimit_setLimit forest inUse former latter)

theorem offset_offset (sketched : draft.Sketched scopes outlines) (former latter : UInt64) :
    (draft.offset former).offset latter = draft.offset latter := by
  have frames := inGroup_eq (draft.frames_offset former)
  cases plain : draft.inGroup with
  | true => simp [Draft.offset, plain]
  | false =>
    obtain ⟨ready, forest, inUse, -, offsets⟩ := sketched.exists_page plain
    rw [offset_of_found (frames.trans plain) (sketched.limitClause?_offset plain former),
      offsets former, offsets latter, alter_alter]
    exact alter_congr (Store.setOffset_setOffset forest inUse former latter)

/-- An offset between two limits changes nothing about them. -/
theorem limit_offset_limit (sketched : draft.Sketched scopes outlines)
    (former count latter : UInt64) :
    ((draft.limit former).offset count).limit latter = (draft.limit latter).offset count := by
  cases plain : draft.inGroup with
  | true => simp [Draft.limit, Draft.offset, plain]
  | false =>
    have plainLimit (limit : UInt64) : (draft.limit limit).inGroup = false :=
      (inGroup_eq (draft.frames_limit limit)).trans plain
    have offset_limit (limit : UInt64) : (draft.limit limit).offset count =
        (draft.limit limit).alter (·.setOffset draft.limitClause count) :=
      offset_of_found (plainLimit limit) (sketched.limitClause?_limit plain limit) count
    have found : ((draft.limit former).offset count).limitClause? = some draft.limitClause := by
      have clause : (draft.limit former).limitClause = draft.limitClause := by
        rw [Draft.limitClause, sketched.limitClause?_limit plain former, Option.getD_some]
      rw [(sketched.limit plain former).limitClause?_offset (plainLimit former), clause]
    have plainBoth : ((draft.limit former).offset count).inGroup = false :=
      (inGroup_eq (frames_offset _ count)).trans (plainLimit former)
    obtain ⟨ready, forest, inUse, limits, -⟩ := sketched.exists_page plain
    have limited (limit : UInt64) :
        ((ready draft.store).setLimit draft.limitClause limit).Forest := by
      have drawn := (sketched.limit plain limit).drawn.forest
      rwa [limits limit] at drawn
    rw [limit_of_found plainBoth found, offset_limit former, offset_limit latter, limits former,
      limits latter, alter_alter, alter_alter, alter_alter]
    exact alter_congr
      (Store.setLimit_setOffset_setLimit forest inUse limited former count latter)

theorem showPage_showPage (sketched : draft.Sketched scopes outlines)
    (perPage page perPageToo pageToo : UInt64) :
    (draft.showPage perPage page).showPage perPageToo pageToo =
      draft.showPage perPageToo pageToo := by
  unfold Draft.showPage
  rw [sketched.limit_offset_limit]
  cases plain : draft.inGroup with
  | true => simp [Draft.limit, Draft.offset, plain]
  | false => exact (sketched.limit plain perPageToo).offset_offset _ _

theorem direct_direct (sketched : draft.Sketched scopes outlines) (former latter : Direction) :
    (draft.direct former).direct latter = draft.direct latter := by
  have frames := draft.frames_direct former
  cases plain : draft.inGroup with
  | true => simp [Draft.direct, plain]
  | false =>
    have plainToo := (inGroup_eq frames).trans plain
    have found := sketched.ordering?_eq plain
    have foundToo : (draft.direct former).ordering? = draft.ordering? := by
      rw [(sketched.direct plain former).ordering?_eq plainToo, found, scope_root_eq frames,
        Function.update_self]
      unfold Outline.directed
      split
      · rfl
      · next clause said =>
        rw [said]
        rfl
    cases said : (outlines draft.scope.root).ordering with
    | none =>
      rw [said, Option.map_none] at found
      have ignored (direction : Direction) : draft.direct direction = draft := by
        simp [Draft.direct, plain, found]
      rw [ignored former]
    | some clause =>
      rw [said, Option.map_some] at found
      obtain ⟨-, -, framed⟩ := sketched.framedAt plain (by decide) (row_ordering said)
      rw [direct_of_found plainToo (foundToo.trans found), direct_of_found plain found,
        direct_of_found plain found, alter_alter]
      exact alter_congr
        (Store.setDirection_setDirection sketched.drawn.forest framed.inUse former latter)

theorem giveName_giveName (sketched : draft.Sketched scopes outlines) (former latter : String) :
    (draft.giveName former).giveName latter = draft.giveName latter := by
  have held := sketched.heldScope
  have goes := held.target
  cases aim : (outlines draft.scope.root).target with
  | none =>
    rw [aim, Option.bind_none] at goes
    simp [Draft.giveName, goes]
  | some target =>
    obtain ⟨slot, place⟩ := Option.isSome_iff_exists.mp (held.placed target aim)
    rw [aim, Option.bind_some, place] at goes
    obtain ⟨clause, -, -, -, member⟩ := sketched.drawn.placed sketched.isScope
      (sketched.rows_eq (sketched.plain_of_place place)) place
    have goesToo : (draft.giveName former).scope.target = some slot := by
      rw [giveName_of_found goes, scope_alter, goes]
    rw [giveName_of_found goesToo, giveName_of_found goes, giveName_of_found goes, alter_alter]
    exact alter_congr (Store.setName_setName sketched.drawn.forest member former latter)

/-- A removal and a projection that returns each row once do not get distinct rows. -/
theorem distinct_eq_self (sketched : draft.Sketched scopes outlines)
    (plain : draft.inGroup = false) {clause : Clause Action}
    (said : (outlines draft.scope.root).command = some clause)
    (other : clause.part.keyword ≠ .select) : draft.distinct = draft := by
  obtain ⟨-, -, framed⟩ := sketched.framedAt plain (by decide) (row_command _ said)
  have payload : (draft.store.node clause.slot).payload = .keyword clause.part.keyword :=
    framed.payload_eq
  have command : draft.scope.command = some clause.slot := by
    rw [sketched.heldScope.command, said]
    rfl
  simp [Draft.distinct, plain, command, payload, Payload.isKeyword, other]

theorem distinct_distinct (sketched : draft.Sketched scopes outlines) :
    draft.distinct.distinct = draft.distinct := by
  have frames := draft.frames_distinct
  cases plain : draft.inGroup with
  | true => simp [Draft.distinct, plain]
  | false =>
    have distinction : ((outlines draft.scope.root).distinction draft.store.fresh).part.keyword ≠
        .select := by
      unfold Outline.distinction
      cases (outlines draft.scope.root).command with
      | none => exact fun same => nomatch same
      | some clause =>
        by_cases selects : clause.part.keyword = .select
        · show clause.part.distinctly.keyword ≠ .select
          rw [(distinctly_of_select selects).2.2.1]
          decide
        · show clause.part.distinctly.keyword ≠ .select
          rwa [distinctly_of_not_select selects]
    refine (sketched.distinct plain).distinct_eq_self ((inGroup_eq frames).trans plain) ?_
      distinction
    rw [scope_root_eq frames, Function.update_self]
    rfl

/-- The command of a removal is known and has nothing below it. -/
theorem exists_removed (sketched : draft.Sketched scopes outlines) (plain : draft.inGroup = false)
    (removal : Removal) : ∃ clause, (draft.remove removal).scope.command = some clause ∧
      (draft.remove removal).store.firstChild? clause = none := by
  have frames := draft.frames_remove removal
  have plainToo := (inGroup_eq frames).trans plain
  obtain ⟨clause, removed⟩ := sketched.remove plain removal
  have said : (Function.update outlines draft.scope.root
      ((outlines draft.scope.root).removed clause removal) (draft.remove removal).scope.root).command =
        some ⟨clause, .removal removal⟩ := by
    rw [scope_root_eq frames, Function.update_self]
    rfl
  obtain ⟨-, -, framed⟩ := removed.framedAt plainToo (by decide) (row_command _ said)
  refine ⟨clause, ?_, ?_⟩
  · rw [removed.heldScope.command, said]
    rfl
  · have nothing := List.length_eq_zero_iff.mp framed.inside.length_eq
    rw [removed.drawn.forest.firstChild?_eq_head?, nothing]
    rfl

theorem remove_remove (sketched : draft.Sketched scopes outlines) (former latter : Removal) :
    (draft.remove former).remove latter = draft.remove latter := by
  have frames := draft.frames_remove former
  cases plain : draft.inGroup with
  | true => simp [Draft.remove, plain]
  | false =>
    obtain ⟨clause, command, childless⟩ := sketched.exists_removed plain former
    rw [remove_of_childless ((inGroup_eq frames).trans plain) command childless]
    cases known : draft.scope.command with
    | none =>
      have forest := sketched.drawn.forest
      have varies := Store.varies_addClause forest draft.scope.root placeRank_keyword
      rw [remove_of_none forest plain known] at command ⊢
      rw [remove_of_none forest plain known]
      obtain rfl : draft.store.fresh = clause := by simpa using command
      rw [alter_adjust, alter_alter]
      refine congrArg (adjust · _) (alter_congr ?_)
      show ((draft.store.addClause draft.scope.root former.keyword).markRemoval _ _ _).markRemoval
        _ (scope (adjust (alter draft _) _)).table _ = _
      rw [scope_adjust]
      refine (Store.markRemoval_markRemoval _ _ draft.scope.table former latter).trans ?_
      unfold Store.markRemoval
      rw [varies former latter, varies latter latter]
    | some slot =>
      rw [remove_of_command plain known] at command ⊢
      rw [remove_of_command plain known]
      obtain rfl : slot = clause := by simpa [known] using command
      rw [alter_adjust, alter_alter]
      refine congrArg (adjust · _) (alter_congr ?_)
      show ((draft.store.eraseChildren slot).markRemoval _ _ _).markRemoval
        _ (scope (adjust (alter draft _) _)).table _ = _
      rw [scope_adjust]
      exact Store.markRemoval_markRemoval _ _ draft.scope.table former latter

end Sketched

end Draft

/-- An edit says the same part as another one, which it then takes the place of. -/
inductive Edit.Replaces : (latter former : Edit) → Prop
  | limit (latter former : UInt64) : Replaces (.limit latter) (.limit former)
  | offset (latter former : UInt64) : Replaces (.offset latter) (.offset former)
  | showPage (perPage page formerPerPage formerPage : UInt64) :
      Replaces (.showPage perPage page) (.showPage formerPerPage formerPage)
  | giveName (latter former : String) : Replaces (.giveName latter) (.giveName former)
  | direct (latter former : Direction) : Replaces (.direct latter) (.direct former)
  | distinct : Replaces .distinct .distinct
  | remove (latter former : Removal) : Replaces (.remove latter) (.remove former)

theorem Draft.Sketched.apply_apply {draft : Draft} {scopes : List Slot} {outlines : Slot → Outline}
    (sketched : draft.Sketched scopes outlines) {former latter : Edit}
    (replaces : latter.Replaces former) :
    (draft.apply former).apply latter = draft.apply latter := by
  cases replaces with
  | limit latter former => exact sketched.limit_limit former latter
  | offset latter former => exact sketched.offset_offset former latter
  | showPage perPage page formerPerPage formerPage =>
    exact sketched.showPage_showPage formerPerPage formerPage perPage page
  | giveName latter former => exact sketched.giveName_giveName former latter
  | direct latter former => exact sketched.direct_direct former latter
  | distinct => exact sketched.distinct_distinct
  | remove latter former => exact sketched.remove_remove former latter

namespace Story

/-- **The last of two edits that say the same part is all that is left.** After any moves, the draft
that both edits make is the draft that the second one makes alone, down to the last slot. -/
theorem last_edit_stays (settings : Settings) (moves : List Move) {former latter : Edit}
    (replaces : latter.Replaces former) :
    ((after settings moves).draft.apply former).apply latter =
      (after settings moves).draft.apply latter := by
  obtain ⟨scopes, outlines, kept⟩ := kept_after settings moves
  exact kept.sketched.apply_apply replaces

/-- A statement with an offset gets its limit twice. -/
theorem last_edit_stays_limit :
    (Edit.limit 20).Replaces (.limit 10) ∧
      ((after .standard [.edit (.table "users"), .edit (.offset 5)]).draft.apply (.limit 10)).apply
          (.limit 20) =
        (after .standard [.edit (.table "users"), .edit (.offset 5)]).draft.apply (.limit 20) :=
  ⟨.limit 20 10,
    last_edit_stays .standard [.edit (.table "users"), .edit (.offset 5)] (.limit 20 10)⟩

end Story

end SqlDraft
