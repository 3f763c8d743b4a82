/-
**Reports of outlines.**

What a report keeps of an outline are the joins, the unions and the conditions. Most calls change an
outline in a way that its report does not show, and the others change it in the way their event does:

* `Outline.report`: what an outline says about its scope.
* `Outline.report_seated`: a condition in a row is a condition that landed.
* `Draft.Sketched.spot?_eq`: where conditions land is where the outline has a row for them.
-/

import SqlDraft.Proofs.Run.Record
import SqlDraft.Proofs.Sketch.Closing
import SqlDraft.Proofs.Sketch.Limits
import SqlDraft.Proofs.Sketch.Removals

namespace SqlDraft

def Item.landing (item : Item) : Landing := ⟨item.logic, item.content⟩

/-- The conditions of a join. -/
def Join.items (join : Join) : List Item := join.conditions.elim [] Clause.part

namespace Outline

variable (outline : Outline)

/-- What an outline says about its scope. -/
def report : Report where
  kind := outline.kind
  members := outline.members.map Item.landing
  filters := (outline.items .filters).map Item.landing
  havings := (outline.items .havings).map Item.landing
  joins := outline.joins.map fun clause =>
    (clause.slot, clause.part.kind, clause.part.items.map Item.landing)
  unions := outline.unions.map fun clause => (clause.slot, clause.part.all)

/-- The place that a row of conditions is known by. -/
def spot? (root : Slot) : Seat → Option Spot
  | .members => some (.group root)
  | .filters => some (.filters root)
  | .havings => some (.havings root)
  | .lastJoin => outline.joins.getLast?.map fun clause => .join clause.slot

/-! ### Changes that a report does not show -/

theorem report_naming (name : String) (target : Target) :
    (outline.naming name target).report = outline.report := by
  cases target with
  | column | table => rfl
  | join =>
    have joins : (outline.joins.modifyLast (Clause.revise (Join.called name))).map (fun clause =>
        (clause.slot, clause.part.kind, clause.part.items.map Item.landing)) =
          outline.joins.map fun clause =>
            (clause.slot, clause.part.kind, clause.part.items.map Item.landing) := by
      rcases List.eq_nil_or_concat' outline.joins with none | ⟨front, last, some_⟩
      · rw [none]
        rfl
      · rw [some_, List.modifyLast_concat, List.map_append, List.map_append]
        rfl
    unfold report
    exact congrArg (fun joins => Report.mk _ _ _ _ joins _) joins

theorem report_named (name : String) : (outline.named name).report = outline.report := by
  unfold named
  cases outline.target with
  | none => rfl
  | some target => exact outline.report_naming name target

theorem report_directed (direction : Direction) :
    (outline.directed direction).report = outline.report := by
  unfold directed
  cases outline.ordering <;> rfl

theorem report_completed (slot : Slot) : (outline.completed slot).report = outline.report := by
  unfold completed
  split <;> rfl

/-! ### Changes that a report shows -/

theorem report_joined (slot : Slot) (kind : JoinKind) (source : Source) :
    (outline.joined slot kind source).report = outline.report.joined slot kind := by
  have joins : (outline.joined slot kind source).report.joins =
      outline.report.joins ++ [(slot, kind, [])] := by
    show List.map _ (outline.joins ++ [_]) = _
    rw [List.map_append]
    rfl
  exact congrArg (fun joins => Report.mk _ _ _ _ joins _) joins

theorem report_united (slot : Slot) (all : Bool) (root : Slot) :
    (outline.united slot all root).report = outline.report.united slot all := by
  have unions : (outline.united slot all root).report.unions =
      outline.report.unions ++ [(slot, all)] := by
    show List.map _ (outline.unions ++ [_]) = _
    rw [List.map_append]
    rfl
  exact congrArg (fun unions => Report.mk _ _ _ _ _ unions) unions

theorem report_silent (kind : ScopeKind) : (silent kind).report = .silent kind := rfl

theorem joinSlots_report : outline.report.joinSlots = outline.joins.map Clause.slot := by
  show List.map _ (List.map _ _) = _
  rw [List.map_map]
  rfl

theorem has_of_spot? {root : Slot} {seat : Seat} {spot : Spot}
    (known : outline.spot? root seat = some spot) : outline.report.Has root spot := by
  unfold Report.Has
  cases seat with
  | members => exact Or.inl (Option.some.inj known).symm
  | filters => exact Or.inr (Or.inl (Option.some.inj known).symm)
  | havings => exact Or.inr (Or.inr (Or.inl (Option.some.inj known).symm))
  | lastJoin =>
    obtain ⟨clause, last, rfl⟩ := Option.map_eq_some_iff.mp known
    refine Or.inr (Or.inr (Or.inr ⟨clause.slot, ?_, rfl⟩))
    rw [joinSlots_report]
    exact List.mem_map_of_mem (List.mem_of_getLast? last)

/-- **A condition in a row is a condition that landed.** -/
theorem report_seated {outline : Outline} {root : Slot} {seat : Seat} {spot : Spot}
    (known : outline.spot? root seat = some spot) (distinct : outline.report.joinSlots.Nodup)
    (place : Slot) (item : Item) :
    (outline.seated place (outline.items seat ++ [item]) seat).report =
      outline.report.landed root spot item.landing := by
  have elsewhere : (∀ slot, spot ≠ .join slot) → outline.report.joins.map (fun join =>
      (join.1, join.2.1, join.2.2 ++ Report.share spot (.join join.1) item.landing)) =
        outline.report.joins := by
    intro away
    refine (List.map_congr_left fun join _ => ?_).trans (List.map_id _)
    rw [Report.share_of_ne (away _), List.append_nil]
    rfl
  cases seat with
  | members =>
    obtain rfl := Option.some.inj known
    unfold Report.landed
    rw [elsewhere fun _ same => nomatch same]
    simp [report, seated, items, Report.share]
  | filters =>
    obtain rfl := Option.some.inj known
    unfold Report.landed
    rw [elsewhere fun _ same => nomatch same]
    simp [report, seated, items, Report.share]
  | havings =>
    obtain rfl := Option.some.inj known
    unfold Report.landed
    rw [elsewhere fun _ same => nomatch same]
    simp [report, seated, items, Report.share]
  | lastJoin =>
    obtain ⟨clause, last, rfl⟩ := Option.map_eq_some_iff.mp known
    obtain ⟨front, said⟩ := List.getLast?_eq_some_iff.mp last
    rw [joinSlots_report, said, List.map_append, List.nodup_append] at distinct
    have joins : (outline.joins.modifyLast (Clause.revise (.joinedOn place
        (outline.items .lastJoin ++ [item])))).map (fun clause =>
          (clause.slot, clause.part.kind, clause.part.items.map Item.landing)) =
        outline.report.joins.map fun join => (join.1, join.2.1,
          join.2.2 ++ Report.share (.join clause.slot) (.join join.1) item.landing) := by
      have items : outline.items .lastJoin = clause.part.items := by
        unfold items
        rw [last]
        rfl
      show _ = (outline.joins.map _).map _
      rw [items, said, List.modifyLast_concat, List.map_append, List.map_map, List.map_append]
      refine congrArg₂ _ (List.map_congr_left fun other member => ?_) ?_
      · have different : Spot.join clause.slot ≠ .join other.slot := fun same =>
          distinct.2.2 other.slot (List.mem_map_of_mem member) clause.slot (by simp)
            (Spot.join.inj same).symm
        show _ = (_, _, _ ++ Report.share (.join clause.slot) (.join other.slot) _)
        rw [Report.share_of_ne different, List.append_nil]
      · simp [Clause.revise, Join.joinedOn, Join.items, Report.share]
    unfold Report.landed
    rw [← joins]
    simp [report, seated, items, Report.share]

end Outline

namespace Draft.Sketched

variable {draft : Draft} {scopes : List Slot} {outlines : Slot → Outline}

/-- **Conditions land where the outline has a row for them.** -/
theorem spot?_eq (sketched : draft.Sketched scopes outlines) (clause : FilterClause) :
    draft.spot? clause = ((outlines draft.scope.root).seat? clause).bind
      ((outlines draft.scope.root).spot? draft.scope.root) := by
  have held := sketched.heldScope
  unfold Draft.spot?
  by_cases group : (outlines draft.scope.root).kind = .group
  · have inGroup : draft.inGroup = true := decide_eq_true (held.kind.symm.trans group)
    rw [if_pos inGroup]
    cases clause <;> simp [Outline.seat?, Outline.spot?, group]
  · have plain := sketched.inGroup_eq_false group
    rw [if_neg (by simp [plain])]
    cases clause with
    | whereClause | having => simp [Outline.seat?, Outline.spot?, group]
    | joinOn =>
      show draft.scope.join.map Spot.join = _
      rw [held.join]
      cases joining : (outlines draft.scope.root).joining with
      | false => simp [Outline.seat?, group, joining]
      | true =>
        simp only [Outline.seat?, group, joining, if_true, if_false, Option.bind_some,
          Outline.spot?, Option.map_map]
        rfl

/-- Conditions go to the group itself in a group, and nowhere else they do. -/
theorem exists_spot (sketched : draft.Sketched scopes outlines) {clause : FilterClause}
    {seat : Seat} (goes : (outlines draft.scope.root).seat? clause = some seat) :
    ∃ spot, (outlines draft.scope.root).spot? draft.scope.root seat = some spot ∧
      (spot = .group draft.scope.root ↔ (outlines draft.scope.root).report.kind = .group) := by
  show ∃ spot, _ ∧ (_ ↔ (outlines draft.scope.root).kind = .group)
  by_cases group : (outlines draft.scope.root).kind = .group
  · have isMembers : seat = .members := by
      cases clause <;> simpa [Outline.seat?, group, eq_comm] using goes
    subst isMembers
    exact ⟨_, rfl, fun _ => group, fun _ => rfl⟩
  · have elsewhere : seat ≠ .members := by
      rintro rfl
      cases clause <;> simp [Outline.seat?, group] at goes
    have away : ∀ {spot : Spot}, spot ≠ .group draft.scope.root →
        (spot = .group draft.scope.root ↔ (outlines draft.scope.root).kind = .group) :=
      fun different => ⟨fun same => absurd same different, fun isGroup => absurd isGroup group⟩
    cases seat with
    | members => exact absurd rfl elsewhere
    | filters | havings => exact ⟨_, rfl, away (by simp)⟩
    | lastJoin =>
      have joining : (outlines draft.scope.root).joining = true := by
        by_contra idle
        cases clause <;> simp [Outline.seat?, group, idle] at goes
      obtain ⟨last, final, -⟩ := sketched.heldScope.crossing joining
      refine ⟨.join last.slot, ?_, away (by simp)⟩
      rw [Outline.spot?, Option.mem_def.mp final]
      rfl

/-- The slots of joins are in use. -/
theorem inUse_joinSlots (sketched : draft.Sketched scopes outlines) {root : Slot}
    (isScope : root ∈ scopes) (fits : (outlines root).report.Fits) {slot : Slot}
    (member : slot ∈ (outlines root).report.joinSlots) : draft.store.InUse slot := by
  rw [Outline.joinSlots_report] at member
  obtain ⟨clause, isJoin, rfl⟩ := List.mem_map.mp member
  have ungrouped : (outlines root).kind ≠ .group := by
    intro group
    have none := (fits.bare group).2.2
    rw [show (outlines root).report.joins = (outlines root).joins.map _ from rfl,
      List.map_eq_nil_iff] at none
    rw [none] at isJoin
    exact absurd isJoin List.not_mem_nil
  have stands : clause.tree clause.part.kind.keyword clause.part.trees ∈ (outlines root).trees :=
    Outline.mem_trees ungrouped (show 2 < 9 by decide) (List.mem_map_of_mem isJoin)
  exact sketched.drawn.forest.inUse_child root clause.slot
    ((sketched.drawn.shows root isScope).mem_of_marked stands)

end Draft.Sketched

end SqlDraft
