/-
**What joins consist of.**

A join is a target with at most one name and at most one `ON`, in this order, whatever order they were
said in, and a cross join has no conditions:

* `Sheet.SparesCross`: no cross join has conditions.
* `Sheet.invariant_sparesCross`: nothing that is said gives it any.
* `Store.JoinedAs`: what a join consists of.
* **`Story.joinedAs`**: so does every join after any moves.
-/

import SqlDraft.Proofs.Run.Invariants
import SqlDraft.Proofs.Run.Lists

namespace SqlDraft

/-! ### Cross joins have no conditions -/

namespace Sheet

/-- No cross join has conditions. -/
def SparesCross (sheet : Sheet) : Prop :=
  ∀ link ∈ sheet.joins, link.kind = .cross → link.conditions = none

variable {sheet : Sheet}

theorem SparesCross.linked (spares : sheet.SparesCross) (kind : JoinKind) (body : List Payload) :
    (sheet.linked kind body).SparesCross := by
  intro link member cross
  rcases List.mem_append.mp member with old | new
  · exact spares link old cross
  · rw [List.mem_singleton.mp new]

theorem SparesCross.join (spares : sheet.SparesCross) (kind : JoinKind) (table : String) :
    (sheet.join kind table).SparesCross := by
  unfold Sheet.join
  split
  · exact spares
  · exact spares.linked kind _

theorem Crossing.join (crossing : sheet.Crossing) (kind : JoinKind) (table : String) :
    (sheet.join kind table).Crossing := by
  unfold Sheet.join
  split
  · exact crossing
  · intro joining
    exact ⟨_, List.getLast?_concat, of_decide_eq_true joining⟩

/-- A change of the last join keeps the property if it does so there. -/
theorem sparesCross_modifyLast {links : List Link} {change : Link → Link}
    (spares : ∀ link ∈ links, link.kind = .cross → link.conditions = none)
    (last : ∀ link ∈ links.getLast?, (change link).kind = .cross → (change link).conditions = none) :
    ∀ link ∈ links.modifyLast change, link.kind = .cross → link.conditions = none := by
  rcases List.eq_nil_or_concat links with rfl | ⟨front, final, rfl⟩
  · exact nofun
  · rw [List.concat_eq_append] at spares last ⊢
    rw [List.modifyLast_concat]
    intro link member
    rcases List.mem_append.mp member with old | new
    · exact spares link (List.mem_append_left _ old)
    · rw [List.mem_singleton.mp new]
      exact last final List.getLast?_concat

/-- One more condition goes to a join that takes conditions. -/
theorem SparesCross.adding (spares : sheet.SparesCross) (crossing : sheet.Crossing)
    {clause : FilterClause} {seat : Seat} (goes : sheet.seat? clause = some seat) (remark : Remark) :
    (sheet.adding remark seat).SparesCross := by
  cases seat with
  | members | filters | havings => exact spares
  | lastJoin =>
    refine sparesCross_modifyLast spares fun link last cross => ?_
    have joining : sheet.joining = true := by
      cases clause <;> simp only [seat?] at goes <;> split at goes <;> simp_all
    obtain ⟨found, final, ordinary⟩ := crossing joining
    obtain rfl : found = link := Option.mem_unique final last
    exact absurd cross ordinary

theorem SparesCross.restrict (spares : sheet.SparesCross) (crossing : sheet.Crossing)
    (clause : FilterClause) (remark : Remark) : (sheet.restrict clause remark).SparesCross := by
  unfold Sheet.restrict
  split
  · exact spares
  · next seat goes => exact spares.adding crossing goes remark

theorem SparesCross.nested (spares : sheet.SparesCross) (crossing : sheet.Crossing)
    (clause : FilterClause) (logic : Connective) (content : NestedCondition) (body : List Payload) :
    (sheet.nested clause logic content body).SparesCross := by
  unfold Sheet.nested
  split
  · exact spares
  · next seat goes => exact spares.adding crossing goes _

theorem joins_orderBy (sheet : Sheet) (columns : List String) :
    (sheet.orderBy columns).joins = sheet.joins := by
  unfold Sheet.orderBy
  split <;> rfl

theorem joins_direct (sheet : Sheet) (direction : Direction) :
    (sheet.direct direction).joins = sheet.joins := by
  unfold Sheet.direct
  split <;> rfl

theorem joins_limit (sheet : Sheet) (count : UInt64) : (sheet.limit count).joins = sheet.joins := by
  unfold Sheet.limit
  split <;> rfl

theorem joins_offset (sheet : Sheet) (count : UInt64) : (sheet.offset count).joins = sheet.joins := by
  unfold Sheet.offset
  split <;> rfl

theorem SparesCross.edited (spares : sheet.SparesCross) (crossing : sheet.Crossing) (change : Edit) :
    (sheet.edited change).SparesCross := by
  have same {other : Sheet} (joins : other.joins = sheet.joins) : other.SparesCross := by
    unfold SparesCross
    rwa [joins]
  cases change with
  | join kind table => exact spares.join kind table
  | joinOn kind table condition =>
    show (sheet.joinOn kind table condition).SparesCross
    unfold Sheet.joinOn
    split
    · exact spares
    · exact (spares.join kind table).restrict (crossing.join kind table) _ _
  | restrict clause logic condition => exact spares.restrict crossing clause _
  | giveName name =>
    show (sheet.giveName name).SparesCross
    unfold Sheet.giveName
    split
    · exact spares
    · next target _ =>
      cases target with
      | column | table => exact spares
      | join =>
        refine sparesCross_modifyLast spares fun link last cross => ?_
        exact spares link (List.mem_of_getLast? last) cross
  | select columns =>
    refine same (show (sheet.select columns).joins = _ from ?_)
    unfold Sheet.select
    split <;> rfl
  | distinct =>
    refine same (show sheet.distinct.joins = _ from ?_)
    unfold Sheet.distinct
    split <;> rfl
  | table name =>
    refine same (show (sheet.fromTable name).joins = _ from ?_)
    unfold Sheet.fromTable
    split <;> rfl
  | remove removal =>
    refine same (show (sheet.remove removal).joins = _ from ?_)
    unfold Sheet.remove
    split <;> rfl
  | groupBy columns =>
    refine same (show (sheet.groupBy columns).joins = _ from ?_)
    unfold Sheet.groupBy
    split <;> rfl
  | orderBy columns => exact same (sheet.joins_orderBy columns)
  | orderDown columns =>
    exact same ((Sheet.joins_direct _ .desc).trans (sheet.joins_orderBy columns))
  | direct direction => exact same (sheet.joins_direct direction)
  | limit count => exact same (sheet.joins_limit count)
  | offset count => exact same (sheet.joins_offset count)
  | showPage perPage page =>
    exact same ((Sheet.joins_offset _ _).trans (sheet.joins_limit perPage))

theorem SparesCross.received (spares : sheet.SparesCross) (crossing : sheet.Crossing)
    (body : List Payload) (opening : Opening) : (sheet.received body opening).SparesCross := by
  cases opening with
  | table | union =>
    unfold Sheet.received
    dsimp only
    split <;> exact spares
  | joinTable kind =>
    unfold Sheet.received
    dsimp only
    split
    · exact spares
    · exact spares.linked kind body
  | joinConditions kind table => exact spares.join kind table
  | joinOperand kind table column operator =>
    unfold Sheet.received
    dsimp only
    split
    · exact spares
    · exact (spares.join kind table).nested (crossing.join kind table) _ _ _ _
  | condition clause logic content => exact spares.nested crossing clause logic content body

/-- **No cross join ever has conditions.** -/
theorem invariant_sparesCross : Invariant SparesCross where
  silent _ := nofun
  edited _ change crossing spares := spares.edited crossing change
  received _ body opening crossing spares := spares.received crossing body opening
  completed sheet spares := by
    unfold Sheet.completed
    split <;> exact spares
  resumed _ _ _ := Iff.rfl
  inside outline inside other spares := by
    intro link member cross
    obtain ⟨clause, said, rfl⟩ := List.mem_map.mp member
    have none := spares _ (List.mem_map_of_mem said) cross
    exact Option.map_eq_none_iff.mpr (Option.map_eq_none_iff.mp none)

end Sheet

/-! ### What a join consists of -/

namespace Store

/-- **What a join consists of**: a target, a name at most and conditions at most, in this order. A cross
join has no conditions. -/
def JoinedAs (store : Store) (kind : JoinKind) (join : Slot) : Prop :=
  ∃ target names conditions, store.children join = target :: (names ++ conditions) ∧
    store.payload target ≠ .keyword .asName ∧ store.payload target ≠ .keyword .joinOn ∧
    names.length ≤ 1 ∧ (∀ slot ∈ names, store.payload slot = .keyword .asName) ∧
    conditions.length ≤ 1 ∧ (∀ slot ∈ conditions, store.payload slot = .keyword .joinOn) ∧
    (kind = .cross → conditions = [])

variable {store : Store} {scopes row : List Slot}

/-- A row that shows something that there may be has one node at most. -/
theorem Shows.of_option {Thing : Type} {thing : Option Thing} {word : Payload}
    {below : Thing → List Tree} {mark : Thing → Option Slot}
    (shows : store.Shows scopes row
      (thing.toList.map fun thing => .node (mark thing) word (below thing))) :
    row.length ≤ 1 ∧ (∀ slot ∈ row, store.payload slot = word) ∧ (thing = none → row = []) := by
  cases thing with
  | none =>
    cases shows
    exact ⟨Nat.zero_le 1, nofun, fun _ => rfl⟩
  | some thing =>
    obtain ⟨child, back, rfl, payload, -, -, -, rest⟩ := shows.uncons
    cases rest
    refine ⟨Nat.le_refl 1, fun slot member => ?_, nofun⟩
    rw [List.mem_singleton.mp member, payload]

/-- A node that shows a join consists of the parts of one. -/
theorem Shows.joinedAs {slot : Slot} {join : Join}
    (blank : ∀ root ∈ scopes, store.payload root = .blank)
    (shows : store.Shows scopes (store.children slot) join.trees)
    (spares : join.kind = .cross → join.conditions = none) : store.JoinedAs join.kind slot := by
  unfold Join.trees at shows
  have headed : ∃ target rest, store.children slot = target :: rest ∧
      (store.payload target ≠ .keyword .asName ∧ store.payload target ≠ .keyword .joinOn) ∧
      store.Shows scopes rest (nameTrees join.name ++
        join.conditions.toList.map fun clause => clause.tree .joinOn (Item.trees clause.part)) := by
    cases source : join.source with
    | name leaf text =>
      rw [source] at shows
      obtain ⟨target, rest, children, payload, -, -, -, behind⟩ := shows.uncons
      refine ⟨target, rest, children, ?_, behind⟩
      rw [payload]
      exact ⟨nofun, nofun⟩
    | scope root =>
      rw [source] at shows
      generalize store.children slot = row at shows
      cases shows with
      | scope isScope behind =>
        refine ⟨root, _, rfl, ?_, behind⟩
        rw [blank root isScope]
        exact ⟨nofun, nofun⟩
  obtain ⟨target, rest, children, ⟨noName, noConditions⟩, behind⟩ := headed
  obtain ⟨names, conditions, rfl, showsNames, showsConditions⟩ := behind.split
  obtain ⟨oneName, isName, -⟩ := showsNames.of_option
  obtain ⟨oneOn, isOn, absent⟩ := showsConditions.of_option
  exact ⟨target, names, conditions, children, noName, noConditions, oneName, isName, oneOn, isOn,
    fun cross => absent (spares cross)⟩

end Store

/-- **After any moves every join consists of the parts of one.** -/
theorem Story.joinedAs (settings : Settings) (moves : List Move) {kind : JoinKind} {slot : Slot}
    (inUse : (after settings moves).draft.store.InUse slot)
    (heads : (after settings moves).draft.store.payload slot = .keyword kind.keyword) :
    (after settings moves).draft.store.JoinedAs kind slot := by
  obtain ⟨drawing, obeys⟩ := obeys_after Sheet.invariant_sparesCross settings moves
  rw [← obeys.draft] at inUse heads ⊢
  obtain ⟨root, found, opened, -, mark, below, inRow, shows⟩ :=
    exists_clause obeys.draft (fun root kind opened => ⟨(obeys.holds root kind opened).1,
      (obeys.holds root kind opened).2.1⟩) inUse heads
      (Draft.Sketched.rank?_joinKeyword kind)
  obtain ⟨clause, said, same⟩ := List.mem_map.mp inRow
  obtain ⟨-, word, rfl⟩ := Tree.node.inj same
  obtain rfl : clause.part.kind = kind := by
    have words := Payload.keyword.inj word
    revert words
    cases clause.part.kind <;> cases kind <;> decide
  refine shows.joinedAs drawing.sketched.drawn.blank fun cross => ?_
  have spares := (obeys.holds root found opened).2.2 _ (List.mem_map_of_mem said) cross
  exact Option.map_eq_none_iff.mp spares

end SqlDraft
