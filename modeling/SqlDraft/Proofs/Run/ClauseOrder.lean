/-
**The clauses of a scope are in order.**

The calls on a draft come in any order, and the clauses of every scope stand in the order of their
ranks all the same, with the joins and the unions among them in the order of the calls:

* `Store.ClausesOf`: a row of nodes holds the clauses of a scope, in order.
* `Draft.Encloses`: what stands in a scope is this row, in parentheses once it is closed.
* `Draft.Sketched.clause_shown`: the node that a clause of an outline is drawn by.
* `Story.clauses_in_order`: every scope that was ever opened shows its clauses in order.
-/

import SqlDraft.Proofs.Run.Kept

namespace SqlDraft

/-! ### Clauses in order -/

/-- The clauses of one rank in a row of nodes, each with what heads it. -/
def Store.ofRank (store : Store) (row : List Slot) (rank : Nat) : List (Slot × Payload) :=
  (row.map fun slot => (slot, store.payload slot)).filter fun clause => clause.2.rank? = some rank

/-- **A row of nodes holds the clauses of a scope, in order.** -/
structure Store.ClausesOf (store : Store) (events : List Event) (root : Slot) (row : List Slot) :
    Prop where
  ranked : ∀ slot ∈ row, (store.payload slot).rank?.isSome
  sorted : row.Pairwise fun first second => store.passRank first ≤ store.passRank second
  single : ∀ rank ∈ [0, 1, 3, 4, 5, 7, 8], (store.ofRank row rank).length ≤ 1
  joins : store.ofRank row 2 =
    (Event.joins events root).map fun join => (join.1, .keyword join.2.keyword)
  unions : store.ofRank row 6 = (Event.unions events root).map fun union =>
    (union.1, .keyword (if union.2 then .unionAll else .union))
  /-- The table clause of a `TRUNCATE` has a tag of its own. -/
  emptied : ∀ table ∈ store.ofRank row 1, table.2 = .keyword .emptiedTable ↔
    ∃ command ∈ store.ofRank row 0, command.2 = .keyword .truncate

/-- What stands in a scope is this row, with parentheses around it once it is closed, unless it is a
branch of a union. -/
def Draft.Encloses (draft : Draft) (root : Slot) (kind : ScopeKind) (row : List Slot) : Prop :=
  if root ∈ draft.opens.map Scope.root ∨ kind = .union then draft.store.children root = row
  else ∃ left right, draft.store.children root = left :: (row ++ [right]) ∧
    draft.store.payload left = .keyword .leftParen ∧
    draft.store.payload right = .keyword .rightParen

/-! ### Heads of trees -/

/-- The slot of a tree, if it is marked, with what heads it. -/
def Tree.stamp? : Tree → Option (Slot × Payload)
  | node mark payload _ => mark.map fun slot => (slot, payload)
  | scope _ => none

theorem Store.Shows.map_stamp {store : Store} {scopes row : List Slot} {trees : List Tree}
    (shows : store.Shows scopes row trees) (marked : ∀ tree ∈ trees, tree.stamp?.isSome) :
    (row.map fun slot => (slot, store.payload slot)) = trees.filterMap Tree.stamp? := by
  induction shows with
  | nil => rfl
  | scope _ _ _ => exact nomatch marked _ List.mem_cons_self
  | @node slot mark below row trees _ isMark _ _ _ step =>
    cases mark with
    | none => exact nomatch marked _ List.mem_cons_self
    | some known =>
      obtain rfl := isMark known rfl
      rw [List.map_cons, step fun tree member => marked tree (List.mem_cons_of_mem _ member)]
      rfl

namespace Outline

variable (outline : Outline)

/-- A clause is marked by its slot and headed by a tag of its rank. -/
theorem stamp?_of_mem_row {outline : Outline} {rank : Nat} {tree : Tree}
    (member : tree ∈ outline.row rank) :
    ∃ stamp, tree.stamp? = some stamp ∧ stamp.2 = tree.head ∧ stamp.2.rank? = some rank := by
  obtain ⟨slot, word, below, rfl, ranked⟩ := rank?_of_mem_row member
  exact ⟨(slot, .keyword word), rfl, rfl, ranked⟩

theorem exists_rank {outline : Outline} {tree : Tree} (member : tree ∈ outline.clauses) :
    ∃ rank < 9, tree ∈ outline.row rank := by
  obtain ⟨rank, inside, inRow⟩ := List.mem_flatMap.mp member
  exact ⟨rank, List.mem_range.mp inside, inRow⟩

/-- The clauses stand in the order of their ranks. -/
theorem sorted_clauses : outline.clauses.Pairwise fun first second =>
    first.head.rank?.getD 0 ≤ second.head.rank?.getD 0 := by
  have ranked : ∀ rank, ∀ tree ∈ outline.row rank, tree.head.rank?.getD 0 = rank := by
    intro rank tree member
    obtain ⟨stamp, -, same, rankOf⟩ := stamp?_of_mem_row member
    rw [← same, rankOf]
    rfl
  refine List.pairwise_flatMap.mpr ⟨fun rank _ => ?_, ?_⟩
  · refine List.pairwise_of_forall_mem_list fun first inRow second inRowToo => ?_
    rw [ranked rank first inRow, ranked rank second inRowToo]
  · refine List.pairwise_lt_range.imp fun {low high} less first inLow second inHigh => ?_
    rw [ranked low first inLow, ranked high second inHigh]
    exact less.le

/-- The clauses of one rank are one part of the row. -/
theorem filterMap_stamp {rank : Nat} (inside : rank < 9) :
    (outline.clauses.filterMap Tree.stamp?).filter (fun clause => clause.2.rank? = some rank) =
      (outline.row rank).filterMap Tree.stamp? := by
  have others : ∀ {trees : List Tree}, (∀ tree ∈ trees, ∃ other ≠ rank, tree ∈ outline.row other) →
      (trees.filterMap Tree.stamp?).filter (fun clause => clause.2.rank? = some rank) = [] := by
    intro trees elsewhere
    refine List.filter_eq_nil_iff.mpr fun clause member => ?_
    obtain ⟨tree, inTrees, same⟩ := List.mem_filterMap.mp member
    obtain ⟨other, different, inRow⟩ := elsewhere tree inTrees
    obtain ⟨stamp, sameToo, -, ranked⟩ := stamp?_of_mem_row inRow
    obtain rfl : stamp = clause := Option.some.inj (sameToo.symm.trans same)
    simp [ranked, different]
  have before := @others (outline.before rank) fun tree member => by
    obtain ⟨other, less, inRow⟩ := List.mem_flatMap.mp member
    exact ⟨other, (List.mem_range.mp less).ne, inRow⟩
  have behind := @others (outline.behind rank) fun tree member => by
    obtain ⟨other, more, inRow⟩ := List.mem_flatMap.mp member
    refine ⟨other, ?_, inRow⟩
    have bounds := List.mem_range'_1.mp more
    omega
  have all : ((outline.row rank).filterMap Tree.stamp?).filter
      (fun clause => clause.2.rank? = some rank) = (outline.row rank).filterMap Tree.stamp? := by
    refine List.filter_eq_self.mpr fun clause member => ?_
    obtain ⟨tree, inRow, same⟩ := List.mem_filterMap.mp member
    obtain ⟨stamp, sameToo, -, ranked⟩ := stamp?_of_mem_row inRow
    obtain rfl : stamp = clause := Option.some.inj (sameToo.symm.trans same)
    exact decide_eq_true ranked
  rw [outline.clauses_eq_append inside, List.filterMap_append, List.filterMap_append,
    List.filter_append, List.filter_append, before, behind, all, List.nil_append, List.append_nil]

/-- What heads clauses that are drawn one by one. -/
theorem stamps_map {Part : Type} (clauses : List (Clause Part)) (word : Clause Part → Keyword)
    (below : Clause Part → List Tree) :
    (clauses.map fun clause => clause.tree (word clause) (below clause)).filterMap Tree.stamp? =
      clauses.map fun clause => (clause.slot, .keyword (word clause)) := by
  induction clauses with
  | nil => rfl
  | cons clause rest step =>
    rw [List.map_cons, List.map_cons, ← step]
    rfl

/-- There is one clause at most of every rank but those of the joins and the unions. -/
theorem length_row_le {rank : Nat} (single : rank ∈ [0, 1, 3, 4, 5, 7, 8]) :
    (outline.row rank).length ≤ 1 := by
  have once : ∀ {Thing : Type} (thing : Option Thing) (tree : Thing → Tree),
      (thing.toList.map tree).length ≤ 1 := by
    intro Thing thing tree
    cases thing <;> simp
  simp only [List.mem_cons, List.not_mem_nil, or_false] at single
  rcases single with rfl | rfl | rfl | rfl | rfl | rfl | rfl <;> exact once _ _

/-- The table clause has the tag of a `TRUNCATE` when the command is one. -/
theorem tableKeyword_eq_iff : outline.tableKeyword = .emptiedTable ↔
    ∃ clause ∈ outline.command, clause.part.keyword = .truncate := by
  unfold tableKeyword
  cases said : outline.command with
  | none => simp
  | some clause =>
    obtain ⟨slot, action⟩ := clause
    cases action with
    | columns distinct row | all distinct => cases distinct <;> simp [Action.keyword]
    | removal removal => cases removal <;> simp [Action.keyword, Removal.keyword]

end Outline

namespace Store.Shows

variable {store : Store} {scopes row : List Slot} {outline : Outline}

theorem ofRank_eq (shows : store.Shows scopes row outline.clauses) {rank : Nat}
    (inside : rank < 9) : store.ofRank row rank = (outline.row rank).filterMap Tree.stamp? := by
  have marked : ∀ tree ∈ outline.clauses, tree.stamp?.isSome := by
    intro tree member
    obtain ⟨found, -, inRow⟩ := Outline.exists_rank member
    obtain ⟨stamp, same, -, -⟩ := Outline.stamp?_of_mem_row inRow
    rw [same]
    rfl
  unfold ofRank
  rw [shows.map_stamp marked, outline.filterMap_stamp inside]

theorem ofRank_zero (shows : store.Shows scopes row outline.clauses) : store.ofRank row 0 =
    outline.command.toList.map fun clause => (clause.slot, .keyword clause.part.keyword) := by
  rw [shows.ofRank_eq (by decide)]
  exact Outline.stamps_map _ _ _

theorem ofRank_one (shows : store.Shows scopes row outline.clauses) : store.ofRank row 1 =
    outline.table.toList.map fun clause => (clause.slot, .keyword outline.tableKeyword) := by
  rw [shows.ofRank_eq (by decide)]
  exact Outline.stamps_map _ _ _

/-- **The clauses of an outline are drawn in order.** -/
theorem clausesOf (shows : store.Shows scopes row outline.clauses)
    (blank : ∀ root ∈ scopes, store.payload root = .blank) {events : List Event} {root : Slot}
    (said : outline.report = Event.report events root outline.kind) :
    store.ClausesOf events root row := by
  have heads := shows.map_payload blank
  refine ⟨fun slot member => ?_, ?_, fun rank single => ?_, ?_, ?_, fun table isTable => ?_⟩
  · have shown := List.mem_map_of_mem (f := store.payload) member
    rw [heads] at shown
    obtain ⟨tree, inTrees, same⟩ := List.mem_map.mp shown
    obtain ⟨rank, -, inRow⟩ := Outline.exists_rank inTrees
    obtain ⟨stamp, -, sameToo, ranked⟩ := Outline.stamp?_of_mem_row inRow
    rw [← same, ← sameToo, ranked]
    rfl
  · have sorted := (List.pairwise_map (f := Tree.head)
      (R := fun first second => first.rank?.getD 0 ≤ second.rank?.getD 0)).mpr outline.sorted_clauses
    rw [← heads, List.pairwise_map] at sorted
    exact sorted
  · have inside : rank < 9 := by
      simp only [List.mem_cons, List.not_mem_nil, or_false] at single
      omega
    rw [shows.ofRank_eq inside]
    exact (List.length_filterMap_le _ _).trans (outline.length_row_le single)
  · have joins : outline.joins.map (fun clause => (clause.slot, clause.part.kind)) =
        Event.joins events root := by
      have both := congrArg (fun report => report.joins.map fun join => (join.1, join.2.1)) said
      simpa [Outline.report, Event.report, Function.comp_def] using both
    rw [shows.ofRank_eq (by decide), ← joins, List.map_map]
    exact Outline.stamps_map _ _ _
  · have unions : outline.unions.map (fun clause => (clause.slot, clause.part.all)) =
        Event.unions events root := congrArg Report.unions said
    rw [shows.ofRank_eq (by decide), ← unions, List.map_map]
    exact Outline.stamps_map _ _ _
  · rw [shows.ofRank_one] at isTable
    obtain ⟨clause, -, rfl⟩ := List.mem_map.mp isTable
    rw [shows.ofRank_zero, Payload.keyword.injEq, outline.tableKeyword_eq_iff]
    simp

end Store.Shows

namespace Draft.Sketched

variable {draft : Draft} {scopes : List Slot} {outlines : Slot → Outline} {root : Slot}

/-- The outline of an open scope is not closed. -/
theorem not_closed (sketched : draft.Sketched scopes outlines)
    (isOpen : root ∈ draft.opens.map Scope.root) : (outlines root).closed = false := by
  obtain ⟨scope, member, rfl⟩ := List.mem_map.mp isOpen
  exact (sketched.held scope member).opened

/-- **The clauses of a scope are drawn inside its parentheses.** -/
theorem exists_row (sketched : draft.Sketched scopes outlines) (isScope : root ∈ scopes)
    (plain : (outlines root).kind ≠ .group) :
    ∃ row, draft.Encloses root (outlines root).kind row ∧
      draft.store.Shows scopes row (outlines root).clauses := by
  have shows := sketched.drawn.shows root isScope
  rw [← Outline.inner_eq_clauses plain]
  unfold Draft.Encloses
  by_cases bare : root ∈ draft.opens.map Scope.root ∨ (outlines root).kind = .union
  · have trees : (outlines root).trees = (outlines root).inner := by
      rcases bare with isOpen | union
      · exact Outline.trees_of_open (sketched.not_closed isOpen)
      · exact Outline.trees_of_union union
    rw [trees] at shows
    exact ⟨_, by rw [if_pos bare], shows⟩
  · obtain ⟨away, parenthesized⟩ := not_or.mp bare
    rw [Outline.trees_of_closed (sketched.closed root isScope away).closed parenthesized] at shows
    obtain ⟨left, rest, children, leftParen, -, -, -, shows⟩ := shows.uncons
    obtain ⟨row, back, rfl, shown, shows⟩ := shows.split
    obtain ⟨right, none, rfl, rightParen, -, -, -, shows⟩ := shows.uncons
    cases shows
    refine ⟨row, ?_, shown⟩
    rw [if_neg bare]
    exact ⟨left, right, children, leftParen, rightParen⟩

/-- **A clause of a scope is drawn by a node of its own**, which is no scope itself. -/
theorem clause_shown (sketched : draft.Sketched scopes outlines) (isScope : root ∈ scopes)
    (plain : (outlines root).kind ≠ .group) {rank : Nat} (inside : rank < 9) {slot : Slot}
    {content : Payload} {below : List Tree}
    (member : .node (some slot) content below ∈ (outlines root).row rank) :
    slot ∉ scopes ∧ draft.store.InUse slot ∧ draft.store.payload slot = content ∧
      draft.store.Shows scopes (draft.store.children slot) below := by
  obtain ⟨before, after, split⟩ := List.append_of_mem (Outline.mem_trees plain inside member)
  obtain ⟨-, away, framed⟩ := sketched.drawn.framedAt isScope split
  exact ⟨away, framed.inUse, framed.payload_eq, framed.inside⟩

end Draft.Sketched

namespace Story

/-- **Every scope shows its clauses in order.** After any moves, every scope that was opened since
the draft was last started over is in use, and what stands in it is a row of clauses in the order of
their ranks, one of each rank but joins and unions, and these in the order of the calls. Once it is
closed it has a command if it has a table. -/
theorem clauses_in_order (settings : Settings) (moves : List Move) {root : Slot} {kind : ScopeKind}
    (opened : (root, kind) ∈ Event.openings (after settings moves).events)
    (plain : kind ≠ .group) :
    (after settings moves).draft.store.InUse root ∧
    ∃ row, (after settings moves).draft.Encloses root kind row ∧
      (after settings moves).draft.store.ClausesOf (after settings moves).events root row ∧
      (root ∉ (after settings moves).draft.opens.map Scope.root →
        (after settings moves).draft.store.ofRank row 1 ≠ [] →
          ((after settings moves).draft.store.ofRank row 0).length = 1) := by
  obtain ⟨scopes, outlines, kept⟩ := kept_after settings moves
  have sketched := kept.sketched
  obtain ⟨isScope, rfl⟩ := kept.mem_openings.mp opened
  obtain ⟨row, encloses, shows⟩ := sketched.exists_row isScope plain
  have clauses := shows.clausesOf sketched.drawn.blank (kept.recorded.report root isScope)
  refine ⟨sketched.drawn.inUse root isScope, row, encloses, clauses, fun closed tabled => ?_⟩
  rw [shows.ofRank_one] at tabled
  have hasTable : (outlines root).table.isSome := by
    by_contra absent
    rw [Option.not_isSome_iff_eq_none.mp absent] at tabled
    exact tabled rfl
  have projected := (sketched.closed root isScope closed).projected plain hasTable
  obtain ⟨command, said⟩ := Option.isSome_iff_exists.mp projected
  rw [shows.ofRank_zero, said]
  rfl

/-- A limit is said first, and then a statement is the table. -/
theorem clauses_in_order_subquery :
    (4, .subquery) ∈ Event.openings (after Settings.standard [.edit (.limit 5), .enter .table,
      .edit (.table "rows"), .close]).events ∧
    ∃ row, (after Settings.standard [.edit (.limit 5), .enter .table, .edit (.table "rows"),
        .close]).draft.Encloses 4 .subquery row ∧
      (after Settings.standard [.edit (.limit 5), .enter .table, .edit (.table "rows"),
        .close]).draft.store.ClausesOf (after Settings.standard [.edit (.limit 5), .enter .table,
          .edit (.table "rows"), .close]).events 4 row := by
  have opened : (4, .subquery) ∈ Event.openings (after Settings.standard [.edit (.limit 5),
      .enter .table, .edit (.table "rows"), .close]).events := by decide
  obtain ⟨-, row, encloses, clauses, -⟩ := clauses_in_order _ _ opened (by decide)
  exact ⟨opened, row, encloses, clauses⟩

end Story

end SqlDraft
