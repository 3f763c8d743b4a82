/-
**The lists of a scope.**

Columns are added to a projection, to a grouping and to an ordering by separate calls, and names,
directions and a star are put among them by others. What stands below such a clause is a list all the
same, with one comma between two of its items, and its columns are those of the calls:

* `Store.Lists`: nodes list columns.
* `Draft.ListsAt`: what stands below the lists of a scope.
* `Draft.ListsColumns`: a scope has the lists that were asked for.
* `Diary.exists_listing`: so does every scope that was opened.
* **`Diary.lists_well_formed`**: every list in the store is one of these.
-/

import SqlDraft.Proofs.Run.Diary
import SqlDraft.Proofs.Run.Parentheses

namespace SqlDraft

/-! ### Nodes that list columns -/

namespace Store

/-- Whether a node is an `AS` with one name below it. -/
def IsName (store : Store) (mark : Slot) : Prop :=
  store.payload mark = .keyword .asName ∧ ∃ name text, store.children mark = [name] ∧
    store.payload name = .literal text ∧ store.children name = []

/-- Whether a node is a direction of sorting. -/
def IsDirection (store : Store) (mark : Slot) : Prop :=
  (∃ direction : Direction, store.payload mark = .keyword direction.keyword) ∧
    store.children mark = []

/-- Whether some nodes are one item of a list: a column, and one mark behind it at most. -/
def IsItem (store : Store) (isMark : Slot → Prop) (row : List Slot) (text : String) : Prop :=
  ∃ column marks, row = column :: marks ∧ store.payload column = .literal text ∧
    store.children column = [] ∧ marks.length ≤ 1 ∧ ∀ mark ∈ marks, isMark mark

/-- **Nodes list columns**, with one comma between two items. -/
inductive Lists (store : Store) (isMark : Slot → Prop) : List Slot → List String → Prop
  | single {item : List Slot} {text : String} (first : store.IsItem isMark item text) :
      Lists store isMark item [text]
  | cons {item rest : List Slot} {comma : Slot} {text : String} {texts : List String}
      (first : store.IsItem isMark item text) (separated : store.payload comma = .keyword .comma)
      (leaf : store.children comma = []) (further : Lists store isMark rest texts) :
      Lists store isMark (item ++ comma :: rest) (text :: texts)

/-- Whether some nodes are a star that stands alone. -/
def Starred (store : Store) (row : List Slot) : Prop :=
  ∃ star, row = [star] ∧ store.payload star = .keyword .star ∧ store.children star = []

variable {store : Store} {scopes : List Slot} {isMark : Slot → Prop}

/-- **Nodes that show things in a row list what the things say.** -/
theorem lists_of_shows {Thing : Type} {trees : Thing → List Tree} {text : Thing → String}
    (item : ∀ {row : List Slot} {thing : Thing}, store.Shows scopes row (trees thing) →
      store.IsItem isMark row (text thing)) {things : List Thing} (some_ : things ≠ [])
    {row : List Slot} (shows : store.Shows scopes row (listed trees things)) :
    store.Lists isMark row (things.map text) := by
  induction things generalizing row with
  | nil => exact absurd rfl some_
  | cons first rest step =>
    obtain ⟨front, back, rfl, shown, behind⟩ := shows.split
    cases rest with
    | nil =>
      obtain rfl := Shows.children_eq_nil behind
      rw [List.append_nil]
      exact .single (item shown)
    | cons next more =>
      obtain ⟨comma, tail, rfl, separated, -, -, leaf, further⟩ := behind.uncons
      exact .cons (item shown) separated leaf.children_eq_nil (step (List.cons_ne_nil _ _) further)

/-- A node that shows a leaf. -/
theorem Shows.leaf {row : List Slot} {mark : Option Slot} {content : Payload} {rest : List Tree}
    (shows : store.Shows scopes row (.node mark content [] :: rest)) :
    ∃ slot back, row = slot :: back ∧ store.payload slot = content ∧ store.children slot = [] ∧
      store.Shows scopes back rest := by
  obtain ⟨slot, back, rfl, payload, -, -, below, behind⟩ := shows.uncons
  exact ⟨slot, back, rfl, payload, below.children_eq_nil, behind⟩

/-- A star that is shown alone. -/
theorem Shows.starred {row : List Slot}
    (shows : store.Shows scopes row [.leaf (.keyword .star)]) : store.Starred row := by
  obtain ⟨star, back, rfl, payload, leaf, behind⟩ := shows.leaf
  obtain rfl := behind.children_eq_nil
  exact ⟨star, rfl, payload, leaf⟩

theorem isItem_text {row : List Slot} {text : String}
    (shows : store.Shows scopes row [.leaf (.literal text)]) :
    store.IsItem (fun _ => False) row text := by
  obtain ⟨slot, back, rfl, payload, leaf, behind⟩ := shows.leaf
  obtain rfl := behind.children_eq_nil
  exact ⟨slot, [], rfl, payload, leaf, Nat.zero_le 1, nofun⟩

/-- A column of a projection is an item, with its name. -/
theorem isItem_column {row : List Slot} {column : Column}
    (shows : store.Shows scopes row column.trees) : store.IsItem store.IsName row column.text := by
  obtain ⟨slot, back, rfl, payload, leaf, behind⟩ := shows.leaf
  refine ⟨slot, back, rfl, payload, leaf, ?_⟩
  cases given : column.name with
  | none =>
    rw [given] at behind
    obtain rfl := Shows.children_eq_nil behind
    exact ⟨Nat.zero_le 1, nofun⟩
  | some text =>
    rw [given] at behind
    obtain ⟨mark, none, rfl, asName, -, -, below, rest⟩ := behind.uncons
    obtain rfl := rest.children_eq_nil
    obtain ⟨name, alone, children, literal, nameLeaf, rest⟩ := below.leaf
    obtain rfl := rest.children_eq_nil
    refine ⟨le_rfl, fun found member => ?_⟩
    rw [List.mem_singleton.mp member]
    exact ⟨asName, name, text, children, literal, nameLeaf⟩

/-- A column of an ordering is an item, with its direction. -/
theorem isItem_sort {row : List Slot} {column : String × Option Direction}
    (shows : store.Shows scopes row (sortTrees column)) :
    store.IsItem store.IsDirection row column.1 := by
  obtain ⟨text, direction?⟩ := column
  obtain ⟨slot, back, rfl, payload, leaf, behind⟩ := shows.leaf
  refine ⟨slot, back, rfl, payload, leaf, ?_⟩
  cases direction? with
  | none =>
    obtain rfl := Shows.children_eq_nil behind
    exact ⟨Nat.zero_le 1, nofun⟩
  | some direction =>
    obtain ⟨mark, none, rfl, keyword, below, rest⟩ := behind.leaf
    obtain rfl := rest.children_eq_nil
    refine ⟨le_rfl, fun found member => ?_⟩
    rw [List.mem_singleton.mp member]
    exact ⟨⟨direction, keyword⟩, below⟩

end Store

/-! ### The lists of a scope -/

/-- What stands below a node of a scope that heads a list, given the edits that were made in the scope.
A projection of all columns has no other one. It is there where rows were asked for that are distinct,
or where the scope was closed without a command. -/
structure Draft.ListsAt (draft : Draft) (root : Slot) (edits : List Edit) (slot : Slot) : Prop where
  projection : ∀ distinct : Bool,
    draft.store.payload slot = .keyword (if distinct then .selectDistinct else .select) →
      draft.store.Lists draft.store.IsName (draft.store.children slot)
          (edits.flatMap Edit.selected) ∨
        draft.store.Starred (draft.store.children slot) ∧ edits.flatMap Edit.selected = [] ∧
          if distinct then .distinct ∈ edits else root ∉ draft.opens.map Scope.root
  grouping : draft.store.payload slot = .keyword .groupBy →
    draft.store.Lists (fun _ => False) (draft.store.children slot) (edits.flatMap Edit.grouped)
  ordering : draft.store.payload slot = .keyword .orderBy →
    draft.store.Lists draft.store.IsDirection (draft.store.children slot)
      (edits.flatMap Edit.sorted)

/-- **A row of clauses has the lists that were asked for**, each of them once, unless the statement
became a removal. -/
structure Draft.ListsColumns (draft : Draft) (root : Slot) (edits : List Edit) (row : List Slot) :
    Prop where
  lists : ∀ slot ∈ row, draft.ListsAt root edits slot
  single : ∀ rank ∈ [0, 4, 7], (draft.store.ofRank row rank).length ≤ 1
  projected : edits.flatMap Edit.selected ≠ [] → (∀ removal, .remove removal ∉ edits) →
    ∃ slot ∈ row, (draft.store.payload slot).keyword?.any Keyword.isProjection
  grouped : edits.flatMap Edit.grouped ≠ [] → ∃ slot ∈ row,
    draft.store.payload slot = .keyword .groupBy
  ordered : edits.flatMap Edit.sorted ≠ [] → ∃ slot ∈ row,
    draft.store.payload slot = .keyword .orderBy

/-- A list holds just the columns that were added to it, and there is none without any. -/
theorem extended_none_eq_some {Entry : Type} {columns row : List Entry} :
    extended none columns = some row ↔ columns = row ∧ row ≠ [] := by
  cases columns with
  | nil => simp [extended]
  | cons first rest =>
    rw [extended, Option.getD_none, List.nil_append, Option.some.injEq]
    refine ⟨fun same => ⟨same, same ▸ List.cons_ne_nil _ _⟩, And.left⟩

namespace Store.Shows

variable {store : Store} {scopes row : List Slot} {outline : Outline}

/-- A node that heads a clause shows a clause of its rank. -/
theorem exists_clause (shows : store.Shows scopes row outline.clauses)
    (blank : ∀ root ∈ scopes, store.payload root = .blank) {slot : Slot} (member : slot ∈ row)
    {word : Keyword} (heads : store.payload slot = .keyword word) {rank : Nat}
    (ranked : word.rank? = some rank) : ∃ mark below,
      .node mark (.keyword word) below ∈ outline.row rank ∧
        store.Shows scopes (store.children slot) below := by
  have outside : slot ∉ scopes := by
    intro isScope
    obtain rfl : Keyword.blank = word := Payload.keyword.inj ((blank slot isScope).symm.trans heads)
    exact nomatch ranked
  obtain ⟨mark, below, stands, -, shown⟩ := shows.exists_tree member outside
  rw [heads] at stands
  obtain ⟨found, -, inRow⟩ := Outline.exists_rank stands
  obtain ⟨slot, _, _, same, rankedToo⟩ := Outline.rank?_of_mem_row inRow
  obtain ⟨rfl, sameWord, rfl⟩ := Tree.node.inj same
  obtain rfl := Payload.keyword.inj sameWord
  obtain rfl : rank = found := Option.some.inj (ranked.symm.trans rankedToo)
  exact ⟨_, _, inRow, shown⟩

/-- A clause of an outline is drawn by a node that is headed by its tag. -/
theorem exists_head (shows : store.Shows scopes row outline.clauses) {rank : Nat}
    (inside : rank < 9) {mark : Option Slot} {content : Payload} {below : List Tree}
    (member : .node mark content below ∈ outline.row rank) :
    ∃ slot ∈ row, store.payload slot = content := by
  have stands : Tree.node mark content below ∈ outline.clauses :=
    List.mem_flatMap.mpr ⟨rank, List.mem_range.mpr inside, member⟩
  obtain ⟨before, after, split⟩ := List.append_of_mem stands
  rw [split] at shows
  obtain ⟨front, back, rfl, -, behind⟩ := shows.split
  obtain ⟨slot, rest, rfl, payload, -⟩ := behind.uncons
  exact ⟨slot, List.mem_append_right _ List.mem_cons_self, payload⟩

end Store.Shows

namespace Draft.Sketched

variable {draft : Draft} {scopes row : List Slot} {outlines : Slot → Outline} {root : Slot}
  {edits : List Edit} (sketched : draft.Sketched scopes outlines)
  (shows : draft.store.Shows scopes row (outlines root).clauses)
  (tells : (outlines root).Tells edits)
include sketched shows tells

/-- What stands below a projection. -/
theorem lists_projection {slot : Slot} (member : slot ∈ row) (distinct : Bool)
    (heads : draft.store.payload slot =
      .keyword (if distinct then .selectDistinct else .select)) :
    draft.store.Lists draft.store.IsName (draft.store.children slot)
        (edits.flatMap Edit.selected) ∨
      draft.store.Starred (draft.store.children slot) ∧ edits.flatMap Edit.selected = [] ∧
        if distinct then .distinct ∈ edits else root ∉ draft.opens.map Scope.root := by
  have ranked : (if distinct then Keyword.selectDistinct else .select).rank? = some 0 := by
    cases distinct <;> rfl
  obtain ⟨mark, below, inRow, shown⟩ :=
    shows.exists_clause sketched.drawn.blank member heads ranked
  obtain ⟨⟨slot, action⟩, said, same⟩ := List.mem_map.mp inRow
  obtain ⟨-, sameWord, rfl⟩ := Tree.node.inj same
  have word := Payload.keyword.inj sameWord
  have told := tells.command
  rw [Option.mem_toList.mp said] at told
  cases action with
  | columns other columns =>
    obtain ⟨filled, texts⟩ := told
    refine .inl ?_
    rw [← texts, List.map_map]
    exact Store.lists_of_shows Store.isItem_column (mt List.map_eq_nil_iff.mpr filled) shown
  | all other =>
    obtain ⟨none, reason⟩ := told
    refine .inr ⟨Store.Shows.starred shown, none, ?_⟩
    obtain rfl : other = distinct := by
      cases other <;> cases distinct <;> first | rfl | exact nomatch word
    cases other with
    | false =>
      intro isOpen
      exact Bool.false_ne_true ((sketched.not_closed isOpen).symm.trans reason)
    | true => exact reason
  | removal which => cases which <;> cases distinct <;> exact nomatch word

/-- What stands below a grouping. -/
theorem lists_grouping {slot : Slot} (member : slot ∈ row)
    (heads : draft.store.payload slot = .keyword .groupBy) :
    draft.store.Lists (fun _ => False) (draft.store.children slot)
      (edits.flatMap Edit.grouped) := by
  obtain ⟨mark, below, inRow, shown⟩ := shows.exists_clause sketched.drawn.blank member heads rfl
  obtain ⟨⟨slot, columns⟩, said, same⟩ := List.mem_map.mp inRow
  obtain ⟨-, -, rfl⟩ := Tree.node.inj same
  have told := tells.grouping
  rw [Option.mem_toList.mp said] at told
  obtain ⟨texts, filled⟩ := extended_none_eq_some.mp told.symm
  rw [texts, ← List.map_id columns]
  exact Store.lists_of_shows Store.isItem_text filled shown

/-- What stands below an ordering. -/
theorem lists_ordering {slot : Slot} (member : slot ∈ row)
    (heads : draft.store.payload slot = .keyword .orderBy) :
    draft.store.Lists draft.store.IsDirection (draft.store.children slot)
      (edits.flatMap Edit.sorted) := by
  obtain ⟨mark, below, inRow, shown⟩ := shows.exists_clause sketched.drawn.blank member heads rfl
  obtain ⟨⟨slot, columns⟩, said, same⟩ := List.mem_map.mp inRow
  obtain ⟨-, -, rfl⟩ := Tree.node.inj same
  have told := tells.ordering
  rw [Option.mem_toList.mp said] at told
  obtain ⟨texts, filled⟩ := extended_none_eq_some.mp told.symm
  rw [texts]
  exact Store.lists_of_shows Store.isItem_sort (mt List.map_eq_nil_iff.mpr filled) shown

omit sketched in
/-- Columns that were asked for are returned unless the statement is a removal. -/
theorem exists_projection (asked : edits.flatMap Edit.selected ≠ [])
    (kept : ∀ removal, .remove removal ∉ edits) :
    ∃ slot ∈ row, (draft.store.payload slot).keyword?.any Keyword.isProjection := by
  have told := tells.command
  cases said : (outlines root).command with
  | none =>
    rw [said] at told
    exact absurd told asked
  | some clause =>
    rw [said] at told
    obtain ⟨slot, inRow, heads⟩ := shows.exists_head (show 0 < 9 by decide)
      (List.mem_map_of_mem (Option.mem_toList.mpr said))
    refine ⟨slot, inRow, ?_⟩
    rw [heads]
    obtain ⟨found, action⟩ := clause
    cases action with
    | columns distinct _ | all distinct => cases distinct <;> rfl
    | removal which => exact absurd told (kept which)

/-- **The lists of a scope are those that its outline tells of.** -/
theorem listsColumns : draft.ListsColumns root edits row where
  lists slot member := ⟨fun distinct => sketched.lists_projection shows tells member distinct,
    sketched.lists_grouping shows tells member, sketched.lists_ordering shows tells member⟩
  single rank known := by
    have inside : rank < 9 ∧ rank ∈ [0, 1, 3, 4, 5, 7, 8] := by
      simp only [List.mem_cons, List.not_mem_nil, or_false] at known ⊢
      omega
    rw [shows.ofRank_eq inside.1]
    exact (List.length_filterMap_le _ _).trans (Outline.length_row_le _ inside.2)
  projected asked kept := exists_projection shows tells asked kept
  grouped asked := by
    have told := tells.grouping
    rw [extended_none_eq_some.mpr ⟨rfl, asked⟩, Option.map_eq_some_iff] at told
    obtain ⟨clause, said, -⟩ := told
    exact shows.exists_head (show 4 < 9 by decide)
      (List.mem_map_of_mem (Option.mem_toList.mpr said))
  ordered asked := by
    have told := tells.ordering
    rw [extended_none_eq_some.mpr ⟨rfl, asked⟩, Option.map_map, Option.map_eq_some_iff] at told
    obtain ⟨clause, said, -⟩ := told
    exact shows.exists_head (show 7 < 9 by decide)
      (List.mem_map_of_mem (Option.mem_toList.mpr said))

end Draft.Sketched

/-! ### Every list in the store -/

/-- What heads a clause in a scope stands in the row of its clauses. -/
theorem Draft.Encloses.mem_row {draft : Draft} {root slot : Slot} {kind : ScopeKind}
    {row : List Slot} (encloses : draft.Encloses root kind row)
    (member : slot ∈ draft.store.children root) (ranked : (draft.store.payload slot).rank?.isSome) :
    slot ∈ row := by
  unfold Encloses at encloses
  split at encloses
  · exact encloses ▸ member
  · obtain ⟨left, right, children, leftParen, rightParen⟩ := encloses
    rw [children] at member
    rcases List.mem_cons.mp member with rfl | member
    · rw [leftParen] at ranked
      exact absurd ranked nofun
    · rcases List.mem_append.mp member with inRow | last
      · exact inRow
      · rw [List.mem_singleton.mp last, rightParen] at ranked
        exact absurd ranked nofun

/-- **What heads a clause stands in a scope that has clauses.** -/
theorem Draft.Sketched.exists_scope {draft : Draft} {scopes : List Slot} {outlines : Slot → Outline}
    (sketched : draft.Sketched scopes outlines) {slot : Slot} (inUse : draft.store.InUse slot)
    (ranked : (draft.store.payload slot).rank?.isSome) : ∃ root ∈ scopes,
      (outlines root).kind ≠ .group ∧ slot ∈ draft.store.children root := by
  obtain ⟨root, isScope, own⟩ := sketched.drawn.exists_own sketched.root_mem inUse
  rcases Relation.ReflTransGen.cases_head own with rfl | ⟨child, ⟨hangs, foreign⟩, further⟩
  · rw [sketched.drawn.blank root isScope] at ranked
    exact absurd ranked nofun
  obtain ⟨mark, below, stands, -, shown⟩ :=
    (sketched.drawn.shows root isScope).exists_tree hangs foreign
  obtain ⟨inner, clausal⟩ := Outline.inner_of_mem_trees stands
  rcases Relation.ReflTransGen.cases_head further with rfl | ⟨next, ⟨deeper, away⟩, rest⟩
  · exact ⟨root, isScope, clausal ranked, hangs⟩
  · obtain ⟨unranked, -⟩ := inner _ (shown.payload_mem deeper away rest)
    rw [unranked] at ranked
    exact absurd ranked nofun

/-- **A node that heads a clause is drawn in a scope that was opened**, in every drawing that knows
these scopes. -/
theorem Story.exists_clause {settings : Settings} {moves : List Move} {drawing : Drawing}
    (draft : drawing.draft = (after settings moves).draft)
    (known : ∀ root kind, (root, kind) ∈ Event.openings (after settings moves).events →
      root ∈ drawing.scopes ∧ (drawing.outlines root).kind = kind)
    {slot : Slot} {word : Keyword} {rank : Nat} (inUse : drawing.draft.store.InUse slot)
    (heads : drawing.draft.store.payload slot = .keyword word) (ranked : word.rank? = some rank) :
    ∃ root kind, (root, kind) ∈ Event.openings (after settings moves).events ∧ kind ≠ .group ∧
      ∃ mark below, .node mark (.keyword word) below ∈ (drawing.outlines root).row rank ∧
        drawing.draft.store.Shows drawing.scopes (drawing.draft.store.children slot) below := by
  obtain ⟨scopes, outlines, kept⟩ := kept_after settings moves
  have rankedToo : ((after settings moves).draft.store.payload slot).rank?.isSome := by
    rw [← draft, heads, Payload.rank?, Payload.keyword?, Option.bind_some, ranked]
    rfl
  obtain ⟨root, isScope, plain, hangs⟩ := kept.sketched.exists_scope (draft ▸ inUse) rankedToo
  have opened := kept.mem_openings.mpr ⟨isScope, rfl⟩
  obtain ⟨isKnown, kind⟩ := known root _ opened
  obtain ⟨row, encloses, shows⟩ := drawing.sketched.exists_row isKnown (kind ▸ plain)
  have member := encloses.mem_row (draft ▸ hangs) (draft ▸ rankedToo)
  exact ⟨root, _, opened, plain, shows.exists_clause drawing.sketched.drawn.blank member heads ranked⟩

namespace Diary

/-- **A scope that was opened has the lists that were asked for in it.** -/
theorem exists_listing (settings : Settings) (moves : List Move) {root : Slot} {kind : ScopeKind}
    (opened : (root, kind) ∈ Event.openings (after settings moves).story.events)
    (plain : kind ≠ .group) :
    ∃ row, (after settings moves).story.draft.Encloses root kind row ∧
      (after settings moves).story.draft.ListsColumns root ((after settings moves).editsIn root)
        row := by
  obtain ⟨drawing, told⟩ := told_after settings moves
  have tells := told.told root kind opened plain
  obtain ⟨isScope, rfl⟩ := told.opened root kind opened
  rw [← told.draft]
  obtain ⟨row, encloses, shows⟩ := drawing.sketched.exists_row isScope plain
  exact ⟨row, encloses, drawing.sketched.listsColumns shows tells⟩

/-- **The lists of a statement are well formed.** After any moves, every scope that was opened since
the draft was last started over and that has clauses lists the columns that were passed to the calls
in it, in the order of the calls, and every node that heads a clause, those of the lists among them,
stands in the row of such a scope. -/
theorem lists_well_formed (settings : Settings) (moves : List Move) :
    (∀ root kind, (root, kind) ∈ Event.openings (after settings moves).story.events →
      kind ≠ .group → ∃ row, (after settings moves).story.draft.Encloses root kind row ∧
        (after settings moves).story.draft.ListsColumns root ((after settings moves).editsIn root)
          row) ∧
    ∀ slot, (after settings moves).story.draft.store.InUse slot →
      ((after settings moves).story.draft.store.payload slot).rank?.isSome →
        ∃ root kind row, (root, kind) ∈ Event.openings (after settings moves).story.events ∧
          kind ≠ .group ∧ slot ∈ row ∧
          (after settings moves).story.draft.Encloses root kind row ∧
          (after settings moves).story.draft.ListsColumns root
            ((after settings moves).editsIn root) row := by
  refine ⟨fun root kind => exists_listing settings moves, fun slot inUse ranked => ?_⟩
  obtain ⟨scopes, outlines, kept⟩ := Story.kept_after settings moves
  rw [← story_after] at kept
  obtain ⟨root, isScope, plain, hangs⟩ := kept.sketched.exists_scope inUse ranked
  have opened := kept.mem_openings.mpr ⟨isScope, rfl⟩
  obtain ⟨row, encloses, lists⟩ := exists_listing settings moves opened plain
  exact ⟨root, _, row, opened, plain, encloses.mem_row hangs ranked, encloses, lists⟩

end Diary

end SqlDraft
