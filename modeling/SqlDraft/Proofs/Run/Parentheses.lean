/-
**Parentheses balance.**

A scope that was closed stands in parentheses unless it is a branch of a union, and nothing else
does. The walk that writes the text of a draft therefore meets parentheses that balance, with one
pair for each of these scopes, whatever was called and whatever is still open:

* `Draft.Sketched.parenthesized`: the closed scopes of a drawn draft stand in parentheses.
* `Story.enclosed`: the scopes that were closed and are no branches of unions.
* `Story.WellNested`: the parentheses of a walk are those of these scopes, and they balance.
* **`Story.parentheses_balance`**: the walk that writes the text of a draft is well nested.
-/

import SqlDraft.Proofs.Run.OneTree
import SqlDraft.Proofs.Sketch.Plain

namespace SqlDraft

open DyckStep Relation

namespace Store

variable {store : Store} {base : Slot} {scopes : List Slot} {rows : Slot → List Tree}

/-- Every node in use belongs to a scope. -/
theorem Drawn.exists_own (drawn : store.Drawn base scopes rows) (isScope : base ∈ scopes)
    {slot : Slot} (inUse : store.InUse slot) : ∃ root ∈ scopes, store.Own scopes root slot := by
  have reaches := (drawn.inUse_iff_reaches slot).mp inUse
  induction reaches with
  | refl => exact ⟨base, isScope, ReflTransGen.refl⟩
  | @tail parent child way member step =>
    by_cases here : child ∈ scopes
    · exact ⟨child, here, ReflTransGen.refl⟩
    · obtain ⟨root, known, own⟩ := step (drawn.forest.inUse_parent member)
      exact ⟨root, known, own.tail ⟨member, here⟩⟩

/-- The top node hangs below no other one. -/
theorem Drawn.nesting_base (drawn : store.Drawn base scopes rows) (roots : Finset Slot) :
    store.nesting roots base = 0 := by
  have isTop := (drawn.isTop_iff base).mpr rfl
  have nothing : {root | root ∈ roots ∧ store.Below root base} = ∅ := by
    refine Set.eq_empty_of_forall_notMem fun root both => ?_
    obtain ⟨parent, -, member⟩ := TransGen.tail'_iff.mp both.2
    exact isTop.2 parent member
  rw [Store.nesting, nothing, Set.ncard_empty]

/-- A leaf of a row of trees has no children. -/
theorem Shows.children_eq_nil {row : List Slot} (shows : store.Shows scopes row []) : row = [] := by
  cases shows
  rfl

/-- Nothing hangs below what hangs below a leaf. -/
theorem Own.children_eq_nil {leaf slot : Slot} (own : store.Own scopes leaf slot)
    (empty : store.children leaf = []) : store.children slot = [] := by
  rcases ReflTransGen.cases_head own with rfl | ⟨next, ⟨member, -⟩, -⟩
  · exact empty
  · rw [empty] at member
    exact nomatch member

end Store

namespace Draft.Sketched

variable {draft : Draft} {scopes : List Slot} {outlines : Slot → Outline} {root : Slot}

/-- What is drawn inside the parentheses of a closed scope. -/
theorem exists_pair (sketched : draft.Sketched scopes outlines) (isScope : root ∈ scopes)
    (closed : (outlines root).closed = true) (parenthesized : (outlines root).kind ≠ .union) :
    ∃ left row right, draft.store.children root = left :: (row ++ [right]) ∧
      draft.store.payload left = .keyword .leftParen ∧ draft.store.children left = [] ∧
      draft.store.payload right = .keyword .rightParen ∧ draft.store.children right = [] ∧
      draft.store.Shows scopes row (outlines root).inner := by
  have shows := sketched.drawn.shows root isScope
  rw [Outline.trees_of_closed closed parenthesized] at shows
  obtain ⟨left, rest, children, opens, -, -, leftLeaf, shows⟩ := shows.uncons
  obtain ⟨row, back, rfl, shown, shows⟩ := shows.split
  obtain ⟨right, none, rfl, closes, -, -, rightLeaf, shows⟩ := shows.uncons
  obtain rfl := shows.children_eq_nil
  exact ⟨left, row, right, children, opens, leftLeaf.children_eq_nil, closes,
    rightLeaf.children_eq_nil, shown⟩

/-- **The closed scopes of a drawn draft stand in parentheses**, branches of unions apart. -/
theorem parenthesized (sketched : draft.Sketched scopes outlines) {roots : Finset Slot}
    (enclosed : ∀ root, root ∈ roots ↔
      root ∈ scopes ∧ (outlines root).closed = true ∧ (outlines root).kind ≠ .union) :
    draft.store.Parenthesized roots where
  pair root isRoot := by
    obtain ⟨isScope, closed, kind⟩ := (enclosed root).mp isRoot
    obtain ⟨left, row, right, children, opens, leftLeaf, closes, rightLeaf, shown⟩ :=
      sketched.exists_pair isScope closed kind
    refine ⟨left, row, right, children, ?_, leftLeaf, ?_, rightLeaf, ?_⟩
    · rw [opens]
      rfl
    · rw [closes]
      rfl
    · exact (shown.paren?_eq_none (Outline.plain_inner _) sketched.drawn.blank).1
  bare parent outside child member := by
    obtain ⟨root, isScope, own⟩ := sketched.drawn.exists_own sketched.root_mem
      (sketched.drawn.forest.inUse_parent member)
    by_cases isRoot : root ∈ roots
    · obtain ⟨-, closed, kind⟩ := (enclosed root).mp isRoot
      obtain ⟨left, row, right, children, -, leftLeaf, -, rightLeaf, shown⟩ :=
        sketched.exists_pair isScope closed kind
      rcases ReflTransGen.cases_head own with rfl | ⟨next, ⟨inRow, foreign⟩, further⟩
      · exact absurd isRoot outside
      · rw [children] at inRow
        rcases List.mem_cons.mp inRow with rfl | inRow
        · rw [Store.Own.children_eq_nil further leftLeaf] at member
          exact nomatch member
        · rcases List.mem_append.mp inRow with inRow | last
          · exact (shown.paren?_eq_none (Outline.plain_inner _) sketched.drawn.blank).2 next inRow
              foreign parent further child member
          · obtain rfl := List.mem_singleton.mp last
            rw [Store.Own.children_eq_nil further rightLeaf] at member
            exact nomatch member
    · have trees : (outlines root).trees = (outlines root).inner := by
        refine if_neg fun parenthesized => isRoot ?_
        exact (enclosed root).mpr ⟨isScope, parenthesized⟩
      have shows := sketched.drawn.shows root isScope
      rw [trees] at shows
      obtain ⟨marks, deeper⟩ := shows.paren?_eq_none (Outline.plain_inner _) sketched.drawn.blank
      rcases ReflTransGen.cases_head own with rfl | ⟨next, ⟨inRow, foreign⟩, further⟩
      · exact marks child member
      · exact deeper next inRow foreign parent further child member

end Draft.Sketched

namespace Story

/-- The scopes that were closed and are no branches of unions. -/
def enclosed (story : Story) : Finset Slot :=
  (((Event.openings story.events).filter fun opening =>
    opening.2 ≠ .union ∧ opening.1 ∉ story.draft.opens.map Scope.root).map Prod.fst).toFinset

/-- **The parentheses of a walk are those of the closed scopes, and they balance.** -/
structure WellNested (story : Story) (walk : List Slot) : Prop where
  /-- The walk goes along the links from the node of the statement. -/
  visits : story.draft.store.Visits (some story.draft.root) walk
  balanced : ∃ word : DyckWord, story.draft.store.parens walk = word.toList
  /-- The first and the last child of a closed scope are its parentheses. -/
  pair : ∀ root ∈ story.enclosed, root ∈ walk ∧ ∃ left row right,
    story.draft.store.children root = left :: (row ++ [right]) ∧
      story.draft.store.payload left = .keyword .leftParen ∧
      story.draft.store.payload right = .keyword .rightParen ∧
      ∀ slot ∈ row, (story.draft.store.payload slot).paren? = none
  /-- No other node has parentheses as children. -/
  bare : ∀ parent ∉ story.enclosed, ∀ slot ∈ story.draft.store.children parent,
    (story.draft.store.payload slot).paren? = none
  count : (story.draft.store.parens walk).count U = story.enclosed.card
  /-- Before any other node as many are open as there are closed scopes that it is inside of. -/
  nesting : ∀ before slot after, walk = before ++ slot :: after →
    (story.draft.store.payload slot).paren? = none →
      (story.draft.store.parens before).count U = (story.draft.store.parens before).count D +
        {root | root ∈ story.enclosed ∧ story.draft.store.Below root slot}.ncard

theorem mem_enclosed {story : Story} {root : Slot} : root ∈ story.enclosed ↔
    ∃ kind, (root, kind) ∈ Event.openings story.events ∧ kind ≠ .union ∧
      root ∉ story.draft.opens.map Scope.root := by
  unfold enclosed
  rw [List.mem_toFinset, List.mem_map]
  constructor
  · rintro ⟨⟨found, kind⟩, member, rfl⟩
    obtain ⟨opened, closed⟩ := List.mem_filter.mp member
    exact ⟨kind, opened, of_decide_eq_true closed⟩
  · rintro ⟨kind, opened, closed⟩
    exact ⟨(root, kind), List.mem_filter.mpr ⟨opened, decide_eq_true closed⟩, rfl⟩

/-- A scope is closed in its outline when it is not open any more. -/
theorem Kept.mem_enclosed_iff {story : Story} {scopes : List Slot} {outlines : Slot → Outline}
    (kept : story.Kept scopes outlines) (root : Slot) : root ∈ story.enclosed ↔
      root ∈ scopes ∧ (outlines root).closed = true ∧ (outlines root).kind ≠ .union := by
  rw [mem_enclosed]
  constructor
  · rintro ⟨kind, opened, notUnion, away⟩
    obtain ⟨isScope, rfl⟩ := kept.mem_openings.mp opened
    exact ⟨isScope, (kept.sketched.closed root isScope away).closed, notUnion⟩
  · rintro ⟨isScope, closed, notUnion⟩
    refine ⟨_, kept.mem_openings.mpr ⟨isScope, rfl⟩, notUnion, fun isOpen => ?_⟩
    obtain ⟨scope, member, rfl⟩ := List.mem_map.mp isOpen
    exact absurd ((kept.sketched.held scope member).opened.symm.trans closed) Bool.false_ne_true

/-- **The parentheses of every draft balance.** After any moves the walk that writes the text meets
one pair for each scope that was closed and is no branch of a union, and none for other scopes, and
each other node stands inside as many pairs as there are such scopes that it is inside of. -/
theorem parentheses_balance (settings : Settings) (moves : List Move) :
    ∃ walk, (after settings moves).WellNested walk := by
  obtain ⟨scopes, outlines, kept⟩ := kept_after settings moves
  have sketched := kept.sketched
  have drawn := sketched.drawn
  have isScope := sketched.root_mem
  have parenthesized := sketched.parenthesized kept.mem_enclosed_iff
  have atTop : (after settings moves).draft.store.nesting (after settings moves).enclosed
      (after settings moves).draft.root = 0 := drawn.nesting_base _
  have levels : (after settings moves).draft.store.Levels (after settings moves).enclosed 0
      ((after settings moves).draft.root ::
        (after settings moves).draft.store.below (after settings moves).draft.root) := by
    have below := parenthesized.levels_below drawn.forest (after settings moves).draft.root
    rw [atTop] at below
    refine .node ?_ atTop below
    rw [drawn.blank _ isScope]
    rfl
  refine ⟨_, drawn.visits, levels.exists_word, fun root isRoot => ?_, parenthesized.bare, ?_, ?_⟩
  · obtain ⟨isScope, closed, kind⟩ := (kept.mem_enclosed_iff root).mp isRoot
    obtain ⟨left, row, right, children, opens, -, closes, -, shown⟩ :=
      sketched.exists_pair isScope closed kind
    exact ⟨(drawn.mem_walk root).mpr (drawn.inUse root isScope), left, row, right, children, opens,
      closes, (shown.paren?_eq_none (Outline.plain_inner _) drawn.blank).1⟩
  · refine parenthesized.count_eq_card drawn.forest drawn.walk_nodup ?_ ?_
    · exact fun root _ child member =>
        (drawn.mem_walk child).mpr (drawn.forest.inUse_child root child member)
    · intro slot member paren
      have reaches := (drawn.inUse_iff_reaches slot).mp ((drawn.mem_walk slot).mp member)
      rcases ReflTransGen.cases_tail reaches with rfl | ⟨parent, -, child⟩
      · rw [drawn.blank _ isScope] at paren
        exact nomatch paren
      · exact ⟨parent, child⟩
  · intro before slot after split plain
    have count := levels.count_add_eq split plain
    rwa [Nat.add_zero] at count

end Story

end SqlDraft
