/-
**Conditions in the text of a draft.**

The conditions that landed in one place stand there in the order of the calls, whatever else was
called between them, and the text of the place is its word and the words of the conditions:

* `Draft.place?`: the node that the conditions of a place stand below.
* `Draft.wordsAt`: the words of a place, with the conditions that landed there.
* `Story.conditions_in_order`: the text of a place is its words, once the scopes in its conditions
  are closed.
-/

import SqlDraft.Proofs.Run.ClauseOrder
import SqlDraft.Proofs.Run.OneTree
import SqlDraft.Proofs.Text.Rows

namespace SqlDraft

/-! ### Places and their words -/

namespace Draft

/-- The node that the conditions of a place stand below. -/
def place? (draft : Draft) : Spot → Option Slot
  | .group root => some root
  | .filters root => draft.store.childWith? root .whereClause
  | .havings root => draft.store.childWith? root .having
  | .join slot => draft.store.childWith? slot .joinOn

/-- The text of a node and what hangs below it. -/
def textAt (draft : Draft) (dialect : Dialect) (slot : Slot) : String :=
  Line.ofPayloads dialect (draft.store.payload slot :: draft.store.payloadsBelow slot)

/-- The text of what stands in a scope. -/
def textInside (draft : Draft) (dialect : Dialect) (root : Slot) : String :=
  Line.ofPayloads dialect (draft.store.payloadsBelow root)

/-- The words of a place: that of its clause, and the conditions. A group has no word of its own,
and its parentheses once it is closed. -/
def wordsAt (draft : Draft) (dialect : Dialect) (spot : Spot) (landings : List Landing) :
    List String :=
  let row := Landing.row dialect (draft.textInside dialect) landings
  match spot with
  | .group root => if root ∈ draft.opens.map Scope.root then row else "(" :: (row ++ [")"])
  | .filters _ => "WHERE" :: row
  | .havings _ => "HAVING" :: row
  | .join _ => "ON" :: row

end Draft

/-! ### What stands in a place -/

namespace Store

variable {store : Store} {base root slot : Slot} {scopes : List Slot} {rows : Slot → List Tree}

theorem Forest.infix_of_child (forest : store.Forest) (member : slot ∈ store.children root) :
    store.payload slot :: store.payloadsBelow slot <:+: store.payloadsBelow root := by
  obtain ⟨front, back, split⟩ := List.append_of_mem member
  rw [forest.payloadsBelow_eq_flatMap root, split, List.flatMap_append, List.flatMap_cons]
  exact ⟨_, _, List.append_assoc _ _ _⟩

/-- What hangs below a node stands together in what hangs below a node above it. -/
theorem Forest.infix_of_below (forest : store.Forest) (hangs : store.Below root slot) :
    store.payload slot :: store.payloadsBelow slot <:+: store.payloadsBelow root := by
  induction hangs using Relation.TransGen.head_induction_on with
  | single member => exact forest.infix_of_child member
  | head member _ step =>
    exact step.trans ((List.suffix_cons _ _).isInfix.trans (forest.infix_of_child member))

theorem Drawn.payloadsBelow_eq (drawn : store.Drawn base scopes rows) {below : List Tree}
    (shows : store.Shows scopes (store.children slot) below) :
    store.payloadsBelow slot = Tree.payloads store.payloadsBelow below := by
  rw [drawn.forest.payloadsBelow_eq_flatMap]
  exact shows.payloads_eq drawn.forest drawn.blank

/-- A node in use hangs below the top node unless it is that one. -/
theorem Drawn.below_base (drawn : store.Drawn base scopes rows) (inUse : store.InUse slot)
    (different : slot ≠ base) : store.Below base slot := by
  rcases Relation.reflTransGen_iff_eq_or_transGen.mp ((drawn.inUse_iff_reaches slot).mp inUse) with
    same | hangs
  · exact absurd same different
  · exact hangs

end Store

namespace Outline

variable {outline : Outline} {rank : Nat} {tree : Tree} {word : Keyword}

/-- No clause but the only one of its rank has its tag. -/
theorem exists_split (plain : outline.kind ≠ .group) (inside : rank < 9)
    (row : outline.row rank = [tree]) (ranked : word.rank? = some rank) :
    ∃ before after, outline.trees = before ++ tree :: after ∧
      ∀ other ∈ before, other.head ≠ .keyword word := by
  have earlier : ∀ other ∈ outline.before rank, other.head ≠ .keyword word := by
    intro other member same
    obtain ⟨found, less, inRow⟩ := List.mem_flatMap.mp member
    obtain ⟨stamp, -, head, rankedToo⟩ := stamp?_of_mem_row inRow
    rw [head, same] at rankedToo
    exact (List.mem_range.mp less).ne (Option.some.inj (rankedToo.symm.trans ranked))
  have inner : outline.inner = outline.before rank ++ tree :: outline.behind rank := by
    unfold inner
    rw [if_neg plain, outline.clauses_eq_append inside, row]
    rfl
  unfold trees
  rw [inner]
  split
  · refine ⟨.leaf (.keyword .leftParen) :: outline.before rank,
      outline.behind rank ++ [.leaf (.keyword .rightParen)], by simp, fun other member => ?_⟩
    rcases List.mem_cons.mp member with rfl | further
    · intro same
      rw [← Payload.keyword.inj same] at ranked
      exact nomatch ranked
    · exact earlier other further
  · exact ⟨_, _, rfl, earlier⟩

end Outline

/-! ### Where the conditions stand -/

/-- The tags before the conditions of a place and behind them. -/
def Draft.tagsAround (draft : Draft) : Spot → List Keyword × List Keyword
  | .group root =>
    if root ∈ draft.opens.map Scope.root then ([.blank], [])
    else ([.blank, .leftParen], [.rightParen])
  | .filters _ => ([.whereClause], [])
  | .havings _ => ([.having], [])
  | .join _ => ([.joinOn], [])

theorem Draft.tagsAround_of_open {draft : Draft} {root : Slot}
    (isOpen : root ∈ draft.opens.map Scope.root) :
    draft.tagsAround (.group root) = ([.blank], []) :=
  if_pos isOpen

theorem Draft.tagsAround_of_closed {draft : Draft} {root : Slot}
    (away : root ∉ draft.opens.map Scope.root) :
    draft.tagsAround (.group root) = ([.blank, .leftParen], [.rightParen]) :=
  if_neg away

/-- A node below the statement holds these conditions of a place, and nothing else. -/
structure Draft.Holds (draft : Draft) (spot : Spot) (items : List Item) (place : Slot) : Prop where
  found : draft.place? spot = some place
  inUse : draft.store.InUse place
  ne_root : place ≠ draft.root
  payloads : draft.store.payload place :: draft.store.payloadsBelow place =
    (Item.piecesAround draft.store.payloadsBelow (draft.tagsAround spot).1
      (draft.tagsAround spot).2 items).flatten

namespace Draft.Sketched

variable {draft : Draft} {scopes : List Slot} {outlines : Slot → Outline} {root : Slot}

/-- The text of a node that stands alone stands in the text of the draft. -/
theorem text_infix (sketched : draft.Sketched scopes outlines) {slot : Slot}
    (inUse : draft.store.InUse slot) (different : slot ≠ draft.root) {dialect : Dialect}
    (alone : Line.Alone dialect (draft.store.payload slot :: draft.store.payloadsBelow slot)) :
    (draft.textAt dialect slot).toList <:+: (draft.textIn dialect).toList := by
  have hangs := sketched.drawn.below_base inUse different
  obtain ⟨front, back, whole⟩ := sketched.drawn.forest.infix_of_below hangs
  have inText := Line.ofPayloads_infix alone ((if draft.base.lacksProjection then
    [.keyword .select, .keyword .star] else []) ++ front) back
  rw [List.append_assoc, ← List.append_assoc front, whole] at inText
  exact inText

theorem holds_of_framed (sketched : draft.Sketched scopes outlines) {spot : Spot} {place : Slot}
    {word : Keyword} {items : List Item} {context : Payload → List Tree → List Tree}
    (found : draft.place? spot = some place) (plain : place ∉ scopes)
    (framed : draft.store.Framed scopes root place (.keyword word) (Item.trees items) context)
    (tags : draft.tagsAround spot = ([word], [])) : draft.Holds spot items place where
  found := found
  inUse := framed.inUse
  ne_root same := plain (same ▸ sketched.root_mem)
  payloads := by
    rw [framed.payload_eq, sketched.drawn.payloadsBelow_eq framed.inside, tags,
      Item.flatten_piecesAround, List.map_nil, List.append_nil]
    rfl

/-- The conditions of a clause stand in the only clause with its tag. -/
theorem holds_clause (sketched : draft.Sketched scopes outlines) (isScope : root ∈ scopes)
    (plain : (outlines root).kind ≠ .group) {rank : Nat} {word : Keyword} (inside : rank < 9)
    (ranked : word.rank? = some rank) {clause : Option (Clause (List Item))}
    (row : (outlines root).row rank =
      clause.toList.map fun clause => clause.tree word (Item.trees clause.part))
    (filled : clause.elim [] Clause.part ≠ []) {spot : Spot}
    (place : draft.place? spot = draft.store.childWith? root word)
    (tags : draft.tagsAround spot = ([word], [])) :
    ∃ place, draft.Holds spot (clause.elim [] Clause.part) place := by
  cases clause with
  | none => exact absurd rfl filled
  | some clause =>
    obtain ⟨before, after, split, absent⟩ := Outline.exists_split plain inside row ranked
    have framed := sketched.drawn.framed isScope
    rw [split] at framed
    obtain ⟨child, found, -, away, deeper⟩ := framed.childWith?_eq_some sketched.drawn absent
    exact ⟨child, sketched.holds_of_framed (place.trans found) away deeper tags⟩

/-- The conditions of a join stand in the only child of the join with their tag. -/
theorem holds_joinOn (sketched : draft.Sketched scopes outlines) (isScope : root ∈ scopes)
    (plain : (outlines root).kind ≠ .group) {join : Clause Join}
    (member : join ∈ (outlines root).joins) (filled : join.part.items ≠ []) :
    ∃ place, draft.Holds (.join join.slot) join.part.items place := by
  unfold Join.items at filled ⊢
  cases said : join.part.conditions with
  | none =>
    rw [said] at filled
    exact absurd rfl filled
  | some clause =>
    have inRow : join.tree join.part.kind.keyword join.part.trees ∈ (outlines root).row 2 :=
      List.mem_map_of_mem member
    obtain ⟨before, after, split⟩ :=
      List.append_of_mem (Outline.mem_trees plain (show 2 < 9 by decide) inRow)
    obtain ⟨-, -, framed⟩ := sketched.drawn.framedAt isScope split
    rw [Join.trees_of_some said] at framed
    obtain ⟨child, found, -, away, deeper⟩ :=
      framed.childWith?_eq_some sketched.drawn join.part.head_ne_joinOn
    exact ⟨child, sketched.holds_of_framed found away deeper rfl⟩

/-- What stands in a closed scope is in parentheses, unless the scope is a branch of a union. -/
theorem payloadsBelow_closed (sketched : draft.Sketched scopes outlines) (isScope : root ∈ scopes)
    (away : root ∉ draft.opens.map Scope.root) (kind : (outlines root).kind ≠ .union) :
    draft.store.payloadsBelow root = .keyword .leftParen ::
      (Tree.payloads draft.store.payloadsBelow (outlines root).inner ++ [.keyword .rightParen]) := by
  have trees := Outline.trees_of_closed (sketched.closed root isScope away).closed kind
  rw [sketched.drawn.payloadsBelow_eq (sketched.drawn.shows root isScope), trees,
    Tree.payloads_leaf, Tree.payloads_append, Tree.payloads_leaf, Tree.payloads_nil]

theorem holds_group (sketched : draft.Sketched scopes outlines) (isScope : root ∈ scopes)
    (group : (outlines root).kind = .group) :
    draft.Holds (.group root) (outlines root).members root := by
  have drawn := sketched.drawn
  refine ⟨rfl, drawn.inUse root isScope, fun same => ?_, ?_⟩
  · subst same
    have kind : draft.base.kind = .group := sketched.heldBase.kind.symm.trans group
    rw [sketched.statement] at kind
    exact nomatch kind
  · rw [drawn.blank root isScope]
    by_cases isOpen : root ∈ draft.opens.map Scope.root
    · have trees := Outline.trees_eq_members (sketched.not_closed isOpen) group
      rw [drawn.payloadsBelow_eq (drawn.shows root isScope), Draft.tagsAround_of_open isOpen, trees,
        Item.flatten_piecesAround, List.map_nil, List.append_nil]
      rfl
    · have parenthesized : (outlines root).kind ≠ .union := by simp [group]
      rw [sketched.payloadsBelow_closed isScope isOpen parenthesized,
        Draft.tagsAround_of_closed isOpen, Outline.inner_eq_members group,
        Item.flatten_piecesAround]
      rfl

end Draft.Sketched

namespace Story.Kept

variable {story : Story} {scopes : List Slot} {outlines : Slot → Outline} {root : Slot}

/-- A scope in which conditions landed was opened. -/
theorem isScope_of_landed (kept : story.Kept scopes outlines) {events : Report → List Landing}
    (landed : ∀ kind, events (Event.report story.events root kind) ≠ [])
    (silent : events (.silent .statement) = []) : root ∈ scopes := by
  by_contra away
  have nothing := kept.recorded.unknown root away .statement
  rw [← nothing] at silent
  exact landed .statement silent

theorem exists_filters (kept : story.Kept scopes outlines)
    (landed : Event.landings story.events (.filters root) ≠ []) :
    ∃ items place, items.map Item.landing = Event.landings story.events (.filters root) ∧
      story.draft.Holds (.filters root) items place := by
  have isScope : root ∈ scopes :=
    @isScope_of_landed _ _ _ _ kept Report.filters (fun _ => landed) rfl
  have said : ((outlines root).items .filters).map Item.landing =
      Event.landings story.events (.filters root) :=
    congrArg Report.filters (kept.recorded.report root isScope)
  have plain : (outlines root).kind ≠ .group := fun group =>
    landed (said ▸ ((kept.recorded.fits root isScope).bare group).1)
  rw [← said] at landed
  have found : story.draft.place? (.filters root) =
      story.draft.store.childWith? root .whereClause := rfl
  obtain ⟨place, holds⟩ := kept.sketched.holds_clause isScope plain (show 3 < 9 by decide) rfl rfl
    (fun none => landed (congrArg _ none)) found rfl
  exact ⟨_, place, said, holds⟩

theorem exists_havings (kept : story.Kept scopes outlines)
    (landed : Event.landings story.events (.havings root) ≠ []) :
    ∃ items place, items.map Item.landing = Event.landings story.events (.havings root) ∧
      story.draft.Holds (.havings root) items place := by
  have isScope : root ∈ scopes :=
    @isScope_of_landed _ _ _ _ kept Report.havings (fun _ => landed) rfl
  have said : ((outlines root).items .havings).map Item.landing =
      Event.landings story.events (.havings root) :=
    congrArg Report.havings (kept.recorded.report root isScope)
  have plain : (outlines root).kind ≠ .group := fun group =>
    landed (said ▸ ((kept.recorded.fits root isScope).bare group).2.1)
  rw [← said] at landed
  have found : story.draft.place? (.havings root) =
      story.draft.store.childWith? root .having := rfl
  obtain ⟨place, holds⟩ := kept.sketched.holds_clause isScope plain (show 5 < 9 by decide) rfl rfl
    (fun none => landed (congrArg _ none)) found rfl
  exact ⟨_, place, said, holds⟩

theorem exists_members (kept : story.Kept scopes outlines)
    (landed : Event.landings story.events (.group root) ≠ []) :
    ∃ items place, items.map Item.landing = Event.landings story.events (.group root) ∧
      story.draft.Holds (.group root) items place := by
  have isScope : root ∈ scopes :=
    @isScope_of_landed _ _ _ _ kept Report.members (fun _ => landed) rfl
  have said : (outlines root).members.map Item.landing =
      Event.landings story.events (.group root) :=
    congrArg Report.members (kept.recorded.report root isScope)
  have group : (outlines root).kind = .group := by
    by_contra plain
    exact landed (said ▸ (kept.recorded.fits root isScope).plain plain)
  exact ⟨_, root, said, kept.sketched.holds_group isScope group⟩

/-- The conditions of a join are those that landed there. -/
theorem landings_join (kept : story.Kept scopes outlines) (isScope : root ∈ scopes)
    {join : Clause Join} (member : join ∈ (outlines root).joins) :
    join.part.items.map Item.landing = Event.landings story.events (.join join.slot) := by
  have inReport : (join.slot, join.part.kind, join.part.items.map Item.landing) ∈
      (outlines root).report.joins := List.mem_map.mpr ⟨join, member, rfl⟩
  rw [kept.recorded.report root isScope] at inReport
  obtain ⟨other, -, same⟩ := List.mem_map.mp inReport
  obtain ⟨sameSlot, sameRest⟩ := Prod.mk.inj same
  rw [← sameSlot]
  exact (Prod.mk.inj sameRest).2.symm

theorem exists_joinOn (kept : story.Kept scopes outlines) {slot : Slot}
    (landed : Event.landings story.events (.join slot) ≠ []) :
    ∃ items place, items.map Item.landing = Event.landings story.events (.join slot) ∧
      story.draft.Holds (.join slot) items place := by
  obtain ⟨root, isScope, member⟩ : ∃ root ∈ scopes, slot ∈ (outlines root).report.joinSlots := by
    by_contra nowhere
    refine landed (kept.recorded.unjoined slot fun root isScope member => nowhere ?_)
    exact ⟨root, isScope, member⟩
  have plain : (outlines root).kind ≠ .group := by
    intro group
    have none := ((kept.recorded.fits root isScope).bare group).2.2
    unfold Report.joinSlots at member
    rw [none] at member
    exact absurd member List.not_mem_nil
  rw [Outline.joinSlots_report] at member
  obtain ⟨join, isJoin, rfl⟩ := List.mem_map.mp member
  have said := kept.landings_join isScope isJoin
  have filled : join.part.items ≠ [] := by
    intro none
    rw [← said, none] at landed
    exact landed rfl
  obtain ⟨place, holds⟩ := kept.sketched.holds_joinOn isScope plain isJoin filled
  exact ⟨_, place, said, holds⟩

/-- **The conditions that landed in a place stand there**, in the order of the calls. -/
theorem exists_place (kept : story.Kept scopes outlines) {spot : Spot}
    (landed : Event.landings story.events spot ≠ []) :
    ∃ items place, items.map Item.landing = Event.landings story.events spot ∧
      story.draft.Holds spot items place := by
  cases spot with
  | group root => exact kept.exists_members landed
  | filters root => exact kept.exists_filters landed
  | havings root => exact kept.exists_havings landed
  | join slot => exact kept.exists_joinOn landed

/-- The scope of a condition is one of the scopes, and no branch of a union. -/
theorem isScope_of_nested (kept : story.Kept scopes outlines) (paired : Event.Paired story.events)
    {spot : Spot} {landing : Landing} (landed : landing ∈ Event.landings story.events spot)
    {nested : NestedCondition} (said : landing.content = .scope nested root) :
    root ∈ scopes ∧ (outlines root).kind ≠ .union := by
  obtain ⟨logic, content⟩ := landing
  obtain rfl : content = .scope nested root := said
  have opened := paired spot logic nested root (Event.mem_landings.mp landed)
  obtain ⟨isScope, kind⟩ := kept.mem_openings.mp opened
  refine ⟨isScope, fun isUnion => ?_⟩
  have union : nested.kind = .union := kind.symm.trans isUnion
  cases nested <;> exact nomatch union

end Story.Kept

namespace Draft

/-- The tags around the conditions of a place are written as the words around them. -/
theorem words_tagsAround (draft : Draft) (dialect : Dialect) (spot : Spot)
    (landings : List Landing) :
    ((draft.tagsAround spot).1.map (Keyword.text dialect) ++
      (Landing.row dialect (draft.textInside dialect) landings ++
        (draft.tagsAround spot).2.map (Keyword.text dialect))).filter (· ≠ "") =
      (draft.wordsAt dialect spot landings).filter (· ≠ "") := by
  cases spot with
  | filters root | havings root | join slot =>
    rw [show (draft.tagsAround _).2 = [] from rfl, List.map_nil, List.append_nil]
    rfl
  | group root =>
    by_cases isOpen : root ∈ draft.opens.map Scope.root
    · have words : draft.wordsAt dialect (.group root) landings =
          Landing.row dialect (draft.textInside dialect) landings := if_pos isOpen
      rw [tagsAround_of_open isOpen, words, List.map_nil, List.append_nil]
      rfl
    · have words : draft.wordsAt dialect (.group root) landings =
          "(" :: (Landing.row dialect (draft.textInside dialect) landings ++ [")"]) := if_neg isOpen
      rw [tagsAround_of_closed isOpen, words]
      rfl

theorem comma_not_mem_tagsAround (draft : Draft) (spot : Spot) :
    .comma ∉ (draft.tagsAround spot).1 ++ (draft.tagsAround spot).2 := by
  cases spot with
  | filters root | havings root | join slot =>
    show Keyword.comma ∉ [_]
    decide
  | group root =>
    by_cases isOpen : root ∈ draft.opens.map Scope.root
    · rw [tagsAround_of_open isOpen]
      decide
    · rw [tagsAround_of_closed isOpen]
      decide

end Draft

namespace Story

/-- **Conditions stand in the order of the calls.** After any moves, the conditions that landed in a
place since the draft was last started over stand there, once the scopes in them are closed: the
text of the place is its word, and the words of the conditions in the order of the calls, and it
stands in the text of the draft. A scope in a condition is in parentheses. -/
theorem conditions_in_order (settings : Settings) (moves : List Move) (dialect : Dialect)
    {spot : Spot} (landed : Event.landings (after settings moves).events spot ≠ [])
    (returned : ∀ landing ∈ Event.landings (after settings moves).events spot, ∀ nested root,
      landing.content = .scope nested root →
        root ∉ (after settings moves).draft.opens.map Scope.root) :
    ∃ place, (after settings moves).draft.place? spot = some place ∧
      (after settings moves).draft.textAt dialect place =
        Condition.spaced (((after settings moves).draft.wordsAt dialect spot
          (Event.landings (after settings moves).events spot)).filter (· ≠ "")) ∧
      ((after settings moves).draft.textAt dialect place).toList <:+:
        ((after settings moves).draft.textIn dialect).toList ∧
      ∀ landing ∈ Event.landings (after settings moves).events spot, ∀ nested root,
        landing.content = .scope nested root → ∃ inside,
          (after settings moves).draft.store.payloadsBelow root =
            .keyword .leftParen :: (inside ++ [.keyword .rightParen]) := by
  obtain ⟨scopes, outlines, kept⟩ := kept_after settings moves
  obtain ⟨items, place, said, holds⟩ := kept.exists_place landed
  have parenthesized : ∀ landing ∈ Event.landings (after settings moves).events spot,
      ∀ nested root, landing.content = .scope nested root → ∃ inside,
        (after settings moves).draft.store.payloadsBelow root =
          .keyword .leftParen :: (inside ++ [.keyword .rightParen]) := by
    intro landing member nested root isScope
    obtain ⟨known, kind⟩ := kept.isScope_of_nested (paired_after settings moves) member isScope
    have away := returned landing member nested root isScope
    exact ⟨_, kept.sketched.payloadsBelow_closed known away kind⟩
  have enclosed : Item.Enclosed (after settings moves).draft.store.payloadsBelow items := by
    intro item member nested root isScope
    obtain ⟨inside, opens⟩ := parenthesized item.landing (said ▸ List.mem_map_of_mem member) nested
      root isScope
    exact ⟨_, opens⟩
  have plain := (after settings moves).draft.comma_not_mem_tagsAround spot
  refine ⟨place, holds.found, ?_, ?_, parenthesized⟩
  · unfold Draft.textAt
    rw [holds.payloads, Item.text_piecesAround enclosed plain, said]
    exact congrArg Condition.spaced (Draft.words_tagsAround _ dialect spot _)
  · have alone := @Line.alone_flatten dialect _ (Item.alone_piecesAround enclosed plain)
    rw [← holds.payloads] at alone
    exact kept.sketched.text_infix holds.inUse holds.ne_root alone

/-- A condition that comes first needs no `OR`, and a negated group behind it has its own `NOT`. -/
theorem conditions_in_order_group :
    ∃ place, (after Settings.standard [.edit (.restrict .whereClause .or (.verbatim "a = 1")),
        .enter (.condition .whereClause .andNot .group),
        .edit (.restrict .having .and (.verbatim "b = 2")), .close]).draft.place? (.filters 0) =
          some place ∧
      (after Settings.standard [.edit (.restrict .whereClause .or (.verbatim "a = 1")),
        .enter (.condition .whereClause .andNot .group),
        .edit (.restrict .having .and (.verbatim "b = 2")), .close]).draft.textAt .postgres place =
          "WHERE a = 1 AND NOT ( b = 2 )" := by
  have landings : Event.landings (after Settings.standard
      [.edit (.restrict .whereClause .or (.verbatim "a = 1")),
        .enter (.condition .whereClause .andNot .group),
        .edit (.restrict .having .and (.verbatim "b = 2")), .close]).events (.filters 0) =
      [⟨.or, .leaf "a = 1"⟩, ⟨.andNot, .scope .group 6⟩] := rfl
  have landed : Event.landings (after Settings.standard
      [.edit (.restrict .whereClause .or (.verbatim "a = 1")),
        .enter (.condition .whereClause .andNot .group),
        .edit (.restrict .having .and (.verbatim "b = 2")), .close]).events (.filters 0) ≠ [] := by
    rw [landings]
    exact List.cons_ne_nil _ _
  obtain ⟨place, found, text, -⟩ := conditions_in_order _ _ .postgres landed fun landing member
      nested root said => by
    rw [landings] at member
    rcases List.mem_cons.mp member with rfl | further
    · exact nomatch said
    · obtain rfl := List.mem_singleton.mp further
      obtain ⟨-, rfl⟩ := Content.scope.inj said
      decide
  refine ⟨place, found, text.trans ?_⟩
  rw [landings]
  rfl

end Story

end SqlDraft
