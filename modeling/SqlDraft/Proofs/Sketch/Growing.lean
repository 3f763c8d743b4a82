/-
**Lists that grow in a drawing.**

What stands last below a node is added there, so a node that is followed through several additions
stays at its place:

* `Store.Framed.addChild`, `Store.Framed.addScope`: one more leaf or scope below a node.
* `Store.Framed.childWith?_eq_some`: the search for a child by its tag.
* `Store.Framed.pushColumns`: more columns of a list, with commas between them.
-/

import SqlDraft.Proofs.Sketch.Sketched

namespace SqlDraft

/-- The payload of the root of a tree. -/
def Tree.head : Tree → Payload
  | node _ payload _ => payload
  | scope _ => .blank

namespace Store

variable {store : Store} {scopes : List Slot} {rows : Slot → List Tree} {base root slot : Slot}
  {payload : Payload} {below : List Tree} {context : Payload → List Tree → List Tree}

/-- A row has the payloads of its trees. -/
theorem Shows.map_payload {row : List Slot} {trees : List Tree}
    (shows : store.Shows scopes row trees) (blank : ∀ root ∈ scopes, store.payload root = .blank) :
    row.map store.payload = trees.map Tree.head := by
  induction shows with
  | nil => rfl
  | scope isScope _ step => rw [List.map_cons, List.map_cons, step, blank _ isScope, Tree.head]
  | node _ _ _ _ _ step => rw [List.map_cons, List.map_cons, step, Tree.head]

namespace Framed

/-! ### One more child -/

/-- **One more leaf below a node.** -/
theorem addChild (framed : store.Framed scopes root slot payload below context)
    (drawn : store.Drawn base scopes rows) (isScope : root ∈ scopes) (content : Payload)
    (mark : Option Slot) (marked : ∀ known ∈ mark, store.fresh = known) :
    (store.addChild slot content).Drawn base scopes
        (Function.update rows root (context payload (below ++ [.node mark content []]))) ∧
      (store.addChild slot content).Framed scopes root slot payload
        (below ++ [.node mark content []]) context := by
  have grown := grown_addChild drawn.forest framed.inUse content
  have length := framed.inside.length_eq
  have plain : store.fresh ∉ scopes := fun member =>
    store.fresh_not_inUse (drawn.inUse _ member)
  rw [← List.append_nil below] at framed
  exact ⟨drawn.grow isScope framed grown length mark marked,
    framed.grow drawn.forest (sameScopes_refl store scopes) grown length
      (grown.leaf drawn.forest plain marked)⟩

/-- **From a node to a leaf that was just added.** -/
theorem newChild (framed : store.Framed scopes root slot payload below context)
    (drawn : store.Drawn base scopes rows) (isScope : root ∈ scopes) (content : Payload)
    (mark : Option Slot) (marked : ∀ known ∈ mark, store.fresh = known) :
    (store.addChild slot content).Drawn base scopes
        (Function.update rows root (context payload (below ++ [.node mark content []]))) ∧
      (store.addChild slot content).Framed scopes root store.fresh content []
        fun content row => context payload (below ++ [.node mark content row]) := by
  have grown := grown_addChild drawn.forest framed.inUse content
  have length := framed.inside.length_eq
  obtain ⟨added, framedAdded⟩ := framed.addChild drawn isScope content mark marked
  obtain ⟨front, child, back, row, frontLength, -, -, -, deeper⟩ := framedAdded.child added.forest
  obtain ⟨-, same⟩ := List.append_inj (grown.children_parent.symm.trans row)
    (length.trans frontLength.symm)
  obtain ⟨rfl, -⟩ := List.cons.inj same
  exact ⟨added, deeper⟩

/-- **One more scope below a node.** -/
theorem addScope (framed : store.Framed scopes root slot payload below context)
    (drawn : store.Drawn base scopes rows) (isScope : root ∈ scopes) :
    (store.addChild slot .blank).Drawn base (store.fresh :: scopes)
        (Function.update (Function.update rows root
          (context payload (below ++ [.scope store.fresh]))) store.fresh []) ∧
      store.fresh ∈ Tree.scopes (context payload (below ++ [.scope store.fresh])) := by
  have grown := grown_addChild drawn.forest framed.inUse .blank
  have length := framed.inside.length_eq
  have own := grown.own_mono drawn.forest (sameScopes_fresh store scopes) framed.own
  rw [← List.append_nil below] at framed
  have added := drawn.growScope isScope framed grown length
  have shows := added.shows root (List.mem_cons_of_mem _ isScope)
  rw [Function.update_of_ne (drawn.inUse root isScope).ne_fresh, Function.update_self] at shows
  refine ⟨added, ?_⟩
  rcases Relation.ReflTransGen.cases_head own with rfl | ⟨next, ⟨member, plain⟩, further⟩
  · exact shows.mem_scopes_of_mem List.mem_cons_self grown.fresh_mem
  · exact shows.mem_scopes_of_own member plain further List.mem_cons_self grown.fresh_mem

/-! ### Reading children -/

theorem firstChild?_isSome (framed : store.Framed scopes root slot payload below context)
    (forest : store.Forest) : (store.firstChild? slot).isSome = !below.isEmpty := by
  have length := framed.inside.length_eq
  rw [forest.firstChild?_eq_head?]
  cases shown : store.children slot with
  | nil =>
    rw [shown] at length
    rw [List.length_eq_zero_iff.mp length.symm]
    rfl
  | cons first rest =>
    rw [shown] at length
    cases below with
    | nil => exact absurd length (by simp)
    | cons tree trees => rfl

/-- **From a node to its last child.** -/
theorem last {mark : Option Slot} {content : Payload} {front inner : List Tree}
    (framed : store.Framed scopes root slot payload (front ++ [.node mark content inner]) context)
    (forest : store.Forest) :
    ∃ child, store.lastChild? slot = some child ∧ (∀ known ∈ mark, child = known) ∧
      child ∉ scopes ∧ store.Framed scopes root child content inner
        fun content row => context payload (front ++ [.node mark content row]) := by
  obtain ⟨first, child, rest, split, -, length, marked, plain, deeper⟩ := framed.child forest
  obtain rfl := List.length_eq_zero_iff.mp length
  refine ⟨child, ?_, marked, plain, deeper⟩
  unfold lastChild?
  rw [split, List.getLast?_append, List.getLast?_singleton, Option.some_or]

theorem childWith?_eq_none (framed : store.Framed scopes root slot payload below context)
    (drawn : store.Drawn base scopes rows) {word : Keyword}
    (absent : ∀ tree ∈ below, tree.head ≠ .keyword word) : store.childWith? slot word = none := by
  refine List.find?_eq_none.mpr fun child member found => ?_
  have shown := List.mem_map_of_mem (f := store.payload) member
  rw [framed.inside.map_payload drawn.blank] at shown
  obtain ⟨tree, inRow, same⟩ := List.mem_map.mp shown
  exact absent tree inRow (same.trans (of_decide_eq_true found))

/-- **From a node to its first child with a tag.** -/
theorem childWith?_eq_some {mark : Option Slot} {word : Keyword} {before inner after : List Tree}
    (framed : store.Framed scopes root slot payload
      (before ++ .node mark (.keyword word) inner :: after) context)
    (drawn : store.Drawn base scopes rows)
    (absent : ∀ tree ∈ before, tree.head ≠ .keyword word) :
    ∃ child, store.childWith? slot word = some child ∧ (∀ known ∈ mark, child = known) ∧
      child ∉ scopes ∧ store.Framed scopes root child (.keyword word) inner
        fun content row => context payload (before ++ .node mark content row :: after) := by
  have shown := framed.inside.map_payload drawn.blank
  obtain ⟨front, child, back, row, length, -, marked, plain, deeper⟩ := framed.child drawn.forest
  rw [row, List.map_append, List.map_append] at shown
  have sameFront := (List.append_inj shown (by simp [length])).1
  refine ⟨child, ?_, marked, plain, deeper⟩
  unfold childWith?
  rw [row]
  refine List.find?_eq_some_iff_append.mpr ⟨?_, front, back, rfl, fun other member => ?_⟩
  · exact decide_eq_true deeper.payload_eq
  · have inFront := List.mem_map_of_mem (f := store.payload) member
    rw [sameFront] at inFront
    obtain ⟨tree, inBefore, same⟩ := List.mem_map.mp inFront
    have different : store.payload other ≠ .keyword word := same ▸ absent tree inBefore
    rw [Bool.not_eq_true', ← Bool.not_eq_true]
    exact fun found => different (of_decide_eq_true found)

/-! ### Columns -/

variable {Thing : Type} {trees : Thing → List Tree} (make : Slot → String → Thing)
  (mark : Slot → Option Slot)

/-- One more column of a list. -/
theorem pushColumn {things : List Thing}
    (framed : store.Framed scopes root slot payload (listed trees things) context)
    (drawn : store.Drawn base scopes rows) (isScope : root ∈ scopes)
    (nonempty : ∀ thing, trees thing ≠ [])
    (made : ∀ slot text, trees (make slot text) = [.node (mark slot) (.literal text) []])
    (marked : ∀ slot, ∀ known ∈ mark slot, slot = known) (text : String) :
    ∃ added, (store.pushColumn slot text).Drawn base scopes (Function.update rows root
        (context payload (listed trees (things ++ [make added text])))) ∧
      (store.pushColumn slot text).Framed scopes root slot payload
        (listed trees (things ++ [make added text])) context := by
  have some_ : (store.firstChild? slot).isSome = !things.isEmpty := by
    rw [framed.firstChild?_isSome drawn.forest]
    cases things with
    | nil => rfl
    | cons first rest =>
      have filled : (listed trees (first :: rest)).isEmpty = false := by
        rw [listed, List.isEmpty_eq_false_iff]
        exact List.append_ne_nil_of_left_ne_nil (nonempty first) _
      rw [filled]
      rfl
  unfold Store.pushColumn
  cases empty : things.isEmpty with
  | true =>
    rw [some_, empty, if_neg (by simp)]
    refine ⟨store.fresh, ?_⟩
    rw [listed_append, empty, made, if_pos rfl, List.nil_append]
    exact framed.addChild drawn isScope _ _ (marked store.fresh)
  | false =>
    rw [some_, empty, if_pos (by rfl)]
    obtain ⟨drawnComma, framedComma⟩ := framed.addChild drawn isScope (.keyword .comma) none
      (by simp)
    refine ⟨(store.addChild slot (.keyword .comma)).fresh, ?_⟩
    rw [listed_append, empty, made, if_neg (by simp), ← List.append_assoc]
    have added := framedComma.addChild drawnComma isScope (.literal text) _
      (marked (store.addChild slot (.keyword .comma)).fresh)
    rw [Function.update_idem] at added
    exact added

/-- **More columns of a list.** -/
theorem pushColumns (nonempty : ∀ thing, trees thing ≠ [])
    (made : ∀ slot text, trees (make slot text) = [.node (mark slot) (.literal text) []])
    (marked : ∀ slot, ∀ known ∈ mark slot, slot = known) (isScope : root ∈ scopes)
    (columns : List String) : ∀ {store : Store} {rows : Slot → List Tree} {things : List Thing},
    store.Framed scopes root slot payload (listed trees things) context →
    store.Drawn base scopes rows → rows root = context payload (listed trees things) →
    ∃ added, List.Forall₂ (fun text thing => ∃ at_, thing = make at_ text) columns added ∧
      (store.pushColumns slot columns).Drawn base scopes (Function.update rows root
        (context payload (listed trees (things ++ added)))) ∧
      (store.pushColumns slot columns).Framed scopes root slot payload
        (listed trees (things ++ added)) context := by
  induction columns with
  | nil =>
    intro store rows things framed drawn row
    refine ⟨[], List.Forall₂.nil, ?_⟩
    rw [List.append_nil, ← row, Function.update_eq_self]
    exact ⟨drawn, framed⟩
  | cons text rest step =>
    intro store rows things framed drawn _
    obtain ⟨first, drawnFirst, framedFirst⟩ :=
      framed.pushColumn make mark drawn isScope nonempty made marked text
    obtain ⟨added, each, drawnRest, framedRest⟩ := step framedFirst drawnFirst
      (Function.update_self _ _ _)
    refine ⟨make first text :: added, List.Forall₂.cons ⟨first, rfl⟩ each, ?_⟩
    rw [Function.update_idem, List.append_assoc] at drawnRest
    rw [List.append_assoc] at framedRest
    exact ⟨drawnRest, framedRest⟩

end Framed

/-- A node that is drawn with a mark stands at its place. -/
theorem Drawn.framedAt {known : Slot} {content : Payload} {before after : List Tree}
    (drawn : store.Drawn base scopes rows) (isScope : root ∈ scopes)
    (row : rows root = before ++ .node (some known) content below :: after) :
    known ∈ store.children root ∧ known ∉ scopes ∧
      store.Framed scopes root known content below
        fun content row => before ++ .node (some known) content row :: after := by
  have framed := drawn.framed isScope
  rw [row] at framed
  exact framed.marked drawn.forest

end Store

end SqlDraft
