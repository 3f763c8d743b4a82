/-
**Stores drawn as scopes with rows of trees.**

A drawing of a store lists the scopes in it and gives each of them a row of trees. Every change of
the store is one change of the row of one scope, at a place that is found by going down from its
root:

* `Store.Drawn`: a store is drawn by these rows.
* `Store.Framed`: a node shows a row, and stands at a known place in the row of its scope.
* `Store.Drawn.grow`, `Store.Drawn.growScope`, `Store.Drawn.retag`, `Store.Drawn.trim`: what a new
  leaf, a new scope, another payload and the loss of all children change in a drawing.
-/

import SqlDraft.Proofs.Sketch.Tree
import SqlDraft.Proofs.Store.Erasing
import SqlDraft.Proofs.Store.Growing

namespace SqlDraft.Store

open Relation

variable {store other : Store} {scopes newScopes : List Slot} {rows : Slot → List Tree}
  {base root slot : Slot}

/-- **A store is drawn by the rows of its scopes.** -/
structure Drawn (store : Store) (base : Slot) (scopes : List Slot) (rows : Slot → List Tree) :
    Prop where
  forest : store.Forest
  isTop_iff : ∀ top, store.IsTop top ↔ top = base
  loose : (store.node base).next = none
  inUse : ∀ root ∈ scopes, store.InUse root
  blank : ∀ root ∈ scopes, store.payload root = .blank
  shows : ∀ root ∈ scopes, store.Shows scopes (store.children root) (rows root)

/-- A node of a scope shows a payload and a row of trees, and these stand in the row of the scope
at a known place: the context turns a new payload and row of the node into the new row of the
scope. -/
structure Framed (store : Store) (scopes : List Slot) (root slot : Slot) (payload : Payload)
    (below : List Tree) (context : Payload → List Tree → List Tree) : Prop where
  inUse : store.InUse slot
  own : store.Own scopes root slot
  payload_eq : store.payload slot = payload
  inside : store.Shows scopes (store.children slot) below
  redraw : ∀ {other : Store} {newScopes : List Slot}, store.SameScopes scopes newScopes →
    (∀ found, store.InUse found → ¬ store.Own scopes slot found → store.Agree other found) →
    ∀ {row : List Tree}, other.Shows newScopes (other.children slot) row →
      other.Shows newScopes (other.children root) (context (other.payload slot) row)

/-! ### Finding a place -/

/-- A scope itself stands in its own row. -/
theorem Drawn.framed (drawn : store.Drawn base scopes rows) (isScope : root ∈ scopes) :
    store.Framed scopes root root .blank (rows root) fun _ row => row where
  inUse := drawn.inUse root isScope
  own := ReflTransGen.refl
  payload_eq := drawn.blank root isScope
  inside := drawn.shows root isScope
  redraw _ _ _ shows := shows

/-- **From a node to one of its children.** -/
theorem Framed.child {payload content : Payload} {context : Payload → List Tree → List Tree}
    {mark : Option Slot} {before below after : List Tree} (forest : store.Forest)
    (framed : store.Framed scopes root slot payload (before ++ .node mark content below :: after)
      context) :
    ∃ front child back, store.children slot = front ++ child :: back ∧
      front.length = before.length ∧ back.length = after.length ∧
      (∀ known ∈ mark, child = known) ∧ child ∉ scopes ∧
      store.Framed scopes root child content below
        fun content row => context payload (before ++ .node mark content row :: after) := by
  obtain ⟨front, rest, row, showsFront, showsRest⟩ := framed.inside.split
  cases showsRest with
  | @node child _ _ back _ plain marked inside showsBack =>
    have member : child ∈ store.children slot := by simp [row]
    refine ⟨front, child, back, row, showsFront.length_eq, showsBack.length_eq, marked, plain,
      forest.inUse_child slot child member, framed.own.trans (own_child member plain), rfl, inside,
      ?_⟩
    intro other newScopes same kept trees shows
    -- The node itself is above the child, and its other children are beside it.
    have apart := forest.apart_children slot
    have agree := kept slot framed.inUse fun own => forest.not_reaches_parent member own.reaches
    have outside : ∀ found, store.InUse found → ¬ store.Own scopes slot found →
        store.Agree other found := fun found inUse foreign => kept found inUse fun own =>
      foreign ((own_child member plain).trans own)
    have keeps : ∀ sibling ∈ store.children slot, sibling ≠ child → sibling ∉ scopes →
        ∀ found, store.Own scopes sibling found → store.Agree other found := by
      intro sibling inRow different _ found own
      refine kept found (forest.inUse_of_reaches own.reaches (forest.inUse_child _ _ inRow))
        fun ownToo => different ?_
      exact apart.eq_of_reaches sibling inRow child member found own.reaches ownToo.reaches
    have distinct := forest.children_nodup slot
    rw [row] at distinct
    have absent := (List.nodup_cons.mp (List.nodup_middle.mp distinct)).1
    rw [List.mem_append, not_or] at absent
    rw [← framed.payload_eq, ← agree.1]
    refine framed.redraw same outside ?_
    rw [agree.2, row]
    refine (showsFront.congr forest ?_ same ?_).append
      (Shows.node (fun isScope => plain ((same child (forest.inUse_child _ _ member)).mp isScope))
        marked shows (showsBack.congr forest ?_ same ?_))
    · exact fun sibling inFront => forest.inUse_child slot sibling (by simp [row, inFront])
    · refine fun sibling inFront => keeps sibling (by simp [row, inFront]) ?_
      rintro rfl
      exact absent.1 inFront
    · exact fun sibling inBack => forest.inUse_child slot sibling (by simp [row, inBack])
    · refine fun sibling inBack => keeps sibling (by simp [row, inBack]) ?_
      rintro rfl
      exact absent.2 inBack

/-- **From a node to its only child.** -/
theorem Framed.only {payload content : Payload} {context : Payload → List Tree → List Tree}
    {mark : Option Slot} {below : List Tree} (forest : store.Forest)
    (framed : store.Framed scopes root slot payload [.node mark content below] context) :
    ∃ child, store.children slot = [child] ∧ child ∉ scopes ∧
      store.Framed scopes root child content below
        fun content row => context payload [.node mark content row] := by
  rw [← List.nil_append [Tree.node mark content below]] at framed
  obtain ⟨front, child, back, row, frontLength, backLength, _, plain, deeper⟩ :=
    framed.child forest
  obtain rfl := List.length_eq_zero_iff.mp frontLength
  obtain rfl := List.length_eq_zero_iff.mp backLength
  exact ⟨child, row, plain, deeper⟩

/-- A child that is marked is found by its mark. -/
theorem Framed.marked {payload content : Payload} {context : Payload → List Tree → List Tree}
    {known : Slot} {before below after : List Tree} (forest : store.Forest)
    (framed : store.Framed scopes root slot payload
      (before ++ .node (some known) content below :: after) context) :
    known ∈ store.children slot ∧ known ∉ scopes ∧
      store.Framed scopes root known content below
        fun content row => context payload (before ++ .node (some known) content row :: after) := by
  obtain ⟨front, child, back, row, _, _, marked, plain, deeper⟩ := framed.child forest
  obtain rfl : child = known := marked known rfl
  exact ⟨by simp [row], plain, deeper⟩

/-! ### Changing a place -/

/-- A change at a node of one scope is not seen in the rows of the others. -/
theorem Drawn.redraw {payload : Payload} {below row : List Tree}
    {context : Payload → List Tree → List Tree} (drawn : store.Drawn base scopes rows)
    (isScope : root ∈ scopes) (framed : store.Framed scopes root slot payload below context)
    (same : store.SameScopes scopes newScopes)
    (kept : ∀ found, store.InUse found → ¬ store.Own scopes slot found → store.Agree other found)
    (shows : other.Shows newScopes (other.children slot) row) (found : Slot)
    (foundIsScope : found ∈ scopes) :
    other.Shows newScopes (other.children found)
      (Function.update rows root (context (other.payload slot) row) found) := by
  by_cases here : found = root
  · subst here
    rw [Function.update_self]
    exact framed.redraw same kept shows
  · rw [Function.update_of_ne here]
    have foreign : ∀ node, store.Own scopes found node → ¬ store.Own scopes slot node :=
      fun node own ownToo => here (drawn.forest.own_unique foundIsScope isScope own
        (framed.own.trans ownToo))
    have agree := kept found (drawn.inUse found foundIsScope) (foreign found ReflTransGen.refl)
    rw [agree.2]
    refine (drawn.shows found foundIsScope).congr drawn.forest
      (fun child member => drawn.forest.inUse_child found child member) same ?_
    intro child member plain node own
    have inUse := drawn.forest.inUse_of_reaches own.reaches
      (drawn.forest.inUse_child found child member)
    exact kept node inUse (foreign node ((own_child member plain).trans own))

theorem sameScopes_refl (store : Store) (scopes : List Slot) : store.SameScopes scopes scopes :=
  fun _ _ => Iff.rfl

/-- A scope in a fresh slot is none of those in use. -/
theorem sameScopes_fresh (store : Store) (scopes : List Slot) :
    store.SameScopes scopes (store.fresh :: scopes) := by
  intro found inUse
  rw [List.mem_cons]
  exact ⟨fun member => member.resolve_left inUse.ne_fresh, Or.inr⟩

theorem Grown.agree {content : Payload} {before after : List Slot}
    (grown : store.Grown other slot content before after) (found : Slot)
    (inUse : store.InUse found) (foreign : ¬ store.Own scopes slot found) :
    store.Agree other found := by
  refine ⟨grown.payload_of_inUse inUse, grown.children_of_ne ?_⟩
  rintro rfl
  exact foreign ReflTransGen.refl

/-- The row that a leaf was put into shows one tree more. -/
theorem Grown.shows {content : Payload} {before after : List Slot}
    (grown : store.Grown other slot content before after) (forest : store.Forest)
    (same : store.SameScopes scopes newScopes) {front back : List Tree} {tree : Tree}
    (shows : store.Shows scopes (store.children slot) (front ++ back))
    (length : before.length = front.length) (leaf : other.Shows newScopes [store.fresh] [tree]) :
    other.Shows newScopes (other.children slot) (front ++ tree :: back) := by
  obtain ⟨first, second, row, showsFirst, showsSecond⟩ := shows.split
  have sameLength : before.length = first.length := length.trans showsFirst.length_eq.symm
  obtain ⟨rfl, rfl⟩ := List.append_inj (grown.split.symm.trans row) sameLength
  have member : ∀ child, child ∈ before ++ after → child ∈ store.children slot := fun child inRow =>
    row ▸ inRow
  have kept : ∀ child ∈ before ++ after, child ∉ scopes → ∀ found, store.Own scopes child found →
      store.Agree other found := by
    intro child inRow _ found own
    have inUse := forest.inUse_of_reaches own.reaches (forest.inUse_child _ _ (member child inRow))
    refine ⟨grown.payload_of_inUse inUse, grown.children_of_ne ?_⟩
    rintro rfl
    exact forest.not_reaches_parent (member child inRow) own.reaches
  rw [grown.children_parent]
  refine (showsFirst.congr forest ?_ same ?_).append
    (leaf.append (showsSecond.congr forest ?_ same ?_))
  · exact fun child inRow =>
      forest.inUse_child _ _ (member child (List.mem_append_left after inRow))
  · exact fun child inRow => kept child (List.mem_append_left after inRow)
  · exact fun child inRow =>
      forest.inUse_child _ _ (member child (List.mem_append_right before inRow))
  · exact fun child inRow => kept child (List.mem_append_right before inRow)

theorem Grown.leaf {content : Payload} {before after : List Slot}
    (grown : store.Grown other slot content before after) (forest : store.Forest)
    (plain : store.fresh ∉ scopes) {mark : Option Slot}
    (marked : ∀ known ∈ mark, store.fresh = known) :
    other.Shows scopes [store.fresh] [.node mark content []] := by
  rw [← grown.payload_fresh]
  refine Shows.node plain marked ?_ Shows.nil
  rw [grown.children_fresh forest]
  exact Shows.nil

theorem fresh_shows_scope (store other : Store) (scopes : List Slot) :
    other.Shows (store.fresh :: scopes) [store.fresh] [.scope store.fresh] :=
  Shows.scope List.mem_cons_self Shows.nil

/-- Below the node that a leaf was put under there is nothing new but the leaf. -/
theorem Grown.own_cases {content : Payload} {before after : List Slot}
    (grown : store.Grown other slot content before after) (forest : store.Forest)
    (same : store.SameScopes scopes newScopes) {found : Slot}
    (own : other.Own newScopes slot found) : found = store.fresh ∨ store.Own scopes slot found := by
  induction own with
  | refl => exact Or.inr ReflTransGen.refl
  | @tail parent child _ step further =>
    obtain ⟨member, plain⟩ := step
    rcases (grown.mem_children parent child).mp member with old | ⟨_, rfl⟩
    · rcases further with rfl | own
      · rw [forest.children_of_not_inUse store.fresh_not_inUse] at old
        exact absurd old List.not_mem_nil
      · refine Or.inr (own.trans (own_child old fun isScope => plain ?_))
        exact (same child (forest.inUse_child parent child old)).mpr isScope
    · exact Or.inl rfl

theorem Grown.own_mono {content : Payload} {before after : List Slot}
    (grown : store.Grown other slot content before after) (forest : store.Forest)
    (same : store.SameScopes scopes newScopes) {first last : Slot}
    (own : store.Own scopes first last) : other.Own newScopes first last := by
  refine ReflTransGen.mono (fun parent child step => ?_) _ _ own
  refine ⟨(grown.mem_children parent child).mpr (Or.inl step.1), fun isScope => step.2 ?_⟩
  exact (same child (forest.inUse_child parent child step.1)).mp isScope

/-- **A node with a new leaf still stands at its place.** -/
theorem Framed.grow {payload content : Payload} {front back : List Tree} {tree : Tree}
    {context : Payload → List Tree → List Tree} {before after : List Slot}
    (framed : store.Framed scopes root slot payload (front ++ back) context)
    (forest : store.Forest) (same : store.SameScopes scopes newScopes)
    (grown : store.Grown other slot content before after) (length : before.length = front.length)
    (leaf : other.Shows newScopes [store.fresh] [tree]) :
    other.Framed newScopes root slot payload (front ++ tree :: back) context where
  inUse := grown.inUse_of_inUse framed.inUse
  own := grown.own_mono forest same framed.own
  payload_eq := (grown.payload_of_inUse framed.inUse).trans framed.payload_eq
  inside := grown.shows forest same framed.inside length leaf
  redraw {third thirdScopes} sameToo kept row shows := by
    refine framed.redraw (fun found inUse => ?_) (fun found inUse foreign => ?_) shows
    · exact (sameToo found (grown.inUse_of_inUse inUse)).trans (same found inUse)
    · have agree := kept found (grown.inUse_of_inUse inUse) fun own =>
        (grown.own_cases forest same own).elim inUse.ne_fresh foreign
      have agreeBefore := grown.agree found inUse foreign
      exact ⟨agree.1.trans agreeBefore.1, agree.2.trans agreeBefore.2⟩

/-- **A new leaf in a drawing.** It may be marked by its slot. -/
theorem Drawn.grow {payload content : Payload} {front back : List Tree}
    {context : Payload → List Tree → List Tree} {before after : List Slot}
    (drawn : store.Drawn base scopes rows) (isScope : root ∈ scopes)
    (framed : store.Framed scopes root slot payload (front ++ back) context)
    (grown : store.Grown other slot content before after) (length : before.length = front.length)
    (mark : Option Slot) (marked : ∀ known ∈ mark, store.fresh = known) :
    other.Drawn base scopes
      (Function.update rows root (context payload (front ++ .node mark content [] :: back))) := by
  have same := sameScopes_refl store scopes
  have plain : store.fresh ∉ scopes := fun member =>
    store.fresh_not_inUse (drawn.inUse _ member)
  have shown := grown.shows drawn.forest same framed.inside length
    (grown.leaf drawn.forest plain marked)
  have redrawn := drawn.redraw isScope framed same (fun found inUse => grown.agree found inUse) shown
  rw [grown.payload_of_inUse framed.inUse, framed.payload_eq] at redrawn
  refine ⟨grown.forest, fun top => (grown.isTop_iff top).trans (drawn.isTop_iff top), ?_, ?_, ?_,
    redrawn⟩
  · rw [grown.next base ((drawn.isTop_iff base).mpr rfl), drawn.loose]
  · exact fun found member => grown.inUse_of_inUse (drawn.inUse found member)
  · intro found member
    rw [grown.payload_of_inUse (drawn.inUse found member), drawn.blank found member]

/-- **A new scope in a drawing.** -/
theorem Drawn.growScope {payload : Payload} {front back : List Tree}
    {context : Payload → List Tree → List Tree} {before after : List Slot}
    (drawn : store.Drawn base scopes rows) (isScope : root ∈ scopes)
    (framed : store.Framed scopes root slot payload (front ++ back) context)
    (grown : store.Grown other slot .blank before after) (length : before.length = front.length) :
    other.Drawn base (store.fresh :: scopes)
      (Function.update (Function.update rows root
        (context payload (front ++ .scope store.fresh :: back))) store.fresh []) := by
  have same := sameScopes_fresh store scopes
  have shown := grown.shows drawn.forest same framed.inside length
    (fresh_shows_scope store other scopes)
  have redrawn := drawn.redraw isScope framed same (fun found inUse => grown.agree found inUse) shown
  rw [grown.payload_of_inUse framed.inUse, framed.payload_eq] at redrawn
  refine ⟨grown.forest, fun top => (grown.isTop_iff top).trans (drawn.isTop_iff top), ?_, ?_, ?_, ?_⟩
  · rw [grown.next base ((drawn.isTop_iff base).mpr rfl), drawn.loose]
  · intro found member
    rcases List.mem_cons.mp member with rfl | old
    · exact grown.inUse_fresh
    · exact grown.inUse_of_inUse (drawn.inUse found old)
  · intro found member
    rcases List.mem_cons.mp member with rfl | old
    · exact grown.payload_fresh
    · rw [grown.payload_of_inUse (drawn.inUse found old), drawn.blank found old]
  · intro found member
    rcases List.mem_cons.mp member with rfl | old
    · rw [Function.update_self, grown.children_fresh drawn.forest]
      exact Shows.nil
    · rw [Function.update_of_ne (drawn.inUse found old).ne_fresh]
      exact redrawn found old

/-- **Another payload in a drawing.** -/
theorem Drawn.retag {payload content : Payload} {below : List Tree}
    {context : Payload → List Tree → List Tree} (drawn : store.Drawn base scopes rows)
    (isScope : root ∈ scopes) (framed : store.Framed scopes root slot payload below context)
    (plain : slot ∉ scopes) (retagged : store.Retagged other slot content) :
    other.Drawn base scopes (Function.update rows root (context content below)) := by
  have same := sameScopes_refl store scopes
  have agree : ∀ found, found ≠ slot → store.Agree other found := by
    intro found different
    refine ⟨?_, by rw [retagged.children]⟩
    rw [retagged.payload, Function.update_of_ne different]
  have shown : other.Shows scopes (other.children slot) below := by
    rw [retagged.children]
    refine framed.inside.congr drawn.forest
      (fun child member => drawn.forest.inUse_child slot child member) same ?_
    intro child member _ found own
    refine agree found ?_
    rintro rfl
    exact drawn.forest.not_reaches_parent member own.reaches
  have redrawn := drawn.redraw isScope framed same (fun found _ foreign => agree found ?_) shown
  · rw [retagged.payload, Function.update_self] at redrawn
    refine ⟨retagged.forest, fun top => (retagged.isTop_iff top).trans (drawn.isTop_iff top), ?_, ?_,
      ?_, redrawn⟩
    · rw [retagged.next, drawn.loose]
    · rw [retagged.inUse]
      exact drawn.inUse
    · intro found member
      rw [(agree found fun here => plain (here ▸ member)).1, drawn.blank found member]
  · rintro rfl
    exact foreign ReflTransGen.refl

/-! ### Losing all children -/

/-- Below a row without scopes there are only nodes of the same scope. -/
theorem Shows.own_of_plain {row : List Slot} {trees : List Tree}
    (shows : store.Shows scopes row trees) (noScopes : Tree.scopes trees = []) {child found : Slot}
    (member : child ∈ row) (reaches : store.Reaches child found) :
    child ∉ scopes ∧ store.Own scopes child found := by
  induction shows generalizing child with
  | nil => exact absurd member List.not_mem_nil
  | scope _ _ _ =>
    rw [Tree.scopes] at noScopes
    exact absurd noScopes (List.cons_ne_nil _ _)
  | node plain _ _ _ stepInside stepBehind =>
    rw [Tree.scopes, List.append_eq_nil_iff] at noScopes
    rcases List.mem_cons.mp member with rfl | behind
    · refine ⟨plain, ?_⟩
      rcases ReflTransGen.cases_head reaches with rfl | ⟨next, memberNext, further⟩
      · exact ReflTransGen.refl
      · obtain ⟨plainNext, own⟩ := stepInside noScopes.1 memberNext further
        exact (own_child memberNext plainNext).trans own
    · exact stepBehind noScopes.2 behind reaches

theorem Framed.own_of_below {payload : Payload} {below : List Tree}
    {context : Payload → List Tree → List Tree}
    (framed : store.Framed scopes root slot payload below context)
    (noScopes : Tree.scopes below = []) {found : Slot} (hangs : store.Below slot found) :
    store.Own scopes slot found := by
  obtain ⟨child, member, reaches⟩ := Forest.exists_child_of_below hangs
  obtain ⟨plain, own⟩ := framed.inside.own_of_plain noScopes member reaches
  exact (own_child member plain).trans own

/-- **All children of a node lost in a drawing**, if there are no scopes among them. -/
theorem Drawn.trim {payload : Payload} {below : List Tree}
    {context : Payload → List Tree → List Tree} {gone : Slot → Prop}
    (drawn : store.Drawn base scopes rows) (isScope : root ∈ scopes)
    (framed : store.Framed scopes root slot payload below context)
    (noScopes : Tree.scopes below = []) (trimmed : store.Trimmed other slot [] gone)
    (whole : ∀ found, gone found ↔ store.Below slot found) :
    other.Drawn base scopes (Function.update rows root (context payload [])) := by
  have same := sameScopes_refl store scopes
  have stays : ¬ gone slot := fun isGone =>
    drawn.forest.not_below_self slot ((whole slot).mp isGone)
  have keeps : ∀ found ∈ scopes, ¬ gone found := by
    intro found member isGone
    have hangs := (whole found).mp isGone
    have own := framed.own.trans (framed.own_of_below noScopes hangs)
    obtain rfl := drawn.forest.own_unique member isScope ReflTransGen.refl own
    exact drawn.forest.not_reaches_of_below hangs framed.own.reaches
  have agree : ∀ found, store.InUse found → ¬ store.Own scopes slot found →
      store.Agree other found := by
    intro found _ foreign
    have kept : ¬ gone found := fun isGone =>
      foreign (framed.own_of_below noScopes ((whole found).mp isGone))
    refine ⟨trimmed.payload found kept, ?_⟩
    rw [trimmed.children found kept, Function.update_of_ne]
    rintro rfl
    exact foreign ReflTransGen.refl
  have shown : other.Shows scopes (other.children slot) [] := by
    rw [trimmed.children slot stays, Function.update_self]
    exact Shows.nil
  have redrawn := drawn.redraw isScope framed same agree shown
  rw [trimmed.payload slot stays, framed.payload_eq] at redrawn
  have tops := trimmed.isTop_iff
    (fun child member _ => (whole child).mpr (TransGen.single member))
    (fun above child isGone member => (whole child).mpr
      (TransGen.tail ((whole above).mp isGone) member))
  refine ⟨trimmed.forest, fun top => (tops top).trans (drawn.isTop_iff top), ?_, ?_, ?_, redrawn⟩
  · rw [trimmed.next base ((drawn.isTop_iff base).mpr rfl), drawn.loose]
  · exact fun found member => (trimmed.inUse found).mpr ⟨drawn.inUse found member, keeps found member⟩
  · intro found member
    rw [trimmed.payload found (keeps found member), drawn.blank found member]

end SqlDraft.Store
