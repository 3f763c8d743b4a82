/-
**Trees that a store shows.**

A scope of a statement is drawn as a row of trees. A scope inside it is a leaf of these trees, named
by its root, so that what happens inside one scope is not seen in the others:

* `Store.Shows`: a row of siblings shows a row of trees.
* `Store.Own`: the nodes of one scope, which end where another scope begins.
* `Store.Shows.congr`: a row shows the same trees as long as its own nodes are the same.
* `Store.Framed`: a change at one node is seen in the row of its scope at one place only.
-/

import SqlDraft.Proofs.Store.Traversal

namespace SqlDraft

/-- A tree of payloads. Some of its nodes are marked by their slots. -/
inductive Tree
  | node (mark : Option Slot) (payload : Payload) (below : List Tree)
  /-- A scope, named by its root. -/
  | scope (root : Slot)

namespace Tree

/-- A node without children. -/
def leaf (payload : Payload) : Tree := node none payload []

/-- The scopes that stand in a row of trees. -/
def scopes : List Tree → List Slot
  | [] => []
  | scope root :: rest => root :: scopes rest
  | node _ _ below :: rest => scopes below ++ scopes rest

/-- The payloads of a row of trees in the order of the text, given those below the scopes in it. -/
def payloads (inside : Slot → List Payload) : List Tree → List Payload
  | [] => []
  | scope root :: rest => .blank :: (inside root ++ payloads inside rest)
  | node _ payload below :: rest => payload :: (payloads inside below ++ payloads inside rest)

theorem scopes_append (front back : List Tree) :
    scopes (front ++ back) = scopes front ++ scopes back := by
  induction front with
  | nil => rw [scopes, List.nil_append, List.nil_append]
  | cons tree rest step =>
    cases tree with
    | scope root => rw [List.cons_append, scopes, scopes, step, List.cons_append]
    | node mark payload below =>
      rw [List.cons_append, scopes, scopes, step, List.append_assoc]

theorem payloads_append (inside : Slot → List Payload) (front back : List Tree) :
    payloads inside (front ++ back) = payloads inside front ++ payloads inside back := by
  induction front with
  | nil => rw [payloads, List.nil_append, List.nil_append]
  | cons tree rest step =>
    cases tree with
    | scope root => rw [List.cons_append, payloads, payloads, step, List.cons_append,
        List.append_assoc]
    | node mark payload below => rw [List.cons_append, payloads, payloads, step, List.cons_append,
        List.append_assoc]

theorem payloads_nil (inside : Slot → List Payload) : payloads inside [] = [] := by
  rw [payloads]

theorem payloads_leaf (inside : Slot → List Payload) (payload : Payload) (rest : List Tree) :
    payloads inside (leaf payload :: rest) = payload :: payloads inside rest := by
  rw [leaf, payloads, payloads_nil, List.nil_append]

end Tree

namespace Store

open Relation

variable {store other : Store} {scopes newScopes : List Slot}

/-- **A row of siblings shows a row of trees.** -/
inductive Shows (store : Store) (scopes : List Slot) : List Slot → List Tree → Prop
  | nil : Shows store scopes [] []
  | scope {root : Slot} {row : List Slot} {trees : List Tree} (isScope : root ∈ scopes)
      (behind : Shows store scopes row trees) :
      Shows store scopes (root :: row) (.scope root :: trees)
  | node {slot : Slot} {mark : Option Slot} {below : List Tree} {row : List Slot}
      {trees : List Tree} (plain : slot ∉ scopes) (marked : ∀ known ∈ mark, slot = known)
      (inside : Shows store scopes (store.children slot) below)
      (behind : Shows store scopes row trees) :
      Shows store scopes (slot :: row) (.node mark (store.payload slot) below :: trees)

/-- A node is reached from another one without entering a scope. -/
def Own (store : Store) (scopes : List Slot) : Slot → Slot → Prop :=
  ReflTransGen fun parent child => child ∈ store.children parent ∧ child ∉ scopes

/-- Two stores agree on a node. -/
def Agree (store other : Store) (slot : Slot) : Prop :=
  other.payload slot = store.payload slot ∧ other.children slot = store.children slot

/-- The slots in use are scopes of one list exactly when they are of the other. -/
def SameScopes (store : Store) (scopes newScopes : List Slot) : Prop :=
  ∀ slot, store.InUse slot → (slot ∈ newScopes ↔ slot ∈ scopes)

/-! ### Nodes of a scope -/

theorem Own.reaches {first last : Slot} (own : store.Own scopes first last) :
    store.Reaches first last :=
  ReflTransGen.mono (fun _ _ both => both.1) _ _ own

theorem Own.trans {first second third : Slot} (own : store.Own scopes first second)
    (further : store.Own scopes second third) : store.Own scopes first third :=
  ReflTransGen.trans own further

theorem own_child {parent child : Slot} (member : child ∈ store.children parent)
    (plain : child ∉ scopes) : store.Own scopes parent child :=
  ReflTransGen.single ⟨member, plain⟩

/-- **No node belongs to two scopes.** -/
theorem Forest.own_unique (forest : store.Forest) {first second slot : Slot}
    (firstIsScope : first ∈ scopes) (secondIsScope : second ∈ scopes)
    (own : store.Own scopes first slot) (ownToo : store.Own scopes second slot) :
    first = second := by
  induction own with
  | refl =>
    rcases ReflTransGen.cases_tail ownToo with same | ⟨_, _, _, plain⟩
    · exact same
    · exact absurd firstIsScope plain
  | tail _ step further =>
    obtain ⟨member, plain⟩ := step
    rcases ReflTransGen.cases_tail ownToo with rfl | ⟨between, ownBetween, memberToo, _⟩
    · exact absurd secondIsScope plain
    · rw [forest.sole_parent _ _ _ memberToo member] at ownBetween
      exact further ownBetween

/-! ### Showing trees -/

namespace Shows

theorem append {front back : List Slot} {before after : List Tree}
    (shows : store.Shows scopes front before) (showsToo : store.Shows scopes back after) :
    store.Shows scopes (front ++ back) (before ++ after) := by
  induction shows with
  | nil => exact showsToo
  | scope isScope _ step => exact Shows.scope isScope step
  | node plain marked inside _ _ step => exact Shows.node plain marked inside step

/-- A row that shows two rows of trees in a row has two parts. -/
theorem split {row : List Slot} {before after : List Tree}
    (shows : store.Shows scopes row (before ++ after)) :
    ∃ front back, row = front ++ back ∧ store.Shows scopes front before ∧
      store.Shows scopes back after := by
  induction before generalizing row with
  | nil => exact ⟨[], row, rfl, Shows.nil, shows⟩
  | cons tree rest step =>
    cases shows with
    | scope isScope behind =>
      obtain ⟨front, back, rfl, shown, shownToo⟩ := step behind
      exact ⟨_ :: front, back, rfl, Shows.scope isScope shown, shownToo⟩
    | node plain marked inside behind =>
      obtain ⟨front, back, rfl, shown, shownToo⟩ := step behind
      exact ⟨_ :: front, back, rfl, Shows.node plain marked inside shown, shownToo⟩

theorem uncons {row : List Slot} {mark : Option Slot} {content : Payload} {inner rest : List Tree}
    (shows : store.Shows scopes row (.node mark content inner :: rest)) :
    ∃ child back, row = child :: back ∧ store.payload child = content ∧
      (∀ known ∈ mark, child = known) ∧ child ∉ scopes ∧
      store.Shows scopes (store.children child) inner ∧ store.Shows scopes back rest := by
  cases shows with
  | node plain marked inside behind => exact ⟨_, _, rfl, rfl, marked, plain, inside, behind⟩

theorem length_eq {row : List Slot} {trees : List Tree} (shows : store.Shows scopes row trees) :
    row.length = trees.length := by
  induction shows with
  | nil => rfl
  | scope _ _ step => rw [List.length_cons, List.length_cons, step]
  | node _ _ _ _ _ step => rw [List.length_cons, List.length_cons, step]

/-- **A row shows the same trees as long as its own nodes are the same.** -/
theorem congr (forest : store.Forest) {row : List Slot} {trees : List Tree}
    (shows : store.Shows scopes row trees) (inUse : ∀ slot ∈ row, store.InUse slot)
    (same : store.SameScopes scopes newScopes)
    (kept : ∀ slot ∈ row, slot ∉ scopes → ∀ found, store.Own scopes slot found →
      store.Agree other found) : other.Shows newScopes row trees := by
  induction shows with
  | nil => exact Shows.nil
  | scope isScope _ step =>
    refine Shows.scope ((same _ (inUse _ List.mem_cons_self)).mpr isScope) (step ?_ ?_)
    · exact fun slot inRow => inUse slot (List.mem_cons_of_mem _ inRow)
    · exact fun slot inRow => kept slot (List.mem_cons_of_mem _ inRow)
  | @node slot mark below row trees plain marked inside behind stepInside stepBehind =>
    have agree := kept slot List.mem_cons_self plain slot ReflTransGen.refl
    have shown := stepInside (fun child member => forest.inUse_child slot child member)
      fun child member plainChild found own => kept slot List.mem_cons_self plain found
        ((own_child member plainChild).trans own)
    rw [← agree.1]
    refine Shows.node (fun isScope => plain ((same _ (inUse _ List.mem_cons_self)).mp isScope))
      marked (by rw [agree.2]; exact shown) (stepBehind ?_ ?_)
    · exact fun slot inRow => inUse slot (List.mem_cons_of_mem _ inRow)
    · exact fun slot inRow => kept slot (List.mem_cons_of_mem _ inRow)

theorem mem_scopes {row : List Slot} {trees : List Tree} (shows : store.Shows scopes row trees)
    {root : Slot} (stands : root ∈ Tree.scopes trees) :
    root ∈ row ∨ ∃ slot ∈ row, store.Below slot root := by
  induction shows with
  | nil =>
    rw [Tree.scopes] at stands
    exact absurd stands List.not_mem_nil
  | scope _ _ step =>
    rw [Tree.scopes] at stands
    rcases List.mem_cons.mp stands with rfl | further
    · exact Or.inl List.mem_cons_self
    · rcases step further with inRow | ⟨slot, inRow, hangs⟩
      · exact Or.inl (List.mem_cons_of_mem _ inRow)
      · exact Or.inr ⟨slot, List.mem_cons_of_mem _ inRow, hangs⟩
  | node _ _ _ _ stepInside stepBehind =>
    rw [Tree.scopes] at stands
    rcases List.mem_append.mp stands with insideToo | further
    · refine Or.inr ⟨_, List.mem_cons_self, ?_⟩
      rcases stepInside insideToo with member | ⟨slot, member, hangs⟩
      · exact TransGen.single member
      · exact TransGen.head member hangs
    · rcases stepBehind further with inRow | ⟨slot, inRow, hangs⟩
      · exact Or.inl (List.mem_cons_of_mem _ inRow)
      · exact Or.inr ⟨slot, List.mem_cons_of_mem _ inRow, hangs⟩

theorem mem_of_marked {row : List Slot} {trees : List Tree} (shows : store.Shows scopes row trees)
    {slot : Slot} {content : Payload} {below : List Tree}
    (member : .node (some slot) content below ∈ trees) : slot ∈ row := by
  obtain ⟨before, after, rfl⟩ := List.append_of_mem member
  obtain ⟨front, back, rfl, -, showsBack⟩ := shows.split
  obtain ⟨child, rest, rfl, -, marked, -⟩ := showsBack.uncons
  rw [← marked slot rfl]
  exact List.mem_append_right _ List.mem_cons_self

theorem mem_scopes_of_mem {row : List Slot} {trees : List Tree}
    (shows : store.Shows scopes row trees) {root : Slot} (isScope : root ∈ scopes)
    (member : root ∈ row) : root ∈ Tree.scopes trees := by
  induction shows with
  | nil => exact absurd member List.not_mem_nil
  | scope _ _ step =>
    rw [Tree.scopes]
    rcases List.mem_cons.mp member with rfl | behind
    · exact List.mem_cons_self
    · exact List.mem_cons_of_mem _ (step behind)
  | node plain _ _ _ _ step =>
    rw [Tree.scopes]
    rcases List.mem_cons.mp member with rfl | behind
    · exact absurd isScope plain
    · exact List.mem_append_right _ (step behind)

/-- A scope that hangs below the nodes of a row stands in its trees. -/
theorem mem_scopes_of_own {row : List Slot} {trees : List Tree}
    (shows : store.Shows scopes row trees) {slot parent root : Slot} (member : slot ∈ row)
    (plain : slot ∉ scopes) (own : store.Own scopes slot parent) (isScope : root ∈ scopes)
    (child : root ∈ store.children parent) : root ∈ Tree.scopes trees := by
  induction shows generalizing slot with
  | nil => exact absurd member List.not_mem_nil
  | scope isScopeToo _ step =>
    rw [Tree.scopes]
    rcases List.mem_cons.mp member with rfl | behind
    · exact absurd isScopeToo plain
    · exact List.mem_cons_of_mem _ (step behind plain own)
  | node _ _ inside _ stepInside stepBehind =>
    rw [Tree.scopes]
    rcases List.mem_cons.mp member with rfl | behind
    · refine List.mem_append_left _ ?_
      rcases ReflTransGen.cases_head own with rfl | ⟨next, ⟨memberNext, plainNext⟩, further⟩
      · exact inside.mem_scopes_of_mem isScope child
      · exact stepInside memberNext plainNext further
    · exact List.mem_append_right _ (stepBehind behind plain own)

/-- The text of a row is that of its trees. -/
theorem payloads_eq (forest : store.Forest) {row : List Slot} {trees : List Tree}
    (shows : store.Shows scopes row trees)
    (blank : ∀ root ∈ scopes, store.payload root = .blank) :
    (row.flatMap fun slot => store.payload slot :: store.payloadsBelow slot) =
      Tree.payloads store.payloadsBelow trees := by
  induction shows with
  | nil => rw [List.flatMap_nil, Tree.payloads]
  | scope isScope _ step =>
    rw [List.flatMap_cons, step, blank _ isScope, Tree.payloads, List.cons_append]
  | node _ _ _ _ stepInside stepBehind =>
    rw [List.flatMap_cons, stepBehind, forest.payloadsBelow_eq_flatMap, stepInside, Tree.payloads,
      List.cons_append]

end Shows

end Store

end SqlDraft
