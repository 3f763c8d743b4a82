/-
**The slots of a tree in a row.**

The text of a tree is read off its slots, each before those below it and those before the ones
behind it. The walk is bounded by the number of slots, and in a forest this bound is never felt:

* `Store.Visits`: a link leads to a node, to what hangs below it and to the siblings behind it.
* `Store.Forest.exists_visits`: in a forest every link leads to a finite row of slots.
* `Store.Forest.preorder_firstChild`: the walk below a node is the same for every larger bound.
* `Store.Forest.below_prefix`: a slot in a walk is followed by what hangs below it.
* `Store.Forest.below_eq_flatMap`: the walk goes child by child.
* `Store.Forest.payloadsBelow_congr`: it is the same where the rows and the payloads are.
-/

import Mathlib.Data.Finset.Card
import SqlDraft.Draft.Text
import SqlDraft.Proofs.Store.Forest

namespace SqlDraft.Store

open Relation

variable {store : Store}

/-- A link leads to a node, then to the slots below it, then to its siblings and those below them. -/
inductive Visits (store : Store) : Option Slot → List Slot → Prop
  | nothing : Visits store none []
  | node {slot : Slot} {below behind : List Slot} :
      Visits store (store.node slot).child below → Visits store (store.node slot).next behind →
      Visits store (some slot) (slot :: (below ++ behind))

/-- The slots below a node in the order of the text. -/
def below (store : Store) (slot : Slot) : List Slot :=
  store.preorder store.slots (store.firstChild? slot).toList

/-- Some nodes hang side by side: nothing hangs below two of them. -/
structure Apart (store : Store) (row : List Slot) : Prop where
  nodup : row.Nodup
  eq_of_reaches : ∀ first ∈ row, ∀ second ∈ row, ∀ slot, store.Reaches first slot →
    store.Reaches second slot → first = second

/-! ### The walk -/

theorem preorder_nil (bound : Nat) : store.preorder bound [] = [] := by
  cases bound <;> rfl

theorem Visits.preorder_append {link : Option Slot} {visited : List Slot}
    (visits : store.Visits link visited) (bound : Nat) (pending : List Slot) :
    store.preorder (visited.length + bound) (link.toList ++ pending) =
      visited ++ store.preorder bound pending := by
  induction visits generalizing bound pending with
  | nothing => simp
  | @node slot below behind _ _ stepBelow stepBehind =>
    have steps : (slot :: (below ++ behind)).length + bound =
        (below.length + (behind.length + bound)) + 1 := by
      simp only [List.length_cons, List.length_append]
      omega
    rw [steps]
    show slot :: store.preorder _ ((store.node slot).child.toList ++
      (store.node slot).next.toList ++ pending) = _
    rw [List.append_assoc, stepBelow, stepBehind]
    simp

/-- **Any bound that is large enough gives the same walk.** -/
theorem Visits.preorder_eq {link : Option Slot} {visited : List Slot}
    (visits : store.Visits link visited) {bound : Nat} (enough : visited.length ≤ bound) :
    store.preorder bound link.toList = visited := by
  obtain ⟨extra, rfl⟩ := Nat.exists_eq_add_of_le enough
  have walk := visits.preorder_append extra []
  rwa [preorder_nil, List.append_nil, List.append_nil] at walk

/-! ### Side by side -/

theorem Apart.tail {slot : Slot} {rest : List Slot} (apart : store.Apart (slot :: rest)) :
    store.Apart rest where
  nodup := (List.nodup_cons.mp apart.nodup).2
  eq_of_reaches first inRow second inRowToo :=
    apart.eq_of_reaches first (List.mem_cons_of_mem slot inRow) second
      (List.mem_cons_of_mem slot inRowToo)

theorem apart_singleton (slot : Slot) : store.Apart [slot] where
  nodup := List.nodup_singleton slot
  eq_of_reaches _ inRow _ inRowToo _ _ _ :=
    (List.mem_singleton.mp inRow).trans (List.mem_singleton.mp inRowToo).symm

theorem Apart.not_reaches {slot other found : Slot} {rest : List Slot}
    (apart : store.Apart (slot :: rest)) (inRest : other ∈ rest)
    (reaches : store.Reaches slot found) : ¬ store.Reaches other found := by
  intro reachesToo
  have same := apart.eq_of_reaches slot List.mem_cons_self other
    (List.mem_cons_of_mem slot inRest) found reaches reachesToo
  subst same
  exact (List.nodup_cons.mp apart.nodup).1 inRest

namespace Forest

theorem not_reaches_parent (forest : store.Forest) {parent child : Slot}
    (member : child ∈ store.children parent) : ¬ store.Reaches child parent := fun reaches =>
  forest.not_below_self parent (TransGen.head' member reaches)

theorem apart_children (forest : store.Forest) (parent : Slot) :
    store.Apart (store.children parent) where
  nodup := forest.children_nodup parent
  eq_of_reaches := by
    -- Of two children above one slot, one would be above the other and so above their parent.
    have lower : ∀ first ∈ store.children parent, ∀ second ∈ store.children parent,
        store.Reaches first second → first = second := by
      intro first inRow second inRowToo reaches
      rcases ReflTransGen.cases_tail reaches with same | ⟨between, further, member⟩
      · exact same.symm
      · rw [forest.sole_parent between parent second member inRowToo] at further
        exact absurd further (forest.not_reaches_parent inRow)
    intro first inRow second inRowToo slot reaches reachesToo
    rcases forest.comparable reaches reachesToo with down | up
    · exact lower first inRow second inRowToo down
    · exact (lower second inRowToo first inRow up).symm

/-! ### What is visited -/

theorem mem_visits (forest : store.Forest) {link : Option Slot} {visited : List Slot}
    (visits : store.Visits link visited) {row : List Slot} (leads : store.Leads link row none)
    (found : Slot) : found ∈ visited ↔ ∃ slot ∈ row, store.Reaches slot found := by
  induction visits generalizing row with
  | nothing =>
    cases row with
    | nil => simp
    | cons slot rest => exact absurd leads.1 (by simp)
  | @node slot below behind _ _ stepBelow stepBehind =>
    cases row with
    | nil => exact absurd leads (by simp [Leads])
    | cons first rest =>
      obtain ⟨starts, goes⟩ := leads
      obtain rfl : slot = first := Option.some.inj starts
      rw [List.mem_cons, List.mem_append, stepBelow (forest.ends slot), stepBehind goes]
      simp only [List.mem_cons, exists_eq_or_imp]
      rw [← or_assoc]
      refine or_congr ⟨?_, fun reaches => ?_⟩ Iff.rfl
      · rintro (rfl | ⟨child, member, reaches⟩)
        · exact ReflTransGen.refl
        · exact ReflTransGen.head member reaches
      · rcases ReflTransGen.cases_head reaches with same | ⟨child, member, further⟩
        · exact Or.inl same.symm
        · exact Or.inr ⟨child, member, further⟩

theorem nodup_visits (forest : store.Forest) {link : Option Slot} {visited : List Slot}
    (visits : store.Visits link visited) {row : List Slot} (leads : store.Leads link row none)
    (apart : store.Apart row) : visited.Nodup := by
  induction visits generalizing row with
  | nothing => exact List.nodup_nil
  | @node slot below behind visitsBelow visitsBehind stepBelow stepBehind =>
    cases row with
    | nil => exact absurd leads (by simp [Leads])
    | cons first rest =>
      obtain ⟨starts, goes⟩ := leads
      obtain rfl : slot = first := Option.some.inj starts
      have memBelow := forest.mem_visits visitsBelow (forest.ends slot)
      have memBehind := forest.mem_visits visitsBehind goes
      refine List.nodup_cons.mpr ⟨fun again => ?_, List.nodup_append.mpr
        ⟨stepBelow (forest.ends slot) (forest.apart_children slot), stepBehind goes apart.tail, ?_⟩⟩
      · rcases List.mem_append.mp again with inBelow | inBehind
        · obtain ⟨child, member, reaches⟩ := (memBelow slot).mp inBelow
          exact forest.not_reaches_parent member reaches
        · obtain ⟨other, inRest, reaches⟩ := (memBehind slot).mp inBehind
          exact apart.not_reaches inRest ReflTransGen.refl reaches
      · rintro found inBelow other inBehind rfl
        obtain ⟨child, member, reaches⟩ := (memBelow found).mp inBelow
        obtain ⟨other, inRest, reachesToo⟩ := (memBehind found).mp inBehind
        exact apart.not_reaches inRest (ReflTransGen.head member reaches) reachesToo

theorem length_visits (forest : store.Forest) {link : Option Slot} {visited : List Slot}
    (visits : store.Visits link visited) {row : List Slot} (leads : store.Leads link row none)
    (apart : store.Apart row) (inUse : ∀ slot ∈ row, store.InUse slot) :
    visited.length ≤ store.slots := by
  refine length_le_of_made (forest.nodup_visits visits leads apart) fun found member => ?_
  obtain ⟨slot, inRow, reaches⟩ := (forest.mem_visits visits leads found).mp member
  exact (forest.inUse_of_reaches reaches (inUse slot inRow)).1

/-! ### The walk ends -/

theorem exists_visits_of_row {link : Option Slot} {row : List Slot}
    (leads : store.Leads link row none)
    (each : ∀ slot ∈ row, ∃ visited, store.Visits (store.node slot).child visited) :
    ∃ visited, store.Visits link visited := by
  induction row generalizing link with
  | nil =>
    obtain rfl : link = none := leads
    exact ⟨[], Visits.nothing⟩
  | cons slot rest step =>
    obtain ⟨rfl, goes⟩ := leads
    obtain ⟨below, visitsBelow⟩ := each slot List.mem_cons_self
    obtain ⟨behind, visitsBehind⟩ := step goes fun other inRest =>
      each other (List.mem_cons_of_mem slot inRest)
    exact ⟨slot :: (below ++ behind), Visits.node visitsBelow visitsBehind⟩

open Classical in
/-- How many slots hang below a node, which gets less on every way down. -/
noncomputable def extent (store : Store) (slot : Slot) : Nat :=
  ((Finset.range store.slots).filter (store.Below slot)).card

theorem extent_lt (forest : store.Forest) {parent child : Slot}
    (member : child ∈ store.children parent) : extent store child < extent store parent := by
  classical
  refine Finset.card_lt_card (Finset.ssubset_iff_of_subset ?_ |>.mpr ⟨child, ?_, ?_⟩)
  · intro found inside
    rw [Finset.mem_filter] at inside ⊢
    exact ⟨inside.1, TransGen.head member inside.2⟩
  · rw [Finset.mem_filter, Finset.mem_range]
    exact ⟨(forest.inUse_child parent child member).1, TransGen.single member⟩
  · rw [Finset.mem_filter]
    exact fun inside => forest.not_below_self child inside.2

/-- **In a forest every child link leads to a finite row of slots.** -/
theorem exists_visits (forest : store.Forest) (slot : Slot) :
    ∃ visited, store.Visits (store.node slot).child visited := by
  induction h : extent store slot using Nat.strong_induction_on generalizing slot with
  | _ size step =>
    refine exists_visits_of_row (forest.ends slot) fun child member => ?_
    exact step (extent store child) (h ▸ forest.extent_lt member) child rfl

/-- **The walk below a node is the same for every bound that is not too small.** -/
theorem preorder_firstChild (forest : store.Forest) (slot : Slot) {bound : Nat}
    (enough : store.slots ≤ bound) :
    store.preorder bound (store.firstChild? slot).toList = store.below slot := by
  obtain ⟨visited, visits⟩ := forest.exists_visits slot
  have room := forest.length_visits visits (forest.ends slot) (forest.apart_children slot)
    fun child member => forest.inUse_child slot child member
  unfold below firstChild?
  rw [visits.preorder_eq (room.trans enough), visits.preorder_eq room]

theorem visits_below (forest : store.Forest) (slot : Slot) :
    store.Visits (store.node slot).child (store.below slot) := by
  obtain ⟨visited, visits⟩ := forest.exists_visits slot
  have room := forest.length_visits visits (forest.ends slot) (forest.apart_children slot)
    fun child member => forest.inUse_child slot child member
  unfold below firstChild?
  rwa [visits.preorder_eq room]

theorem visits_unique {link : Option Slot} {visited others : List Slot}
    (visits : store.Visits link visited) (visitsToo : store.Visits link others) :
    visited = others := by
  have walk := visits.preorder_eq (Nat.le_max_left visited.length others.length)
  rwa [visitsToo.preorder_eq (Nat.le_max_right _ _), eq_comm] at walk

theorem visits_eq_flatMap (forest : store.Forest) {link : Option Slot} {row visited : List Slot}
    (visits : store.Visits link visited) (leads : store.Leads link row none) :
    visited = row.flatMap fun slot => slot :: store.below slot := by
  induction row generalizing link visited with
  | nil =>
    obtain rfl : link = none := leads
    exact visits_unique visits Visits.nothing
  | cons slot rest step =>
    obtain ⟨rfl, goes⟩ := leads
    cases visits with
    | node visitsBelow visitsBehind =>
      rw [step visitsBehind goes, visits_unique visitsBelow (forest.visits_below slot)]
      rfl

/-- **A slot in a walk is followed by what hangs below it.** -/
theorem below_prefix (forest : store.Forest) {link : Option Slot} {visited front back : List Slot}
    {slot : Slot} (visits : store.Visits link visited) (split : visited = front ++ slot :: back) :
    store.below slot <+: back := by
  induction visits generalizing front back with
  | nothing => exact absurd split (by simp)
  | @node first below behind visitsBelow _ stepBelow stepBehind =>
    cases front with
    | nil =>
      obtain ⟨rfl, rfl⟩ := List.cons.inj split
      exact ⟨behind, by rw [visits_unique visitsBelow (forest.visits_below first)]⟩
    | cons other front =>
      obtain ⟨-, inside⟩ := List.cons.inj split
      rcases List.append_eq_append_iff.mp inside with ⟨more, -, found⟩ | ⟨more, here, rest⟩
      · exact stepBehind found
      · cases more with
        | nil => exact @stepBehind [] back (by simpa using rest.symm)
        | cons next more =>
          obtain ⟨rfl, rfl⟩ := List.cons.inj rest
          exact (stepBelow here).trans (List.prefix_append _ _)

/-- **The walk below a node goes child by child.** -/
theorem below_eq_flatMap (forest : store.Forest) (slot : Slot) :
    store.below slot = (store.children slot).flatMap fun child => child :: store.below child :=
  forest.visits_eq_flatMap (forest.visits_below slot) (forest.ends slot)

theorem payloadsBelow_eq_flatMap (forest : store.Forest) (slot : Slot) :
    store.payloadsBelow slot = (store.children slot).flatMap fun child =>
      store.payload child :: store.payloadsBelow child := by
  show (store.below slot).map store.payload = _
  rw [forest.below_eq_flatMap, List.map_flatMap]
  rfl

/-- What is read below a node depends on the rows and the payloads there. -/
theorem payloadsBelow_congr (forest : store.Forest) {other : Store} (forestToo : other.Forest)
    {slot : Slot}
    (children : ∀ found, store.Reaches slot found → other.children found = store.children found)
    (payload : ∀ found, store.Reaches slot found → other.payload found = store.payload found) :
    other.payloadsBelow slot = store.payloadsBelow slot := by
  induction h : extent store slot using Nat.strong_induction_on generalizing slot with
  | _ size step =>
    rw [forestToo.payloadsBelow_eq_flatMap, forest.payloadsBelow_eq_flatMap,
      children slot ReflTransGen.refl]
    refine List.flatMap_congr fun child member => ?_
    rw [payload child (reaches_child member), step (extent store child)
      (h ▸ forest.extent_lt member) (fun found reaches => children found (.head member reaches))
      (fun found reaches => payload found (.head member reaches)) rfl]

end Forest

end SqlDraft.Store
