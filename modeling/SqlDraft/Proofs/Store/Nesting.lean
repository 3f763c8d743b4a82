/-
**Parentheses of a walk.**

Some nodes of a store stand in parentheses: the first child opens them and the last one closes them,
and no other node is a parenthesis. The walk that writes the text then meets parentheses that
balance, and how many are open at a node is how many of these nodes it hangs below:

* `Store.parens`: the parentheses among some slots, as steps up and down.
* `Store.nesting`: how many of some nodes another one hangs below.
* `Store.Levels`: a row of nodes at the level of their nesting, with parentheses around deeper ones.
* `Store.Parenthesized`: some nodes, and no others, stand in parentheses.
* **`Store.Parenthesized.levels_below`**: the walk below every node has the levels of its nodes.
* `Store.Parenthesized.count_eq_card`: a walk that reaches all of them has one pair for each.
-/

import Mathlib.Combinatorics.Enumerative.DyckWord
import Mathlib.Data.Set.Card
import SqlDraft.Proofs.Store.Traversal

namespace SqlDraft

open DyckStep Relation

/-- A parenthesis as a step up or down. -/
def Payload.paren? : Payload → Option DyckStep
  | .keyword .leftParen => some .U
  | .keyword .rightParen => some .D
  | _ => none

namespace Store

/-- The parentheses among some slots. -/
def parens (store : Store) (row : List Slot) : List DyckStep :=
  row.filterMap fun slot => (store.payload slot).paren?

/-- How many of some nodes another one hangs below. -/
noncomputable def nesting (store : Store) (roots : Finset Slot) (slot : Slot) : Nat :=
  {root | root ∈ roots ∧ store.Below root slot}.ncard

/-- Some slots in the order of a walk: each node has the nesting of its level, and parentheses stand
around a row of the next level. -/
inductive Levels (store : Store) (roots : Finset Slot) : Nat → List Slot → Prop
  | nil (level : Nat) : Levels store roots level []
  | node {level : Nat} {slot : Slot} {rest : List Slot}
      (plain : (store.payload slot).paren? = none)
      (nested : store.nesting roots slot = level) (behind : Levels store roots level rest) :
      Levels store roots level (slot :: rest)
  | enclosed {level : Nat} {left right : Slot} {row rest : List Slot}
      (opens : (store.payload left).paren? = some U)
      (closes : (store.payload right).paren? = some D)
      (inside : Levels store roots (level + 1) row) (behind : Levels store roots level rest) :
      Levels store roots level (left :: (row ++ right :: rest))

/-- Some nodes stand in parentheses, and there are no other parentheses. -/
structure Parenthesized (store : Store) (roots : Finset Slot) : Prop where
  pair : ∀ root ∈ roots, ∃ left row right, store.children root = left :: (row ++ [right]) ∧
    (store.payload left).paren? = some U ∧ store.children left = [] ∧
    (store.payload right).paren? = some D ∧ store.children right = [] ∧
    ∀ slot ∈ row, (store.payload slot).paren? = none
  bare : ∀ parent ∉ roots, ∀ slot ∈ store.children parent, (store.payload slot).paren? = none

variable {store : Store} {roots : Finset Slot} {level : Nat}

/-! ### Parentheses of rows -/

theorem parens_append (front back : List Slot) :
    store.parens (front ++ back) = store.parens front ++ store.parens back :=
  List.filterMap_append

theorem parens_cons_of_none {slot : Slot} (plain : (store.payload slot).paren? = none)
    (row : List Slot) : store.parens (slot :: row) = store.parens row :=
  List.filterMap_cons_none plain

theorem parens_cons_of_some {slot : Slot} {step : DyckStep}
    (paren : (store.payload slot).paren? = some step) (row : List Slot) :
    store.parens (slot :: row) = step :: store.parens row :=
  List.filterMap_cons_some paren

namespace Levels

theorem append {front back : List Slot} (levels : store.Levels roots level front)
    (levelsToo : store.Levels roots level back) : store.Levels roots level (front ++ back) := by
  induction levels with
  | nil => exact levelsToo
  | node plain nested _ step => exact .node plain nested (step levelsToo)
  | enclosed opens closes inside _ _ step =>
    rw [List.cons_append, List.append_assoc, List.cons_append]
    exact .enclosed opens closes inside (step levelsToo)

/-- **The parentheses of a row with levels balance.** -/
theorem exists_word {row : List Slot} (levels : store.Levels roots level row) :
    ∃ word : DyckWord, store.parens row = word.toList := by
  induction levels with
  | nil => exact ⟨0, rfl⟩
  | node plain _ _ step =>
    rw [parens_cons_of_none plain]
    exact step
  | enclosed opens closes _ _ stepInside stepBehind =>
    obtain ⟨word, inner⟩ := stepInside
    obtain ⟨other, behind⟩ := stepBehind
    refine ⟨word.nest + other, ?_⟩
    rw [parens_cons_of_some opens, parens_append, parens_cons_of_some closes, inner, behind]
    show U :: (word.toList ++ D :: other.toList) = [U] ++ word.toList ++ [D] ++ other.toList
    simp

theorem count_eq {row : List Slot} (levels : store.Levels roots level row) :
    (store.parens row).count U = (store.parens row).count D := by
  obtain ⟨word, same⟩ := levels.exists_word
  rw [same]
  exact word.count_U_eq_count_D

/-- **Before a node of a row with levels as many parentheses are open as its nesting is higher than
the level of the row.** -/
theorem count_add_eq {row : List Slot} (levels : store.Levels roots level row)
    {before after : List Slot} {slot : Slot} (split : row = before ++ slot :: after)
    (plain : (store.payload slot).paren? = none) :
    (store.parens before).count U + level =
      (store.parens before).count D + store.nesting roots slot := by
  induction levels generalizing before after with
  | nil => exact nomatch (List.append_eq_nil_iff.mp split.symm).2
  | node plainToo nested _ step =>
    cases before with
    | nil =>
      obtain ⟨rfl, -⟩ := List.cons.inj split
      rw [nested]
      rfl
    | cons first front =>
      obtain ⟨rfl, rest⟩ := List.cons.inj split
      rw [parens_cons_of_none plainToo]
      exact step rest
  | @enclosed level left right row rest opens closes inside _ stepInside stepBehind =>
    cases before with
    | nil =>
      obtain ⟨rfl, -⟩ := List.cons.inj split
      exact nomatch opens.symm.trans plain
    | cons first front =>
      obtain ⟨rfl, tail⟩ := List.cons.inj split
      rw [parens_cons_of_some opens, List.count_cons_self,
        List.count_cons_of_ne (show U ≠ D from nofun)]
      -- The node stands inside the parentheses, behind them, or it would be the right one.
      rcases List.append_eq_append_iff.mp tail with ⟨gap, rfl, found⟩ | ⟨gap, inner, found⟩
      · cases gap with
        | nil =>
          obtain ⟨rfl, -⟩ := List.cons.inj found
          exact nomatch closes.symm.trans plain
        | cons last gap =>
          obtain ⟨rfl, behind⟩ := List.cons.inj found
          have here := stepBehind behind
          have balanced := inside.count_eq
          rw [parens_append, List.count_append, List.count_append, parens_cons_of_some closes,
            List.count_cons_self, List.count_cons_of_ne (show D ≠ U from nofun)]
          omega
      · cases gap with
        | nil =>
          obtain ⟨rfl, -⟩ := List.cons.inj found
          exact nomatch closes.symm.trans plain
        | cons last gap =>
          obtain ⟨rfl, -⟩ := List.cons.inj found
          have here := stepInside inner
          omega

end Levels

/-! ### The walk -/

/-- A child hangs below its parent and below what that hangs below. -/
theorem Forest.below_child_iff (forest : store.Forest) {root parent child : Slot}
    (member : child ∈ store.children parent) :
    store.Below root child ↔ root = parent ∨ store.Below root parent := by
  constructor
  · intro hangs
    rcases ReflTransGen.cases_tail (forest.parent_of_below hangs member) with same | ⟨_, way, last⟩
    · exact .inl same.symm
    · exact .inr (TransGen.tail'_iff.mpr ⟨_, way, last⟩)
  · rintro (rfl | hangs)
    · exact TransGen.single member
    · exact TransGen.tail hangs member

theorem finite_nesting (store : Store) (roots : Finset Slot) (slot : Slot) :
    {root | root ∈ roots ∧ store.Below root slot}.Finite :=
  roots.finite_toSet.subset fun _ both => both.1

theorem nesting_child_of_not_mem (forest : store.Forest) {parent child : Slot}
    (member : child ∈ store.children parent) (outside : parent ∉ roots) :
    store.nesting roots child = store.nesting roots parent := by
  unfold nesting
  congr 1
  ext root
  refine and_congr_right fun isRoot => ?_
  rw [forest.below_child_iff member, or_iff_right]
  rintro rfl
  exact outside isRoot

theorem nesting_child_of_mem (forest : store.Forest) {parent child : Slot}
    (member : child ∈ store.children parent) (isRoot : parent ∈ roots) :
    store.nesting roots child = store.nesting roots parent + 1 := by
  unfold nesting
  rw [← Set.ncard_insert_of_notMem (fun both => forest.not_below_self parent both.2)
    (finite_nesting store roots parent)]
  congr 1
  ext root
  rw [Set.mem_insert_iff, Set.mem_ofPred_eq, forest.below_child_iff member, Set.mem_ofPred_eq,
    and_or_left]
  exact or_congr_left ⟨And.right, fun same => ⟨same ▸ isRoot, same⟩⟩

/-- Children that are no parentheses, each with what hangs below it. -/
theorem levels_row {row : List Slot} (plain : ∀ child ∈ row, (store.payload child).paren? = none)
    (nested : ∀ child ∈ row, store.nesting roots child = level)
    (deeper : ∀ child ∈ row, store.Levels roots (store.nesting roots child) (store.below child)) :
    store.Levels roots level (row.flatMap fun child => child :: store.below child) := by
  induction row with
  | nil => exact .nil level
  | cons child rest step =>
    have here := nested child List.mem_cons_self
    have inside := deeper child List.mem_cons_self
    rw [here] at inside
    rw [List.flatMap_cons, List.cons_append]
    refine .node (plain child List.mem_cons_self) here (inside.append (step ?_ ?_ ?_))
    · exact fun other member => plain other (List.mem_cons_of_mem _ member)
    · exact fun other member => nested other (List.mem_cons_of_mem _ member)
    · exact fun other member => deeper other (List.mem_cons_of_mem _ member)

theorem Forest.below_eq_nil (forest : store.Forest) {slot : Slot}
    (empty : store.children slot = []) : store.below slot = [] := by
  rw [forest.below_eq_flatMap, empty, List.flatMap_nil]

/-- **The walk below every node has the levels of its nodes.** -/
theorem Parenthesized.levels_below (parenthesized : store.Parenthesized roots)
    (forest : store.Forest) (slot : Slot) :
    store.Levels roots (store.nesting roots slot) (store.below slot) := by
  -- What hangs below a child is less than what hangs below its parent.
  induction size : Forest.extent store slot using Nat.strong_induction_on generalizing slot with
  | _ bound step =>
    have deeper : ∀ child ∈ store.children slot,
        store.Levels roots (store.nesting roots child) (store.below child) := fun child member =>
      step _ (size ▸ forest.extent_lt member) child rfl
    rw [forest.below_eq_flatMap]
    by_cases isRoot : slot ∈ roots
    · obtain ⟨left, row, right, children, opens, leftLeaf, closes, rightLeaf, plain⟩ :=
        parenthesized.pair slot isRoot
      have inRow : ∀ child ∈ row, child ∈ store.children slot := fun child member => by
        rw [children]
        exact List.mem_cons_of_mem _ (List.mem_append_left _ member)
      have inner := levels_row plain (fun child member =>
        nesting_child_of_mem forest (inRow child member) isRoot) fun child member =>
          deeper child (inRow child member)
      rw [children, List.flatMap_cons, List.flatMap_append, List.flatMap_cons, List.flatMap_nil,
        forest.below_eq_nil leftLeaf, forest.below_eq_nil rightLeaf]
      exact .enclosed opens closes inner (.nil _)
    · exact levels_row (parenthesized.bare slot isRoot)
        (fun child member => nesting_child_of_not_mem forest member isRoot) deeper

/-! ### One pair for each -/

/-- The first child of a node in parentheses. -/
def opening (store : Store) (root : Slot) : Slot := (store.children root).head?.getD root

theorem Parenthesized.opening_spec (parenthesized : store.Parenthesized roots) {root : Slot}
    (isRoot : root ∈ roots) : store.opening root ∈ store.children root ∧
      (store.payload (store.opening root)).paren? = some U := by
  obtain ⟨left, row, right, children, opens, -⟩ := parenthesized.pair root isRoot
  have first : store.opening root = left := by
    rw [opening, children]
    rfl
  rw [first, children]
  exact ⟨List.mem_cons_self, opens⟩

/-- A node that opens parentheses is the first child of one that stands in them. -/
theorem Parenthesized.eq_opening (parenthesized : store.Parenthesized roots) {parent slot : Slot}
    (member : slot ∈ store.children parent) (paren : (store.payload slot).paren? = some U) :
    parent ∈ roots ∧ slot = store.opening parent := by
  have isRoot : parent ∈ roots := by
    by_contra outside
    rw [parenthesized.bare parent outside slot member] at paren
    exact nomatch paren
  obtain ⟨left, row, right, children, -, -, closes, -, plain⟩ := parenthesized.pair parent isRoot
  refine ⟨isRoot, ?_⟩
  rw [opening, children]
  rw [children] at member
  rcases List.mem_cons.mp member with rfl | inRow
  · rfl
  · rcases List.mem_append.mp inRow with inside | last
    · rw [plain slot inside] at paren
      exact nomatch paren
    · obtain rfl := List.mem_singleton.mp last
      exact nomatch closes.symm.trans paren

/-- **There are as many pairs as nodes in parentheses.** -/
theorem Parenthesized.count_eq_card (parenthesized : store.Parenthesized roots)
    (forest : store.Forest) {walk : List Slot} (once : walk.Nodup)
    (reached : ∀ root ∈ roots, ∀ child ∈ store.children root, child ∈ walk)
    (hangs : ∀ slot ∈ walk, (store.payload slot).paren? = some U →
      ∃ parent, slot ∈ store.children parent) :
    (store.parens walk).count U = roots.card := by
  have opens : (walk.filter fun slot => (store.payload slot).paren? == some U).toFinset =
      roots.image store.opening := by
    ext slot
    rw [List.mem_toFinset, List.mem_filter, Finset.mem_image, beq_iff_eq]
    constructor
    · rintro ⟨member, paren⟩
      obtain ⟨parent, child⟩ := hangs slot member paren
      obtain ⟨isRoot, rfl⟩ := parenthesized.eq_opening child paren
      exact ⟨parent, isRoot, rfl⟩
    · rintro ⟨root, isRoot, rfl⟩
      obtain ⟨child, paren⟩ := parenthesized.opening_spec isRoot
      exact ⟨reached root isRoot _ child, paren⟩
  have distinct : Set.InjOn store.opening roots := fun first isRoot second isRootToo same =>
    forest.sole_parent first second _ (parenthesized.opening_spec isRoot).1
      (same ▸ (parenthesized.opening_spec isRootToo).1)
  rw [parens, List.count_filterMap, List.countP_eq_length_filter,
    ← List.toFinset_card_of_nodup (once.filter _), opens, Finset.card_image_of_injOn distinct]

end Store

end SqlDraft
