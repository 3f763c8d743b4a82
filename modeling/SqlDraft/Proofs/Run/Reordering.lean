/-
**Clauses may be said in any order.**

Blocks of calls that belong to different parts of a statement may change places. They go into one
store, whose slots they take in another order then, but what is written depends on what was said only:

* `Drawing.Says.payloadsBelow_eq`: two drawings that go on from the same one are written the same if
  what was said matches.
* **`Draft.reordered_written_same`**: blocks in another order do not fail either, and give the same
  text.
-/

import SqlDraft.Proofs.Run.Nested
import SqlDraft.Proofs.Sheet.Blocks
import SqlDraft.Proofs.Sheet.Inside

namespace SqlDraft

namespace Store

variable {store : Store} {scopes row : List Slot} {trees : List Tree}

theorem Forest.extent_lt_of_below (forest : store.Forest) {parent child : Slot}
    (hangs : store.Below parent child) : extent store child < extent store parent := by
  induction hangs with
  | single member => exact forest.extent_lt member
  | tail _ member step => exact (forest.extent_lt member).trans step

theorem Shows.isScope_of_stands (shows : store.Shows scopes row trees) {root : Slot}
    (stands : root ∈ Tree.scopes trees) : root ∈ scopes := by
  induction shows with
  | nil => rw [Tree.scopes] at stands; exact absurd stands List.not_mem_nil
  | scope isScope _ step =>
    rw [Tree.scopes] at stands
    rcases List.mem_cons.mp stands with rfl | behind
    · exact isScope
    · exact step behind
  | node _ _ _ _ stepInside step =>
    rw [Tree.scopes] at stands
    exact (List.mem_append.mp stands).elim stepInside step

/-- A scope that stands in the trees of another one is smaller. -/
theorem Drawn.extent_lt {base root inner : Slot} {rows : Slot → List Tree}
    (drawn : store.Drawn base scopes rows) (isScope : root ∈ scopes)
    (stands : inner ∈ Tree.scopes (rows root)) :
    inner ∈ scopes ∧ Forest.extent store inner < Forest.extent store root := by
  have shows := drawn.shows root isScope
  refine ⟨shows.isScope_of_stands stands, drawn.forest.extent_lt_of_below ?_⟩
  rcases shows.mem_scopes stands with child | ⟨slot, child, hangs⟩
  · exact Relation.TransGen.single child
  · exact Relation.TransGen.head child hangs

end Store

namespace Drawing

/-- Below the root of the innermost scope stands its sheet. -/
theorem payloadsBelow_root (drawing : Drawing) :
    drawing.draft.store.payloadsBelow drawing.root =
      (drawing.outline.sheet drawing.draft.store.payloadsBelow).payloads := by
  have held : drawing.draft.scope.Held drawing.outline := drawing.sketched.heldScope
  exact (drawing.spells_store [] _ drawing.sketched.isScope List.not_mem_nil).trans
    (Outline.payloads_trees held.opened)

theorem kind_ne (drawing : Drawing) (clausal : drawing.draft.inGroup = false) :
    drawing.outline.kind ≠ .group :=
  of_decide_eq_false ((drawing.grouped_eq fun _ => []).trans clausal)

variable {drawing first second : Drawing} {said more : Sheet → Sheet}

/-- What was said matches, however the scopes inside are settled. -/
def Matching (drawing first second : Drawing) (said more : Sheet → Sheet) : Prop :=
  ∀ inside other, first.Spells drawing.scopes inside → second.Spells drawing.scopes other →
    (drawing.outline.sheet inside).Matches (drawing.outline.sheet other) →
      (said (drawing.outline.sheet inside)).Matches (more (drawing.outline.sheet other))

section Both

variable (goes : drawing.Says first said) (goesToo : drawing.Says second more)
  (clausal : drawing.draft.inGroup = false) (matching : drawing.Matching first second said more)
include goes goesToo clausal matching

/-- The innermost scope says what matches if the scopes inside are written the same. -/
theorem Says.sheet_matches
    (same : ∀ root ∈ Tree.scopes drawing.outline.trees,
      first.draft.store.payloadsBelow root = second.draft.store.payloadsBelow root) :
    (first.outline.sheet first.draft.store.payloadsBelow).Matches
      (second.outline.sheet second.draft.store.payloadsBelow) := by
  have spells := first.spells_store drawing.scopes
  have spellsToo := second.spells_store drawing.scopes
  rw [goes.sheet _ spells, goesToo.sheet _ spellsToo]
  exact matching _ _ spells spellsToo (Outline.sheet_matches (drawing.kind_ne clausal) same)

/-- **Scopes that were known are written the same.** Scopes that are new in the two drawings may have
taken different slots, so nothing is said about them. -/
theorem Says.payloadsBelow_eq {root : Slot} (isScope : root ∈ drawing.scopes) :
    first.draft.store.payloadsBelow root = second.draft.store.payloadsBelow root := by
  -- The induction is on what hangs below the root in the drawing that both go on from.
  induction size : Store.Forest.extent drawing.draft.store root using Nat.strong_induction_on
    generalizing root with
  | _ size step =>
    have inner : ∀ found ∈ Tree.scopes (drawing.outlines root).trees,
        first.draft.store.payloadsBelow found = second.draft.store.payloadsBelow found := by
      intro found stands
      obtain ⟨isScopeToo, smaller⟩ := drawing.sketched.drawn.extent_lt isScope stands
      rw [size] at smaller
      exact step _ smaller isScopeToo rfl
    by_cases innermost : root = drawing.root
    · subst innermost
      have matched := goes.sheet_matches goesToo clausal matching inner
      rw [← goes.root_eq, first.payloadsBelow_root, matched.payloads_eq,
        ← second.payloadsBelow_root, goes.root_eq, goesToo.root_eq]
    · rw [first.spells_store [] root (goes.kept isScope) List.not_mem_nil,
        second.spells_store [] root (goesToo.kept isScope) List.not_mem_nil,
        goes.outside root isScope innermost, goesToo.outside root isScope innermost]
      exact Tree.payloads_congr inner

theorem Says.known_eq : ∀ root ∈ Tree.scopes drawing.outline.trees,
    first.draft.store.payloadsBelow root = second.draft.store.payloadsBelow root := fun _ stands =>
  goes.payloadsBelow_eq goesToo clausal matching
    (drawing.sketched.drawn.extent_lt drawing.sketched.isScope stands).1

/-- The statement lacks columns in both drawings or in none. -/
theorem Says.lacksProjection_eq :
    first.draft.base.lacksProjection = second.draft.base.lacksProjection := by
  have root : first.draft.root = drawing.draft.root := Draft.root_eq goes.frames
  have rootToo : second.draft.root = drawing.draft.root := Draft.root_eq goesToo.frames
  rw [Bool.eq_iff_iff, first.lacksProjection_iff first.draft.store.payloadsBelow,
    second.lacksProjection_iff second.draft.store.payloadsBelow, root, rootToo]
  by_cases innermost : drawing.draft.root = drawing.root
  · have left : first.outlines drawing.root = first.outline :=
      congrArg first.outlines goes.root_eq.symm
    have right : second.outlines drawing.root = second.outline :=
      congrArg second.outlines goesToo.root_eq.symm
    rw [innermost, left, right]
    exact (goes.sheet_matches goesToo clausal matching
      (goes.known_eq goesToo clausal matching)).lacks_iff
  · rw [goes.outside _ drawing.sketched.root_mem innermost, goesToo.outside _ drawing.sketched.root_mem innermost]
    exact (Outline.lacking_sheet _).symm.trans (Outline.lacking_sheet _)

/-- **Two drawings that go on from the same one are written the same.** -/
theorem Says.payloads_eq : first.draft.payloads = second.draft.payloads := by
  rw [Draft.payloads, Draft.payloads, goes.lacksProjection_eq goesToo clausal matching,
    Draft.root_eq goes.frames, Draft.root_eq goesToo.frames,
    goes.payloadsBelow_eq goesToo clausal matching drawing.sketched.root_mem]

end Both

end Drawing

theorem Block.goOn_program (blocks : List Block) : Call.goOn (program blocks) = true := by
  induction blocks with
  | nil => rfl
  | cons block rest step =>
    rw [program_cons, Call.goOn_append, step, Bool.and_true]
    exact block.goesOn

namespace Draft

/-- **Clauses may be said in any order.** In a draft after any moves, whose innermost scope is not a
group, blocks of calls are made that belong to regions of the scope. If none of them fails, they may
change places as long as those of each region keep their order: none of them fails then, and the text
of the draft is the same in every dialect. This is so whether only the calls of the blocks must not
fail, or also those inside of what they open. -/
theorem reordered_written_same (settings : Settings) (moves : List Move)
    (clausal : (Story.after settings moves).draft.scope.kind ≠ .group) {first second : List Block}
    (reordered : Block.Reordered first second) (deep : Bool)
    (passed : Call.failsAll deep (Story.after settings moves).draft (Block.program first) = false) :
    Call.failsAll deep (Story.after settings moves).draft (Block.program second) = false ∧
      ∀ dialect, (Call.runAll (Story.after settings moves).draft (Block.program second)).textIn
          dialect =
        (Call.runAll (Story.after settings moves).draft (Block.program first)).textIn dialect := by
  obtain ⟨scopes, outlines, kept⟩ := Story.kept_after settings moves
  let drawing : Drawing := ⟨_, _, _, kept.sketched⟩
  have plain : drawing.draft.inGroup = false := decide_eq_false clausal
  obtain ⟨after, draft, goes, verdict⟩ :=
    drawing.fails_runAll deep (Block.program first) (Block.goOn_program first)
  obtain ⟨other, draftToo, goesToo, verdictToo⟩ :=
    drawing.fails_runAll deep (Block.program second) (Block.goOn_program second)
  have spells := after.spells_store drawing.scopes
  have spellsToo := other.spells_store drawing.scopes
  have matching : drawing.Matching after other (Call.sayAll · (Block.program first))
      (Call.sayAll · (Block.program second)) := fun inside _ settled _ same =>
    (Block.sayAll_reordered reordered same ((verdict inside settled).symm.trans passed)).2
  have known := Outline.sheet_matches (drawing.kind_ne plain)
    (goes.known_eq goesToo plain matching)
  refine ⟨(verdictToo _ spellsToo).trans (Block.sayAll_reordered reordered known
    ((verdict _ spells).symm.trans passed)).1, fun dialect => ?_⟩
  have result : after.draft = Call.runAll (Story.after settings moves).draft (Block.program first) :=
    draft
  have resultToo : other.draft =
      Call.runAll (Story.after settings moves).draft (Block.program second) := draftToo
  rw [← result, ← resultToo, textIn, textIn, goes.payloads_eq goesToo plain matching]

/-- A page of a join: a column and a joined table with their names, a limit and an offset. -/
def joinedPage : List Block :=
  [⟨.command, .edit (.select ["u.id"]), [.edit (.giveName "key")], rfl, rfl, rfl⟩,
    ⟨.joins, .edit (.join .left "users"), [.edit (.giveName "u"),
      .edit (.restrict .joinOn .and (.verbatim "u.id = log.id"))], rfl, rfl, rfl⟩,
    ⟨.limit, .edit (.limit 5), [], rfl, rfl, rfl⟩,
    ⟨.offset, .edit (.offset 10), [], rfl, rfl, rfl⟩]

/-- A page of a join on a table that was given before, said from its end to its beginning. -/
theorem reordered_written_same_page :
    (Story.after .standard [.edit (.table "log")]).draft.scope.kind ≠ .group ∧
    Block.Reordered joinedPage joinedPage.reverse ∧
    Call.failsAll true (Story.after .standard [.edit (.table "log")]).draft
      (Block.program joinedPage) = false ∧
    Call.failsAll true (Story.after .standard [.edit (.table "log")]).draft
      (Block.program joinedPage.reverse) = false ∧
    (Call.runAll (Story.after .standard [.edit (.table "log")]).draft
      (Block.program joinedPage.reverse)).textIn .sqlite =
        "SELECT u.id AS key FROM log LEFT JOIN users AS u ON u.id = log.id LIMIT 5 OFFSET 10" := by
  have clausal : (Story.after .standard [.edit (.table "log")]).draft.scope.kind ≠ .group := by
    decide
  have reordered : Block.Reordered joinedPage joinedPage.reverse := fun region => by
    cases region <;> rfl
  have passed : Call.failsAll true (Story.after .standard [.edit (.table "log")]).draft
      (Block.program joinedPage) = false := by
    decide +kernel
  have text : (Call.runAll (Story.after .standard [.edit (.table "log")]).draft
      (Block.program joinedPage)).textIn .sqlite =
        "SELECT u.id AS key FROM log LEFT JOIN users AS u ON u.id = log.id LIMIT 5 OFFSET 10" := by
    decide +kernel
  obtain ⟨passedToo, same⟩ := reordered_written_same .standard [.edit (.table "log")] clausal
    reordered true passed
  exact ⟨clausal, reordered, passed, passedToo, (same .sqlite).trans text⟩

end Draft

end SqlDraft
