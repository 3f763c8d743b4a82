/-
**Closing at once what calls would close one by one.**

Whatever is being filled when a program is stopped is closed by the calls around it, each back to the
number of scopes that were open when it began. Closing all scopes at once does the same, wherever the
program was stopped:

* `Draft.closeTo_closeTo`: closing scopes in two steps is closing them in one.
* `Draft.depth_run_le`, `Draft.depth_runAll_le`: no call leaves more scopes open than there were.
* `Call.Stops`: a program is stopped at a draft, and the calls around it are left with no more calls.
* `Call.Stops.exists_depth`: a program that is stopped closes the scopes of the draft it is stopped at.
* **`Call.final_text_as_unwound`**: the final text of a draft is the text of the stopped program.
-/

import SqlDraft.Proofs.Run.Moves
import SqlDraft.Proofs.Run.Refusals
import SqlDraft.Proofs.Sheet.Frames

namespace SqlDraft

namespace Draft

/-! ### Closing in steps -/

theorem closeScopes_add (first second : Nat) (draft : Draft) :
    closeScopes (first + second) draft = closeScopes second (closeScopes first draft) := by
  induction first generalizing draft with
  | zero => rw [Nat.zero_add, closeScopes]
  | succ first step => rw [Nat.succ_add, closeScopes, step, closeScopes]

/-- A draft with no more scopes than this number stays as it is. -/
theorem closeTo_of_depth_le {draft : Draft} {depth : Nat} (few : draft.depth ≤ depth) :
    draft.closeTo depth = draft := by
  rw [closeTo, Nat.sub_eq_zero_of_le few, closeScopes]

/-- **Closing scopes in two steps is closing them in one.** -/
theorem closeTo_closeTo (draft : Draft) {first : Nat} (positive : 1 ≤ first) (second : Nat) :
    (draft.closeTo first).closeTo second = draft.closeTo (min first second) := by
  have left := draft.depth_closeTo first positive
  have count : draft.depth - first + (min draft.depth first - second) =
      draft.depth - min first second := by
    omega
  rw [closeTo, left, closeTo, ← closeScopes_add, count, closeTo]

/-! ### How many scopes calls leave open -/

theorem depth_apply (draft : Draft) (change : Edit) : (draft.apply change).depth = draft.depth :=
  depth_eq (draft.frames_apply change)

theorem depth_asked (draft : Draft) (question : Question) :
    (draft.asked question).depth = draft.depth := by
  cases question <;> rfl

/-- What cannot be filled opens no scope. -/
theorem depth_enter_of_not_admits {draft : Draft} {opening : Opening}
    (refused : draft.admits opening = false) : (draft.enter opening).depth = draft.depth := by
  rcases enter_of_not_admits refused with same | ⟨-, table, -, -, -, crossed⟩
  · rw [same]
  · rw [crossed]
    exact depth_eq (draft.frames_join .cross table)

/-- **No call leaves more scopes open than there were.** -/
theorem depth_run_le (draft : Draft) (call : Call) : (Call.run draft call).depth ≤ draft.depth := by
  cases call with
  | edit change => exact (draft.depth_apply change).le
  | ask question => exact (draft.depth_asked question).le
  | startOver => exact draft.depth_pos
  | finish => exact draft.depth_pos
  | within opening program =>
    rw [Call.run]
    split
    · rw [leave, depth_closeTo _ _ draft.depth_pos]
      exact Nat.min_le_right _ _
    · next refused => exact (depth_enter_of_not_admits (Bool.eq_false_iff.mpr refused)).le

theorem depth_runAll_le (draft : Draft) (program : List Call) :
    (Call.runAll draft program).depth ≤ draft.depth := by
  induction program generalizing draft with
  | nil => exact Nat.le_refl _
  | cons call rest step => exact (step _).trans (draft.depth_run_le call)

/-- A program that is run on a statement alone leaves it alone. -/
theorem depth_runAll_of_depth_one {draft : Draft} (alone : draft.depth = 1) (program : List Call) :
    (Call.runAll draft program).depth = 1 :=
  Nat.le_antisymm (alone ▸ draft.depth_runAll_le program) (depth_pos _)

/-! ### The text does not depend on the text that was written last -/

/-- A draft that was last written as another text. -/
def writtenAs (draft : Draft) (rendered : String) : Draft := { draft with rendered }

theorem close_writtenAs (draft : Draft) (rendered : String) :
    (draft.writtenAs rendered).close = draft.close.writtenAs rendered := by
  cases nested : draft.nested with
  | nil => simp only [close, writtenAs, nested]
  | cons closed outer =>
    simp only [close, writtenAs, nested, adjust]
    cases outer <;> rfl

theorem closeScopes_writtenAs (count : Nat) (draft : Draft) (rendered : String) :
    closeScopes count (draft.writtenAs rendered) =
      (closeScopes count draft).writtenAs rendered := by
  induction count generalizing draft with
  | zero => rfl
  | succ count step => rw [closeScopes, close_writtenAs, step, closeScopes]

theorem finalText_writtenAs (draft : Draft) (rendered : String) :
    (draft.writtenAs rendered).finalText = draft.finalText := by
  have closed : (draft.writtenAs rendered).closeNested = draft.closeNested.writtenAs rendered :=
    closeScopes_writtenAs (draft.depth - 1) draft rendered
  rw [finalText, closed]
  rfl

end Draft

namespace Call

/-! ### Programs that are stopped -/

/-- **A program is stopped at a draft that it passes through.** The calls before that draft are made,
and what was being filled there is filled by no further calls. -/
inductive Stops : Draft → List Call → Draft → List Call → Prop
  | here (draft : Draft) (program : List Call) : Stops draft program draft []
  | later {draft found : Draft} {call : Call} {rest stopped : List Call}
      (further : Stops (run draft call) rest found stopped) :
      Stops draft (call :: rest) found (call :: stopped)
  | inside {draft found : Draft} {opening : Opening} {program rest stopped : List Call}
      (admits : draft.admits opening = true)
      (deeper : Stops (draft.enter opening) program found stopped) :
      Stops draft (.within opening program :: rest) found [.within opening stopped]

/-- A program can be stopped wherever it passes through. -/
theorem Passes.exists_stops {draft found : Draft} {program : List Call}
    (passes : Passes draft program found) : ∃ stopped, Stops draft program found stopped := by
  induction passes with
  | here draft program => exact ⟨[], .here draft program⟩
  | @later draft found call rest _ step =>
    obtain ⟨stopped, stops⟩ := step
    exact ⟨call :: stopped, .later stops⟩
  | @inside draft found opening program rest admits _ step =>
    obtain ⟨stopped, stops⟩ := step
    exact ⟨[.within opening stopped], .inside admits stops⟩

/-- **A program that is stopped closes the scopes of the draft it is stopped at.** How many it leaves
open is not known if it started over on its way, but they are no more than at its begin. -/
theorem Stops.exists_depth {draft found : Draft} {program stopped : List Call}
    (stops : Stops draft program found stopped) :
    ∃ depth, 1 ≤ depth ∧ depth ≤ draft.depth ∧ runAll draft stopped = found.closeTo depth := by
  induction stops with
  | here draft program =>
    exact ⟨draft.depth, draft.depth_pos, Nat.le_refl _, (Draft.closeTo_of_depth_le le_rfl).symm⟩
  | @later draft found call rest stopped _ step =>
    obtain ⟨depth, positive, few, same⟩ := step
    exact ⟨depth, positive, few.trans (draft.depth_run_le call), same⟩
  | @inside draft found opening program rest stopped admits _ step =>
    obtain ⟨depth, positive, -, same⟩ := step
    refine ⟨min depth draft.depth, le_min positive draft.depth_pos, Nat.min_le_right _ _, ?_⟩
    rw [runAll, runAll, run, if_pos admits, Draft.leave, same,
      Draft.closeTo_closeTo _ positive]

/-- **The final text of a draft is that of the program that is stopped at it.** Wherever a program
passes through, at any depth, it can be stopped; all scopes are closed then by the calls around, and
the draft is the one whose scopes are closed all at once. So the text is the same, whatever the draft
was last written as. Where no scope is open inside the statement, it is the text of the draft. -/
theorem final_text_as_unwound (settings : Settings) {program : List Call} {found : Draft}
    (passes : Passes (Draft.start settings) program found) :
    (∃ stopped, Stops (Draft.start settings) program found stopped) ∧
    (∀ stopped, Stops (Draft.start settings) program found stopped →
      (runAll (Draft.start settings) stopped).depth = 1 ∧
      runAll (Draft.start settings) stopped = found.closeNested ∧
      ∀ rendered, (found.writtenAs rendered).finalText =
        (runAll (Draft.start settings) stopped).text) ∧
    (found.depth = 1 → ∀ rendered, (found.writtenAs rendered).finalText = found.text) := by
  refine ⟨passes.exists_stops, fun stopped stops => ?_, fun alone rendered => ?_⟩
  · obtain ⟨depth, positive, few, same⟩ := stops.exists_depth
    obtain rfl : depth = 1 := Nat.le_antisymm few positive
    refine ⟨Draft.depth_runAll_of_depth_one rfl stopped, same, fun rendered => ?_⟩
    rw [Draft.finalText_writtenAs, same]
    rfl
  · rw [Draft.finalText_writtenAs, Draft.finalText, Draft.closeNested,
      Draft.closeTo_of_depth_le alone.le]

/-- A table that is a statement with a condition in a group, and a name for it. -/
def groupedTable : List Call :=
  [.within .table
    [.edit (.table "users"),
      .within (.condition .whereClause .and .group)
        [.edit (.restrict .whereClause .or (.verbatim "a = 1")),
          .edit (.restrict .whereClause .or (.verbatim "b = 2"))],
      .edit (.limit 1)],
    .edit (.giveName "u")]

/-- The draft inside the group of a table, behind its first condition. -/
def insideGroup : Draft :=
  ((((Draft.start .standard).enter .table).apply (.table "users")).enter
    (.condition .whereClause .and .group)).apply (.restrict .whereClause .or (.verbatim "a = 1"))

/-- A statement is finished inside a group of its table, behind the first condition there. -/
theorem final_text_as_unwound_group :
    Passes (Draft.start .standard) groupedTable insideGroup ∧ insideGroup.depth = 3 ∧
    Stops (Draft.start .standard) groupedTable insideGroup
      [.within .table [.edit (.table "users"), .within (.condition .whereClause .and .group)
        [.edit (.restrict .whereClause .or (.verbatim "a = 1"))]]] ∧
    (insideGroup.writtenAs "before").finalText =
      "SELECT * FROM ( SELECT * FROM users WHERE ( a = 1 ) )" := by
  have passes : Passes (Draft.start .standard) groupedTable insideGroup :=
    .inside rfl (.later (.inside rfl (.later (.here _ _))))
  have stops : Stops (Draft.start .standard) groupedTable insideGroup
      [.within .table [.edit (.table "users"), .within (.condition .whereClause .and .group)
        [.edit (.restrict .whereClause .or (.verbatim "a = 1"))]]] :=
    .inside rfl (.later (.inside rfl (.later (.here _ _))))
  obtain ⟨-, unwound, -⟩ := final_text_as_unwound .standard passes
  refine ⟨passes, rfl, stops, ((unwound _ stops).2.2 "before").trans ?_⟩
  decide +kernel

end Call

end SqlDraft
